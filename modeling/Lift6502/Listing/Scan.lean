import Lift6502.Listing.Line
import Lift6502.Text.Blank
import Lift6502.Text.Digits
import Lift6502.Text.Name

/-!
# Reading one line

The scanners below work on characters. Each cuts what it recognises off the front and returns the
rest; each takes as much as it can and never gives any of it back. Between the parts of a line only
spaces and tabs separate, while the line as a whole is trimmed of every blank.
-/

namespace Lift6502

namespace Scan

/-- Characters that separate the parts of a line. -/
def isGap (c : Char) : Bool := c == ' ' || c == '\t'

def skipGap (text : List Char) : List Char := text.dropWhile isGap

/-- Cuts at least one separating character off the front. -/
def gap? : List Char → Option (List Char)
  | c :: rest => if isGap c then some (skipGap rest) else none
  | [] => none

theorem length_gap?_lt {text rest : List Char} (h : gap? text = some rest) :
    rest.length < text.length := by
  cases text with
  | nil => cases h
  | cons c tail =>
    simp only [gap?] at h
    split at h
    · cases h
      exact Nat.lt_succ_of_le (List.dropWhile_sublist isGap).length_le
    · cases h

/-- Cuts one given character off the front. -/
def char? (expected : Char) : List Char → Option (List Char)
  | c :: rest => if c == expected then some rest else none
  | [] => none

/-- Cuts a non-empty run of digits off the front and reads it as a word. -/
def digits? (base : Nat) (isDigit : Char → Bool) (text : List Char) :
    Option (Address × List Char) :=
  match text.takeWhile isDigit with
  | [] => none
  | digits => (Text.wordOfDigits? base digits).map fun word => (word, text.dropWhile isDigit)

/-- A hexadecimal number after `$`, `0x` or `0X`. -/
def hexNumber? : List Char → Option (Address × List Char)
  | '$' :: rest => digits? 16 Text.isHexDigit rest
  | '0' :: 'x' :: rest => digits? 16 Text.isHexDigit rest
  | '0' :: 'X' :: rest => digits? 16 Text.isHexDigit rest
  | _ => none

/-- A binary number after `%`. -/
def binaryNumber? : List Char → Option (Address × List Char)
  | '%' :: rest => digits? 2 Text.isBinaryDigit rest
  | _ => none

def decimalNumber? (text : List Char) : Option (Address × List Char) :=
  digits? 10 Char.isDigit text

def number? (text : List Char) : Option (Address × List Char) :=
  hexNumber? text <|> binaryNumber? text <|> decimalNumber? text

/-- A number below 256. -/
def byte? (text : List Char) : Option (UInt8 × List Char) :=
  match number? text with
  | some (word, rest) => if word ≤ 0xFF then some (word.toUInt8, rest) else none
  | none => none

/-! ## Labels and addresses -/

/-- Four hexadecimal digits alone are an address and never a label. -/
def isBareAddress (name : List Char) : Bool := name.length == 4 && name.all Text.isHexDigit

/-- A name, separating characters and a colon. -/
def label? (text : List Char) : Option (String × List Char) :=
  match Text.takeName? text with
  | some (name, rest) =>
    if isBareAddress name then none
    else (char? ':' (skipGap rest)).map fun rest => (String.ofList name, rest)
  | none => none

/-- Exactly four hexadecimal digits, whatever follows them. -/
def fourDigits? : List Char → Option (Address × List Char)
  | a :: b :: c :: d :: rest =>
    if [a, b, c, d].all Text.isHexDigit then
      (Text.wordOfDigits? 16 [a, b, c, d]).map fun word => (word, rest)
    else none
  | _ => none

/-- Cuts a colon off the front if there is one. -/
def skipColon : List Char → List Char
  | ':' :: rest => rest
  | text => text

/-- An address: `$h..h` or `0xh..h` with or without a colon, `hhhh:`, or `.hhhh`. -/
def address? (text : List Char) : Option (Address × List Char) :=
  (match hexNumber? text with
    | some (address, rest) => some (address, skipColon rest)
    | none => none)
  <|> (match fourDigits? text with
    | some (address, ':' :: rest) => some (address, rest)
    | _ => none)
  <|> (match text with
    | '.' :: rest => fourDigits? rest
    | _ => none)

/-- Cuts the columns of instruction bytes off the front: two hexadecimal digits and separating
characters, any number of times. -/
def skipBytes (text : List Char) : List Char :=
  match text with
  | high :: low :: rest =>
    if Text.isHexDigit high && Text.isHexDigit low then
      match h : gap? rest with
      | some after =>
        have : after.length < rest.length := length_gap?_lt h
        skipBytes after
      | none => text
    else text
  | _ => text
termination_by text.length

/-! ## Operands -/

/-- Keeps a result only if nothing is left of the text. -/
def complete {α : Type} : Option (α × List Char) → Option α
  | some (result, []) => some result
  | _ => none

/-- A comma with separating characters around it. -/
def comma? (text : List Char) : Option (List Char) :=
  (char? ',' (skipGap text)).map skipGap

/-- An opening parenthesis with separating characters after it. -/
def openParen? (text : List Char) : Option (List Char) :=
  (char? '(' text).map skipGap

/-- A closing parenthesis with separating characters before it. -/
def closeParen? (text : List Char) : Option (List Char) :=
  char? ')' (skipGap text)

def indexRegister? : List Char → Option (IndexRegister × List Char)
  | 'x' :: rest | 'X' :: rest => some (.x, rest)
  | 'y' :: rest | 'Y' :: rest => some (.y, rest)
  | _ => none

/-- A byte after `#`. -/
def immediate? (text : List Char) : Option (Operand × List Char) := do
  let rest ← char? '#' text
  let (value, rest) ← byte? (skipGap rest)
  return (.immediate value, rest)

/-- A pointer indexed after it was followed: `(zp),Y`. -/
def indirectY? (text : List Char) : Option (Operand × List Char) := do
  let rest ← openParen? text
  let (pointer, rest) ← byte? rest
  let rest ← closeParen? rest
  let rest ← comma? rest
  match ← indexRegister? rest with
  | (.y, rest) => some (.indirectIndexed pointer .y, rest)
  | _ => none

/-- A pointer indexed before it is followed: `(zp,X)`. -/
def indirectX? (text : List Char) : Option (Operand × List Char) := do
  let rest ← openParen? text
  let (pointer, rest) ← byte? rest
  let rest ← comma? rest
  match ← indexRegister? rest with
  | (.x, rest) =>
    let rest ← closeParen? rest
    return (.indirectIndexed pointer .x, rest)
  | _ => none

/-- A plain indirection: `(address)`. -/
def indirect? (text : List Char) : Option (Operand × List Char) := do
  let rest ← openParen? text
  let (address, rest) ← number? rest
  let rest ← closeParen? rest
  return (.indirect address, rest)

/-- An indexed address: `address,X` or `address,Y`. -/
def indexed? (text : List Char) : Option (Operand × List Char) := do
  let (base, rest) ← number? text
  let rest ← comma? rest
  let (index, rest) ← indexRegister? rest
  return (.indexed base index, rest)

def absolute? (text : List Char) : Option (Operand × List Char) := do
  let (address, rest) ← number? text
  return (.absolute address, rest)

def accumulator? : List Char → Option (Operand × List Char)
  | 'a' :: rest | 'A' :: rest => some (.accumulator, rest)
  | _ => none

def symbolic? (text : List Char) : Option (Operand × List Char) := do
  let (name, rest) ← Text.takeName? text
  return (.symbolic (String.ofList name), rest)

/-- The operand that a whole text spells: the first addressing mode that takes all of it. -/
def operand? (text : List Char) : Option Operand :=
  complete (immediate? text) <|> complete (indirectY? text) <|> complete (indirectX? text)
    <|> complete (indirect? text) <|> complete (indexed? text) <|> complete (absolute? text)
    <|> complete (accumulator? text) <|> complete (symbolic? text)

/-! ## Whole lines -/

/-- A line cut into its parts, the operand still as text. -/
structure Parts where
  label : Option String
  address : Option Address
  mnemonic : Mnemonic
  operand : Option (List Char)

/-- An optional part with separating characters after it. -/
def optional {α : Type} (part : List Char → Option (α × List Char)) (text : List Char) :
    Option α × List Char :=
  match part text with
  | some (found, rest) => (some found, skipGap rest)
  | none => (none, text)

/-- Cuts a line into its parts; the letters of the mnemonic are exactly three. -/
def parts? (text : List Char) : Option Parts :=
  let (label, text) := optional label? text
  let (address, text) := optional address? text
  let text := skipBytes text
  let letters := text.takeWhile Char.isAlpha
  if letters.length == 3 then
    let mnemonic := Mnemonic.read (String.ofList letters)
    match text.dropWhile Char.isAlpha with
    | [] => some { label, address, mnemonic, operand := none }
    | rest => (gap? rest).map fun operand => { label, address, mnemonic, operand := some operand }
  else none

/-- The text before the comment, trimmed. -/
def code (text : List Char) : List Char := Text.trim (text.takeWhile (· != ';'))

end Scan

namespace Line

/-- Classifies one line of a listing. -/
def scan (text : String) : Except LineError Line :=
  match Scan.code text.toList with
  | [] => .ok .blank
  | code =>
    match Scan.complete (Scan.label? code) with
    | some name => .ok (.label name)
    | none =>
      match Scan.parts? code with
      | none => .error .unrecognized
      | some parts =>
        match parts.operand.map Text.trim with
        | none => .ok (.operation parts.label parts.address ⟨parts.mnemonic, .implied⟩)
        | some operandText =>
          match Scan.operand? operandText with
          | some operand => .ok (.operation parts.label parts.address ⟨parts.mnemonic, operand⟩)
          | none => .error (.operand (String.ofList operandText))

end Line

/-- The instruction of a line that carries its own address. -/
def Instruction.ofLine? (text : String) : Option Instruction :=
  match Line.scan text with
  | .ok (.operation _ (some address) operation) => some { operation with address }
  | _ => none

end Lift6502
