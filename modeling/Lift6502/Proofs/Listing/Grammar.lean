import Lift6502.Listing.Scan

/-!
# The grammar of a line

Every way to write an operation on a line, as data: which label, address, bytes, mnemonic and
operand the line has, how each of them is spelled, and what is left blank around them. A spelling
has a text, and a meaning that does not depend on how it is spelled.
-/

namespace Lift6502.Grammar

/-! ### What separates -/

/-- Spaces and tabs, or nothing. -/
abbrev Gap := { chars : List Char // ∀ c ∈ chars, Scan.isGap c = true }

/-- At least one space or tab. -/
abbrev Break := { chars : List Char // chars ≠ [] ∧ ∀ c ∈ chars, Scan.isGap c = true }

/-- White space of any kind, or nothing. -/
abbrev Blanks := { chars : List Char // ∀ c ∈ chars, Text.isBlank c = true }

/-! ### Numbers -/

/-- How a number is marked. -/
inductive Style where
  | dollar | lowerHex | upperHex | percent | plain
  deriving DecidableEq

namespace Style

def mark : Style → List Char
  | dollar => ['$']
  | lowerHex => ['0', 'x']
  | upperHex => ['0', 'X']
  | percent => ['%']
  | plain => []

def base : Style → Nat
  | dollar | lowerHex | upperHex => 16
  | percent => 2
  | plain => 10

def isDigit : Style → Char → Bool
  | dollar | lowerHex | upperHex => Text.isHexDigit
  | percent => Text.isBinaryDigit
  | plain => Char.isDigit

end Style

/-- The place of a digit, of either case, in the order of the digits. -/
def rank (digit : Char) : Nat := "0123456789abcdef".toList.idxOf digit.toLower

/-- What digits are worth, most significant first. -/
def worth (base : Nat) : List Char → Nat
  | [] => 0
  | digit :: rest => rank digit * Nat.pow base rest.length + worth base rest

/-- A number that fits in sixteen bits, with any number of leading zeros. -/
structure Numeral where
  style : Style
  digits : List Char
  nonempty : digits ≠ []
  isDigit : ∀ c ∈ digits, style.isDigit c = true
  bound : worth style.base digits < 65536

namespace Numeral

def text (numeral : Numeral) : List Char := numeral.style.mark ++ numeral.digits

def number (numeral : Numeral) : Nat := worth numeral.style.base numeral.digits

def word (numeral : Numeral) : Address := UInt16.ofNat numeral.number

end Numeral

/-- A number that fits in a byte. -/
abbrev Byte := { numeral : Numeral // numeral.number < 256 }

def Byte.text (byte : Byte) : List Char := byte.val.text

def Byte.value (byte : Byte) : UInt8 := UInt8.ofNat byte.val.number

/-! ### Labels and addresses -/

/-- A letter or underscore, and then letters, digits and underscores. -/
abbrev Name := { chars : List Char // chars.head?.any Text.isNameStart = true ∧
    ∀ c ∈ chars, Text.isNameChar c = true }

abbrev FourDigits :=
  { chars : List Char // chars.length = 4 ∧ ∀ c ∈ chars, Text.isHexDigit c = true }

/-- A label in front of an operation: `name :`. -/
structure Label where
  name : Name
  notAddress : ¬ (name.val.length = 4 ∧ ∀ c ∈ name.val, Text.isHexDigit c = true)
  gap : Gap

def Label.text (label : Label) : List Char := label.name.val ++ label.gap.val ++ [':']

/-- An address in front of an operation. -/
inductive Place where
  /-- `$h..h` or `0xh..h`, with or without a colon. -/
  | marked (numeral : Numeral) (hexadecimal : numeral.style.base = 16) (colon : Bool)
  /-- `hhhh:`. -/
  | bare (digits : FourDigits)
  /-- `.hhhh`. -/
  | dotted (digits : FourDigits)

namespace Place

def text : Place → List Char
  | marked numeral _ colon => numeral.text ++ if colon then [':'] else []
  | bare digits => digits.val ++ [':']
  | dotted digits => '.' :: digits.val

def address : Place → Address
  | marked numeral _ _ => numeral.word
  | bare digits | dotted digits => UInt16.ofNat (worth 16 digits.val)

end Place

/-- A byte of the instruction, as a column of a dump. -/
structure Column where
  high : Char
  low : Char
  highDigit : Text.isHexDigit high = true
  lowDigit : Text.isHexDigit low = true
  gap : Break

def Column.text (column : Column) : List Char := column.high :: column.low :: column.gap.val

/-- Three letters of either case. -/
abbrev Token := { chars : List Char // chars.length = 3 ∧ ∀ c ∈ chars, c.isAlpha = true }

/-! ### Operands -/

/-- A letter in the case that is asked for. -/
def letter (capital : Bool) (upper lower : Char) : Char := if capital then upper else lower

def indexLetter (capital : Bool) : IndexRegister → Char
  | .x => letter capital 'X' 'x'
  | .y => letter capital 'Y' 'y'

/-- An operand in any spelling of its addressing mode. -/
inductive OperandForm where
  | accumulator (capital : Bool)
  | immediate (gap : Gap) (value : Byte)
  | absolute (address : Numeral)
  | indexed (base : Numeral) (before after : Gap) (index : IndexRegister) (capital : Bool)
  /-- `(zp),Y`. -/
  | indirectY (inner : Gap) (pointer : Byte) (outer before after : Gap) (capital : Bool)
  /-- `(zp,X)`. -/
  | indirectX (inner : Gap) (pointer : Byte) (before after : Gap) (capital : Bool) (outer : Gap)
  | indirect (inner : Gap) (address : Numeral) (outer : Gap)
  | symbolic (name : Name) (notAccumulator : name.val ≠ ['a'] ∧ name.val ≠ ['A'])

namespace OperandForm

def indexText (before after : Gap) (index : IndexRegister) (capital : Bool) : List Char :=
  before.val ++ ',' :: after.val ++ [indexLetter capital index]

def text : OperandForm → List Char
  | accumulator capital => [letter capital 'A' 'a']
  | immediate gap value => '#' :: gap.val ++ value.text
  | absolute address => address.text
  | indexed base before after index capital => base.text ++ indexText before after index capital
  | indirectY inner pointer outer before after capital =>
    '(' :: inner.val ++ pointer.text ++ outer.val ++ ')' :: indexText before after .y capital
  | indirectX inner pointer before after capital outer =>
    '(' :: inner.val ++ pointer.text ++ indexText before after .x capital ++ outer.val ++ [')']
  | indirect inner address outer => '(' :: inner.val ++ address.text ++ outer.val ++ [')']
  | symbolic name _ => name.val

def operand : OperandForm → Operand
  | accumulator _ => .accumulator
  | immediate _ value => .immediate value.value
  | absolute address => .absolute address.word
  | indexed base _ _ index _ => .indexed base.word index
  | indirectY _ pointer _ _ _ _ => .indirectIndexed pointer.value .y
  | indirectX _ pointer _ _ _ _ => .indirectIndexed pointer.value .x
  | indirect _ address _ => .indirect address.word
  | symbolic name _ => .symbolic (String.ofList name.val)

end OperandForm

/-! ### Lines -/

/-- A line that holds an operation. -/
structure LineForm where
  lead : Blanks
  label : Option (Label × Gap)
  place : Option (Place × Break)
  columns : List Column
  mnemonic : Token
  operand : Option (Break × OperandForm)
  trail : Blanks
  comment : Option (List Char)

namespace LineForm

variable (line : LineForm)

def labelText : List Char := (line.label.map fun (label, gap) => label.text ++ gap.val).getD []

def placeText : List Char := (line.place.map fun (place, gap) => place.text ++ gap.val).getD []

def columnsText : List Char := line.columns.flatMap Column.text

def operandText : List Char :=
  (line.operand.map fun (gap, operand) => gap.val ++ operand.text).getD []

def commentText : List Char := (line.comment.map (';' :: ·)).getD []

def statementText : List Char := line.mnemonic.val ++ line.operandText

def dumpText : List Char := line.columnsText ++ line.statementText

def placedText : List Char := line.placeText ++ line.dumpText

/-- The line without its comment and without the blanks around it. -/
def code : List Char := line.labelText ++ line.placedText

def text : String :=
  String.ofList (line.lead.val ++ line.code ++ line.trail.val ++ line.commentText)

/-- What a line says. -/
def meaning : Line :=
  .operation (line.label.map fun (label, _) => String.ofList label.name.val)
    (line.place.map fun (place, _) => place.address)
    ⟨Mnemonic.read (String.ofList line.mnemonic.val),
      (line.operand.map fun (_, operand) => operand.operand).getD .implied⟩

end LineForm

end Lift6502.Grammar
