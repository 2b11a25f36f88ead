import Lift6502.Json.Value
import Lift6502.Text.Digits

/-!
# Tokens of a JSON text

The text is cut into punctuation, names of constants, numbers and strings. A number must fit the range
of a double: its leading digits, as many as sixty-four bits hold, are rounded to fifty-three bits,
multiplied by the power of ten rounded likewise, and rounded once more; the result must stay below
`2 ^ 1024`. A string holds no raw control character, and a surrogate escape stands only in a pair.
-/

namespace Lift6502.Json

inductive Token where
  | openArray | closeArray | openObject | closeObject | comma | colon
  /-- A constant, a number or a string. -/
  | scalar (value : Json)

/-! ## Numbers -/

/-- Rounds to fifty-three significant bits, a tie to the even neighbour. -/
def roundDouble (number : Nat) : Nat :=
  if number < Nat.pow 2 53 then number
  else
    let shift := number.log2 - 52
    let size := Nat.pow 2 shift
    let quotient := number / size
    let remainder := number % size
    let half := size / 2
    let up := half < remainder || (half == remainder && quotient % 2 == 1)
    (if up then quotient + 1 else quotient) * size

/-- The leading digits that fit in sixty-four bits, and the digits after them. -/
def leadingDigits (significand : Nat) : List Char → Nat × List Char
  | [] => (significand, [])
  | digit :: rest =>
    let next := significand * 10 + Text.digitValue digit
    if next < Nat.pow 2 64 then leadingDigits next rest else (significand, digit :: rest)

/-- Whether a number stays inside the range of a double. -/
def inDoubleRange (whole fraction : List Char) (exponent : Int) : Bool :=
  let (significand, dropped) := leadingDigits 0 whole
  let (significand, ignored) := leadingDigits significand fraction
  let power : Int := dropped.length - (fraction.length - ignored.length : Nat) + exponent
  significand == 0
    || power < 0
    || (power ≤ 308
      && roundDouble (roundDouble significand * roundDouble (Nat.pow 10 power.toNat)) < Nat.pow 2 1024)

/-- A non-empty run of decimal digits and the rest. -/
def digits? (text : List Char) : Option (List Char × List Char) :=
  match text.takeWhile Char.isDigit with
  | [] => none
  | digits => some (digits, text.dropWhile Char.isDigit)

/-- The whole part: a zero alone, or digits of which the first is not zero. -/
def whole? : List Char → Option (List Char × List Char)
  | '0' :: rest => some (['0'], rest)
  | text => digits? text

/-- The digits after a point; none if there is no point. -/
def fraction? : List Char → Option (List Char × List Char)
  | '.' :: rest => digits? rest
  | text => some ([], text)

/-- The power of ten after the letter `e`; zero if there is none. -/
def exponent? (text : List Char) : Option (Int × List Char) :=
  let unsigned (rest : List Char) : Option (Int × List Char) :=
    (digits? rest).map fun (digits, rest) => ((Text.numberOfDigits 10 digits : Int), rest)
  let signed : List Char → Option (Int × List Char)
    | '-' :: rest => (unsigned rest).map fun (power, rest) => (-power, rest)
    | '+' :: rest => unsigned rest
    | rest => unsigned rest
  match text with
  | 'e' :: rest | 'E' :: rest => signed rest
  | _ => some (0, text)

/-- A number without its sign. -/
def unsigned? (negative : Bool) (text : List Char) : Option (Token × List Char) := do
  let (whole, rest) ← whole? text
  let (fraction, rest) ← fraction? rest
  let (power, rest) ← exponent? rest
  if inDoubleRange whole fraction power then
    let mantissa : Int := Text.numberOfDigits 10 (whole ++ fraction)
    return (.scalar (.number (if negative then -mantissa else mantissa) (power - fraction.length)), rest)
  else none

/-! ## Strings -/

/-- What one sixteen-bit unit does after a high surrogate, or after none. -/
inductive UnitMeaning where
  | character (c : Char)
  | highSurrogate (unit : Nat)
  | unpaired

def combine (high : Option Nat) (unit : Nat) : UnitMeaning :=
  let isHigh := 0xD800 ≤ unit && unit < 0xDC00
  let isLow := 0xDC00 ≤ unit && unit < 0xE000
  match high with
  | none =>
    if isHigh then .highSurrogate unit
    else if isLow then .unpaired
    else .character (Char.ofNat unit)
  | some high =>
    if isLow then .character (Char.ofNat (0x10000 + (high - 0xD800) * 0x400 + (unit - 0xDC00)))
    else .unpaired

/-- The character that a letter after a backslash stands for. -/
def escaped? : Char → Option Char
  | '"' => some '"'
  | '\\' => some '\\'
  | '/' => some '/'
  | 'b' => some '\x08'
  | 'f' => some '\x0c'
  | 'n' => some '\n'
  | 'r' => some '\r'
  | 't' => some '\t'
  | _ => none

/-- The characters up to the closing quote, and the text after it. A high surrogate that was just read
waits for its partner. -/
def string? (high : Option Nat) : List Char → Option (List Char × List Char)
  | [] => none
  | '"' :: rest => if high.isSome then none else some ([], rest)
  | '\\' :: 'u' :: a :: b :: c :: d :: rest =>
    if [a, b, c, d].all Text.isHexDigit then
      match combine high (Text.numberOfDigits 16 [a, b, c, d]) with
      | .character c => (string? none rest).map fun (text, rest) => (c :: text, rest)
      | .highSurrogate unit => string? (some unit) rest
      | .unpaired => none
    else none
  | '\\' :: letter :: rest =>
    if high.isSome then none
    else match escaped? letter with
      | some c => (string? none rest).map fun (text, rest) => (c :: text, rest)
      | none => none
  | c :: rest =>
    if high.isSome || c.toNat < 0x20 then none
    else (string? none rest).map fun (text, rest) => (c :: text, rest)

/-! ## Cutting a text into tokens -/

def isSpace (c : Char) : Bool := c == ' ' || c == '\n' || c == '\t' || c == '\r'

/-- Cuts one token off the front. -/
def token? : List Char → Option (Token × List Char)
  | '[' :: rest => some (.openArray, rest)
  | ']' :: rest => some (.closeArray, rest)
  | '\x7b' :: rest => some (.openObject, rest)
  | '\x7d' :: rest => some (.closeObject, rest)
  | ',' :: rest => some (.comma, rest)
  | ':' :: rest => some (.colon, rest)
  | 'n' :: 'u' :: 'l' :: 'l' :: rest => some (.scalar .null, rest)
  | 't' :: 'r' :: 'u' :: 'e' :: rest => some (.scalar (.bool true), rest)
  | 'f' :: 'a' :: 'l' :: 's' :: 'e' :: rest => some (.scalar (.bool false), rest)
  | '"' :: rest => (string? none rest).map fun (text, rest) => (.scalar (.string (String.ofList text)), rest)
  | '-' :: rest => unsigned? true rest
  | text => unsigned? false text

/-- Cuts a whole text into tokens. Every token takes at least one character, so the number of
characters bounds the number of tokens. -/
def tokens? (text : List Char) : Option (List Token) :=
  cut text.length (text.dropWhile isSpace)
where
  cut : Nat → List Char → Option (List Token)
  | _, [] => some []
  | 0, _ => none
  | bound + 1, text =>
    match token? text with
    | some (token, rest) => (cut bound (rest.dropWhile isSpace)).map (token :: ·)
    | none => none

end Lift6502.Json
