/-!
# Digits

Listings write numbers in hexadecimal, binary and decimal; everything printed in hexadecimal is in
upper case with a fixed number of digits.
-/

namespace Lift6502.Text

def isHexDigit (c : Char) : Bool :=
  c.isDigit || ('a' ≤ c && c ≤ 'f') || ('A' ≤ c && c ≤ 'F')

def isBinaryDigit (c : Char) : Bool := c == '0' || c == '1'

/-- The value of a decimal or hexadecimal digit of either case. -/
def digitValue (c : Char) : Nat :=
  if c.isDigit then c.toNat - '0'.toNat
  else if 'a' ≤ c then c.toNat - 'a'.toNat + 10
  else c.toNat - 'A'.toNat + 10

/-- The number that a run of digits, most significant first, spells in a base. -/
def numberOfDigits (base : Nat) (digits : List Char) : Nat :=
  digits.foldl (fun number digit => number * base + digitValue digit) 0

/-- The number that a run of digits spells, if it fits in sixteen bits. -/
def wordOfDigits? (base : Nat) (digits : List Char) : Option UInt16 :=
  let number := numberOfDigits base digits
  if number < 65536 then some (UInt16.ofNat number) else none

/-- The upper-case hexadecimal digit of a number below sixteen. -/
def hexDigit (number : Nat) : Char :=
  if number < 10 then Char.ofNat ('0'.toNat + number) else Char.ofNat ('A'.toNat + (number - 10))

/-- Two hexadecimal digits of a number below 256. -/
def hex2 (number : Nat) : String :=
  String.ofList [hexDigit (number / 16 % 16), hexDigit (number % 16)]

/-- Four hexadecimal digits of a word. -/
def hex4 (word : UInt16) : String :=
  let number := word.toNat
  String.ofList
    [hexDigit (number / 4096 % 16), hexDigit (number / 256 % 16), hexDigit (number / 16 % 16),
     hexDigit (number % 16)]

/-- A word in two digits if it is below 256, else in four. -/
def hexShort (word : UInt16) : String :=
  if word ≤ 0xFF then hex2 word.toNat else hex4 word

/-- The sixteen-bit number that a text of digits spells, with at most one plus sign in front. -/
def plainWord? (base : Nat) (isDigit : Char → Bool) (text : List Char) : Option UInt16 :=
  let digits := match text with
    | '+' :: rest => rest
    | _ => text
  if digits ≠ [] && digits.all isDigit then wordOfDigits? base digits else none

end Lift6502.Text
