import Lift6502.Text.Digits

/-!
# Decimal numbers

Decimal texts appear as loop bounds in the program tree and as limits on the command line. Reading is
strict: an optional sign, at least one digit, nothing else, and a value inside the stated range.
-/

namespace Lift6502.Text

/-- A non-empty run of decimal digits, as a number. -/
def digitsValue? (digits : List Char) : Option Nat :=
  if digits ≠ [] && digits.all Char.isDigit then some (numberOfDigits 10 digits) else none

/-- A natural number below a limit, with at most one plus sign in front. -/
def readNat? (limit : Nat) (text : String) : Option Nat :=
  let digits := match text.toList with
    | '+' :: rest => rest
    | chars => chars
  (digitsValue? digits).filter (· < limit)

/-- An integer of thirty-two bits, with at most one sign in front. -/
def readInt? (text : String) : Option Int :=
  let value := match text.toList with
    | '+' :: rest => (digitsValue? rest).map Int.ofNat
    | '-' :: rest => (digitsValue? rest).map fun number => -Int.ofNat number
    | chars => (digitsValue? chars).map Int.ofNat
  value.filter fun number => -2147483648 ≤ number && number ≤ 2147483647

/-- The decimal digits of a number, most significant first. -/
def decimalDigits (number : Nat) : List Char :=
  if number < 10 then [hexDigit number]
  else decimalDigits (number / 10) ++ [hexDigit (number % 10)]
termination_by number

/-- A natural number in decimal. -/
def decimal (number : Nat) : String := String.ofList (decimalDigits number)

/-- An integer in decimal, with a minus sign if it is negative. -/
def decimalInt : Int → String
  | .ofNat number => decimal number
  | .negSucc number => "-" ++ decimal (number + 1)

end Lift6502.Text
