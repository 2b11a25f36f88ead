import Lift6502.Json.Value
import Lift6502.Text.Decimal

/-!
# Printing JSON

Every element and member stands on a line of its own, two spaces further in than what holds it; an
empty array or object is printed without a line break. Of the characters of a string only the quote,
the backslash and the control characters are escaped.
-/

namespace Lift6502.Json

/-- A character inside a printed string. -/
def escape (c : Char) : List Char :=
  match c with
  | '"' => ['\\', '"']
  | '\\' => ['\\', '\\']
  | '\x08' => ['\\', 'b']
  | '\x0c' => ['\\', 'f']
  | '\n' => ['\\', 'n']
  | '\r' => ['\\', 'r']
  | '\t' => ['\\', 't']
  | c =>
    if c.toNat < 0x20 then
      ['\\', 'u', '0', '0'] ++ (Text.hex2 c.toNat).toList.map Char.toLower
    else [c]

def quote (text : String) : String :=
  String.ofList ('"' :: text.toList.flatMap escape ++ ['"'])

/-- The spaces in front of a line. -/
def margin (depth : Nat) : String := String.ofList (List.replicate (2 * depth) ' ')

/-- A number; one with a power of ten is printed with an exponent. -/
def printNumber (mantissa exponent : Int) : String :=
  if exponent = 0 then Text.decimalInt mantissa
  else Text.decimalInt mantissa ++ "e" ++ Text.decimalInt exponent

/-- Puts printed parts between brackets, each on a line of its own one level further in. -/
def enclose (depth : Nat) (opening closing : String) : List String → String
  | [] => opening ++ closing
  | parts =>
    opening ++ "\n" ++ String.intercalate ",\n" (parts.map (margin (depth + 1) ++ ·)) ++ "\n"
      ++ margin depth ++ closing

mutual

/-- A value that starts in the middle of a line at some depth. -/
def printAt (depth : Nat) : Json → String
  | .null => "null"
  | .bool value => if value then "true" else "false"
  | .number mantissa exponent => printNumber mantissa exponent
  | .string text => quote text
  | .array elements => enclose depth "[" "]" (printElements (depth + 1) elements)
  | .object members => enclose depth "\x7b" "\x7d" (printMembers (depth + 1) members)

def printElements (depth : Nat) : List Json → List String
  | [] => []
  | element :: elements => printAt depth element :: printElements depth elements

def printMembers (depth : Nat) : List (String × Json) → List String
  | [] => []
  | (name, value) :: members =>
    (quote name ++ ": " ++ printAt depth value) :: printMembers depth members

end

/-- The printed form of a value. -/
def print (value : Json) : String := printAt 0 value

end Lift6502.Json
