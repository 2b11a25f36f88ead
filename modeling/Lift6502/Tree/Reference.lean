/-!
# Operand texts

The program tree holds operands as text: a name or number, an element of the memory at a name
`[base + index]`, or an element of the memory that a name points to, `[(base) + index]`.
-/

namespace Lift6502

inductive Reference where
  | plain (text : String)
  | indexed (base index : String)
  | pointer (base index : String)
  deriving DecidableEq

namespace Reference

/-- An element of the memory at a name: `[base + index]`. -/
def memoryText (base index : String) : String := "[" ++ base ++ " + " ++ index ++ "]"

/-- An element behind a pointer: `[(base) + index]`. -/
def pointerText (base index : String) : String := "[(" ++ base ++ ") + " ++ index ++ "]"

/-- The text between an opening and a closing character that stand at its ends. -/
def between? (opening closing : Char) : List Char → Option (List Char)
  | first :: rest =>
    if first == opening && rest.getLast? == some closing then some rest.dropLast else none
  | [] => none

/-- The texts before and after the last plus sign that stands between spaces. -/
def splitSum? : List Char → Option (List Char × List Char)
  | [] => none
  | c :: rest =>
    match splitSum? rest with
    | some (base, index) => some (c :: base, index)
    | none =>
      match c, rest with
      | ' ', '+' :: ' ' :: index => some ([], index)
      | _, _ => none

/-- The reference that an operand text spells. -/
def read (text : String) : Reference :=
  match (between? '[' ']' text.toList).bind splitSum? with
  | none => plain text
  | some (base, index) =>
    match between? '(' ')' base with
    | some base => pointer (String.ofList base) (String.ofList index)
    | none => indexed (String.ofList base) (String.ofList index)

end Reference

end Lift6502
