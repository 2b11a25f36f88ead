import Lift6502.Dialect.LoopRange
import Lift6502.Dialect.Style
import Lift6502.Tree.Reference

/-!
# What the BASIC dialects share

Indexed variables are arrays, and memory behind a pointer is read and written by `PEEK` and `POKE`. The
dialects differ in the mark between a record and its field.
-/

namespace Lift6502.BasicText

/-- An operand that is read. -/
def read (fieldMark : Char) (operand : String) : String :=
  match Reference.read operand with
  | .plain text => text.map fun c => if c = '.' then fieldMark else c
  | .indexed base index => base ++ "(" ++ index ++ ")"
  | .pointer base index => "PEEK(" ++ base ++ " + " ++ index ++ ")"

/-- The statement that stores a value. -/
def write (fieldMark : Char) (destination value : String) : String :=
  match Reference.read destination with
  | .pointer base index => "POKE " ++ base ++ " + " ++ index ++ ", " ++ value
  | _ => read fieldMark destination ++ " = " ++ value

/-- The spelling of a dialect with a mark for fields and a word that opens comments. -/
def spelling (fieldMark : Char) (commentMark : String) : Spelling :=
  { read := read fieldMark
    write := write fieldMark
    comparison := Comparison.text
    operator := id
    comment := fun text => commentMark ++ " " ++ text }

/-- The line that opens a counted loop. -/
def forLine (read : String → String) (node : Node) : String :=
  let range := LoopRange.ofNode node
  let step := if range.step = 1 then "" else " STEP " ++ Text.decimalInt range.step
  "FOR " ++ node.value ++ " = " ++ read range.first ++ " TO " ++ read range.last ++ step

/-- The line that closes a counted loop. -/
def nextLine (node : Node) : String := "NEXT " ++ node.value

end Lift6502.BasicText
