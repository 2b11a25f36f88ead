import Lift6502.Dialect.Layout
import Lift6502.Tree.Program

/-!
# Dialects

A dialect has a spelling for operands, operators and comments, and renders each kind of node as lines
before and after those of its children. Conditions, expressions and the nodes that all dialects write in
the same way are made from the spelling alone.
-/

namespace Lift6502

/-- The lines of one node. -/
structure Rendered where
  /-- The lines in front of the children. -/
  opening : List String := []
  /-- The lines after the children. -/
  closing : List String := []
  /-- Whether the children are written. -/
  descend : Bool := false
  /-- Whether the children are indented. -/
  indented : Bool := false
  deriving DecidableEq

namespace Rendered

/-- One line without children. -/
def line (text : String) : Rendered := { opening := [text] }

/-- Lines around indented children. -/
def around (opening closing : List String) : Rendered :=
  { opening, closing, descend := true, indented := true }

/-- Lines around children at the same level. -/
def level (opening : List String) (closing : List String := []) : Rendered :=
  { opening, closing, descend := true }

end Rendered

/-- How a dialect spells the parts of a statement. -/
structure Spelling where
  /-- An operand that is read. -/
  read : String → String
  /-- The statement that stores a value. -/
  write : String → String → String
  comparison : Comparison → String
  operator : String → String
  comment : String → String

namespace Spelling

/-- A comparison of two operands; without one the condition always holds. -/
def condition (spelling : Spelling) : List String → String
  | [left, operator, right] =>
    let operator := ((Comparison.read? operator).map spelling.comparison).getD operator
    spelling.read left ++ " " ++ operator ++ " " ++ spelling.read right
  | _ => "1"

/-- The opposite of a comparison; an operator that is no comparison stays as it is. -/
def inverted (spelling : Spelling) : List String → String
  | [left, operator, right] =>
    let operator := ((Comparison.read? operator).map (·.inverse.text)).getD operator
    spelling.condition [left, operator, right]
  | _ => "0"

/-- A value, or an operation on two values. -/
def expression (spelling : Spelling) : List String → String
  | [value] => spelling.read value
  | [left, operator, right] =>
    spelling.read left ++ " " ++ spelling.operator operator ++ " " ++ spelling.read right
  | params => " ".intercalate params

/-- An assignment. -/
def assignment (spelling : Spelling) : List String → String
  | destination :: first :: rest =>
    spelling.write destination (spelling.expression (first :: rest))
  | params => spelling.comment (" ".intercalate params)

/-- The nodes that need no more than the spelling. -/
def statement (spelling : Spelling) (node : Node) : Rendered :=
  match node.kind with
  | .assign => .line (spelling.assignment node.params)
  | .expr => .line (spelling.write node.value (spelling.expression node.params))
  | .structDef =>
    .level [spelling.comment (node.value ++ " \x7b " ++ ", ".intercalate node.params ++ " \x7d")]
  | .globalVar =>
    .line (spelling.comment ("global " ++ node.value ++ " at " ++ node.params.head?.getD "?"))
  | .raw => .line (spelling.comment node.value)
  | .block => .level [spelling.comment node.value]
  | _ => .level []

end Spelling

structure Dialect extends Spelling where
  /-- Whether lines are numbered. Jumps go to line numbers then. -/
  numbered : Bool
  /-- The line that defines a label, if there is one. -/
  labelLine? : String → Option String
  /-- The text of the target of a jump. -/
  jumpTarget : Places → String → String
  /-- The lines in front of the program. -/
  preamble : Program → List String
  /-- The lines after the program. -/
  postamble : Program → List String
  render : Places → Node → Rendered

end Lift6502
