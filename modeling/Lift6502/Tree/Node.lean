import Lift6502.Machine.Address
import Lift6502.Tree.Comparison

/-!
# The program tree

A program is a tree of nodes that all have the same fields; the kind of a node says what they mean.

| kind | `value` | `params` |
|---|---|---|
| `goto`, `ifGoto` | target label | condition, empty for always |
| `forLoop` | counter | first value, bound, step |
| `whileLoop`, `doUntil` | | condition |
| `assign` | | destination and value, or destination and `left operator right` |
| `expr` | flag that is written | `left operator right` |
| `switch` | subject | |
| `case` | | subject, constant |
| `subCall`, `romCall` | routine | arguments |
| `function` | routine | names of parameters |
| `structDef` | record | names of fields |
| `globalVar` | variable | address |
| `raw` | text | |
| `block` | what the block is | |

A condition is a list of left side, operator and right side.
-/

namespace Lift6502

inductive NodeKind where
  | program | forLoop | whileLoop | doUntil | ifGoto | nestedIf | switch | case | subCall | goto
  | leave | assign | expr | structDef | globalVar | raw | function | romCall | exitSwitch | block
  deriving DecidableEq

namespace NodeKind

def all : List NodeKind :=
  [program, forLoop, whileLoop, doUntil, ifGoto, nestedIf, switch, case, subCall, goto, leave, assign,
   expr, structDef, globalVar, raw, function, romCall, exitSwitch, block]

/-- The name of the kind in the JSON form of a tree. -/
def text : NodeKind → String
  | program => "Program"
  | forLoop => "For"
  | whileLoop => "While"
  | doUntil => "DoUntil"
  | ifGoto => "If"
  | nestedIf => "NestedIf"
  | switch => "Switch"
  | case => "Case"
  | subCall => "SubCall"
  | goto => "Goto"
  | leave => "Return"
  | assign => "Assign"
  | expr => "Expr"
  | structDef => "StructDef"
  | globalVar => "GlobalVar"
  | raw => "Raw"
  | function => "Function"
  | romCall => "KernalCall"
  | exitSwitch => "Break"
  | block => "Block"

def read? (text : String) : Option NodeKind := all.find? (·.text == text)

end NodeKind

structure Node where
  kind : NodeKind
  children : List Node := []
  value : String := ""
  /-- The label that is defined at the node. -/
  label : Option String := none
  params : List String := []
  /-- The address of the instruction that the node was built from. -/
  address : Option Address := none

namespace Node

mutual

/-- The node and everything below it, in document order. -/
def walk : Node → List Node
  | ⟨kind, children, value, label, params, address⟩ =>
    ⟨kind, children, value, label, params, address⟩ :: walkAll children

/-- The nodes of several trees, in document order. -/
def walkAll : List Node → List Node
  | [] => []
  | node :: nodes => node.walk ++ walkAll nodes

end

/-- How many nodes of a kind there are in the tree. -/
def count (kind : NodeKind) (node : Node) : Nat := (node.walk.filter (·.kind == kind)).length

/-- The condition of a node with exactly three parameters, of which the middle one is an operator. -/
def condition? (node : Node) : Option (String × Comparison × String) :=
  match node.params with
  | [left, operator, right] => (Comparison.read? operator).map fun comparison => (left, comparison, right)
  | _ => none

/-- The labels that jumps and tests in a tree name. -/
def referencedLabels (program : Node) : NameSet :=
  let jumps := program.walk.filter fun node =>
    (node.kind == .goto || node.kind == .ifGoto) && node.value != ""
  Std.ExtTreeSet.ofList (jumps.map (·.value))

end Node

end Lift6502
