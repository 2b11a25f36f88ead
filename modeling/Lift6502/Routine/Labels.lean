import Lift6502.Tree.Node

/-!
# Labels on nodes

A label goes to the first node, in document order, that was built from its address. The program itself
and its routines carry none.
-/

namespace Lift6502

/-- Whether nodes of a kind may carry a label. -/
def NodeKind.carriesLabel (kind : NodeKind) : Bool := kind != .program && kind != .function

namespace Node

/-- The label that waits for a node of a kind at an address. -/
def waitingLabel? (pending : AddressMap String) (kind : NodeKind) (address : Option Address) :
    Option (Address × String) :=
  if kind.carriesLabel then
    address.bind fun address => pending[address]?.map fun name => (address, name)
  else none

mutual

/-- Puts each label on the first node with its address, and returns the labels that are left. -/
def placeLabels (pending : AddressMap String) : Node → Node × AddressMap String
  | ⟨kind, children, value, label, params, address⟩ =>
    let (label, pending) := match waitingLabel? pending kind address with
      | some (address, name) => (some name, pending.erase address)
      | none => (label, pending)
    let (children, pending) := placeLabelsAll pending children
    (⟨kind, children, value, label, params, address⟩, pending)

/-- Puts labels on several trees, in document order. -/
def placeLabelsAll (pending : AddressMap String) : List Node → List Node × AddressMap String
  | [] => ([], pending)
  | node :: nodes =>
    let (node, pending) := node.placeLabels pending
    let (nodes, pending) := placeLabelsAll pending nodes
    (node :: nodes, pending)

end

end Node

end Lift6502
