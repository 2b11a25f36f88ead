import Lift6502.Proofs.Tree.Walk
import Lift6502.Routine.Build
import Mathlib.Data.List.Basic

/-!
# Trees without names

Placing labels and making returns end the program change what nodes are called, never what they are:
kinds, parameters, addresses and the shape of the tree stay. A tree without values and labels is
what both leave alone.
-/

namespace Lift6502.Node

mutual

/-- A tree without values and labels. -/
def bare : Node → Node
  | ⟨kind, children, _, _, params, address⟩ => ⟨kind, bareAll children, "", none, params, address⟩

/-- Several trees without values and labels. -/
def bareAll : List Node → List Node
  | [] => []
  | node :: nodes => node.bare :: bareAll nodes

end

theorem bareAll_eq_map (nodes : List Node) : bareAll nodes = nodes.map bare := by
  induction nodes with
  | nil => rw [bareAll, List.map_nil]
  | cons node nodes ih => rw [bareAll, ih, List.map_cons]

theorem bare_eq (node : Node) :
    node.bare = { node with children := node.children.map bare, value := "", label := none } := by
  cases node
  rw [bare, bareAll_eq_map]

@[simp]
theorem bare_kind (node : Node) : node.bare.kind = node.kind := by
  rw [bare_eq]

@[simp]
theorem bare_children (node : Node) : node.bare.children = node.children.map bare := by
  rw [bare_eq]

@[simp]
theorem bare_params (node : Node) : node.bare.params = node.params := by
  rw [bare_eq]

@[simp]
theorem bare_address (node : Node) : node.bare.address = node.address := by
  rw [bare_eq]

theorem bare_congr {node other : Node} (hkind : node.kind = other.kind)
    (hparams : node.params = other.params) (haddress : node.address = other.address)
    (hchildren : node.children.map bare = other.children.map bare) : node.bare = other.bare := by
  rw [bare_eq, bare_eq other, hchildren, hkind, hparams, haddress]

theorem walk_bare (node : Node) : node.bare.walk = node.walk.map bare := by
  induction node using induction with
  | step node ih =>
    rw [walk_eq, walk_eq node, List.map_cons, walkAll_eq_flatMap, walkAll_eq_flatMap, bare_children,
      List.flatMap_map, List.map_flatMap, List.flatMap_congr ih]

/-! ### Ends of programs -/

theorem endProgramAll_eq_map (nodes : List Node) : endProgramAll nodes = nodes.map endProgram := by
  induction nodes with
  | nil => rw [endProgramAll, List.map_nil]
  | cons node nodes ih => rw [endProgramAll, ih, List.map_cons]

theorem endProgram_eq (node : Node) :
    node.endProgram = { node with
      children := node.children.map endProgram
      value := if node.kind = .leave && node.value = "" then "exit" else node.value } := by
  cases node
  rw [endProgram, endProgramAll_eq_map]

theorem bare_endProgram (node : Node) : node.endProgram.bare = node.bare := by
  induction node using induction with
  | step node ih =>
    rw [endProgram_eq]
    refine bare_congr rfl rfl rfl ?_
    rw [List.map_map]
    exact List.map_congr_left ih

/-! ### Labels -/

theorem placeLabelsAll_cons (pending : AddressMap String) (node : Node) (nodes : List Node) :
    placeLabelsAll pending (node :: nodes)
      = ((node.placeLabels pending).1 :: (placeLabelsAll (node.placeLabels pending).2 nodes).1,
        (placeLabelsAll (node.placeLabels pending).2 nodes).2) := by
  rw [placeLabelsAll]

/-- The labels that are left for the nodes below a node. -/
def pendingBelow (pending : AddressMap String) (node : Node) : AddressMap String :=
  match waitingLabel? pending node.kind node.address with
  | some (address, _) => pending.erase address
  | none => pending

/-- The label that a node has once labels are placed. -/
def placedLabel (pending : AddressMap String) (node : Node) : Option String :=
  match waitingLabel? pending node.kind node.address with
  | some (_, name) => some name
  | none => node.label

theorem placeLabels_eq (pending : AddressMap String) (node : Node) :
    node.placeLabels pending
      = ({ node with
          children := (placeLabelsAll (node.pendingBelow pending) node.children).1
          label := node.placedLabel pending },
        (placeLabelsAll (node.pendingBelow pending) node.children).2) := by
  obtain ⟨kind, children, value, label, params, address⟩ := node
  rw [placeLabels]
  cases hwaiting : waitingLabel? pending kind address with
  | none => simp only [pendingBelow, placedLabel, hwaiting]
  | some found => simp only [pendingBelow, placedLabel, hwaiting]

theorem map_bare_placeLabelsAll {nodes : List Node}
    (h : ∀ node ∈ nodes, ∀ pending, (node.placeLabels pending).1.bare = node.bare)
    (pending : AddressMap String) : (placeLabelsAll pending nodes).1.map bare = nodes.map bare := by
  induction nodes generalizing pending with
  | nil => rw [placeLabelsAll]
  | cons node nodes ih =>
    obtain ⟨hnode, hnodes⟩ := List.forall_mem_cons.mp h
    rw [placeLabelsAll_cons, List.map_cons, List.map_cons, hnode, ih hnodes]

theorem bare_placeLabels (pending : AddressMap String) (node : Node) :
    (node.placeLabels pending).1.bare = node.bare := by
  induction node using induction generalizing pending with
  | step node ih =>
    rw [placeLabels_eq]
    exact bare_congr rfl rfl rfl (map_bare_placeLabelsAll ih _)

/-! ### Nodes one by one -/

/-- A node without its label and without what is below it. -/
def alone (node : Node) : Node := { node with children := [], label := none }

theorem of_alone_eq {node other : Node} (h : node.alone = other.alone) :
    node.kind = other.kind ∧ node.value = other.value ∧ node.params = other.params ∧
      node.address = other.address := by
  have hkind := congrArg kind h
  have hvalue := congrArg value h
  have hparams := congrArg params h
  have haddress := congrArg address h
  exact ⟨hkind, hvalue, hparams, haddress⟩

theorem alone_eq_self {node : Node} (hleaf : node.children = []) (hlabel : node.label = none) :
    node.alone = node := by
  obtain ⟨kind, children, value, label, params, address⟩ := node
  cases hleaf
  cases hlabel
  rfl

theorem alone_endProgram (node : Node) : node.endProgram.alone = node.alone.endProgram := by
  rw [endProgram_eq, endProgram_eq]
  rfl

/-- Making returns end the program changes each node by itself. -/
theorem map_alone_walk_endProgram (node : Node) :
    node.endProgram.walk.map alone = (node.walk.map alone).map endProgram := by
  induction node using induction with
  | step node ih =>
    have hchildren : (walkAll (node.children.map endProgram)).map alone
        = ((walkAll node.children).map alone).map endProgram := by
      rw [walkAll_eq_flatMap, walkAll_eq_flatMap, List.map_flatMap, List.map_flatMap,
        List.map_flatMap, List.flatMap_map, List.flatMap_congr ih]
    rw [walk_eq, walk_eq node, List.map_cons, List.map_cons, List.map_cons, alone_endProgram,
      ← hchildren]
    nth_rewrite 2 [endProgram_eq]
    rfl

theorem map_walk_placeLabelsAll {nodes : List Node}
    (h : ∀ node ∈ nodes, ∀ pending, (node.placeLabels pending).1.walk.map alone
      = node.walk.map alone)
    (pending : AddressMap String) :
    (placeLabelsAll pending nodes).1.map (fun node => node.walk.map alone) = nodes.map fun node =>
      node.walk.map alone := by
  induction nodes generalizing pending with
  | nil => rw [placeLabelsAll]
  | cons node nodes ih =>
    obtain ⟨hnode, hnodes⟩ := List.forall_mem_cons.mp h
    rw [placeLabelsAll_cons, List.map_cons, List.map_cons, hnode, ih hnodes]

/-- Placing labels changes nothing else about any node. -/
theorem map_alone_walk_placeLabels (pending : AddressMap String) (node : Node) :
    (node.placeLabels pending).1.walk.map alone = node.walk.map alone := by
  induction node using induction generalizing pending with
  | step node ih =>
    have hchildren := congrArg List.flatten (map_walk_placeLabelsAll ih (node.pendingBelow pending))
    rw [← List.flatMap_def, ← List.flatMap_def, ← List.map_flatMap, ← List.map_flatMap,
      ← walkAll_eq_flatMap, ← walkAll_eq_flatMap] at hchildren
    rw [placeLabels_eq, walk_eq, walk_eq node, List.map_cons, List.map_cons, hchildren]
    rfl

end Lift6502.Node
