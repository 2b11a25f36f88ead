import Lift6502.Proofs.Tree.Walk
import Lift6502.Routine.Structured

/-!
# Statements are leaves

The node for a single instruction has a kind of its own, no children and no label, and it carries
the address of its instruction. In a tree these nodes are told from the nodes that a shape adds by
their kind and by that address: the jump inside a case has the kind of a statement, but no address.
-/

namespace Lift6502

/-- Whether nodes of a kind stand for single instructions. -/
def NodeKind.isStatement : NodeKind → Bool
  | subCall | romCall | goto | leave | assign | expr | raw => true
  | _ => false

namespace Node

/-- A node of the form that single instructions have. -/
structure IsStatement (node : Node) : Prop where
  kind : node.kind.isStatement = true
  leaf : node.children = []
  unlabelled : node.label = none

/-- Whether a node was built from a single instruction. -/
def isOwn (node : Node) : Bool := node.kind.isStatement && node.address.isSome

/-- The nodes in several trees that were built from single instructions, in document order. -/
def own (nodes : List Node) : List Node := (walkAll nodes).filter isOwn

theorem own_append (left right : List Node) : own (left ++ right) = own left ++ own right := by
  rw [own, walkAll_append, List.filter_append, own, own]

theorem own_cons (node : Node) (nodes : List Node) :
    own (node :: nodes) = [node].filter isOwn ++ own node.children ++ own nodes := by
  rw [own, walkAll_cons, walk_eq, List.filter_append, ← List.singleton_append, List.filter_append,
    own, own]

theorem own_flatMap {α : Type} (elements : List α) (nodes : α → List Node) :
    own (elements.flatMap nodes) = elements.flatMap fun element => own (nodes element) := by
  induction elements with
  | nil => rw [List.flatMap_nil, own, walkAll_nil, List.filter_nil, List.flatMap_nil]
  | cons element elements ih => rw [List.flatMap_cons, own_append, ih, List.flatMap_cons]

/-- A node that no instruction became gives way to its children. -/
theorem own_singleton {node : Node} (h : node.isOwn = false) : own [node] = own node.children := by
  rw [own_cons, own, own, walkAll_nil]
  simp [h]

theorem own_of_leaves {nodes : List Node} (h : ∀ node ∈ nodes, node.children = []) :
    own nodes = nodes.filter isOwn := by
  rw [own, walkAll_of_leaves h]

/-- Statements that carry the addresses of their instructions are all there is in them. -/
theorem own_map_of_isStatement {make : Instruction → Node} (hmake : ∀ i, (make i).IsStatement)
    (haddress : ∀ i, (make i).address = some i.address) (instructions : List Instruction) :
    own (instructions.map make) = instructions.map make := by
  rw [own_of_leaves, List.filter_eq_self]
  · intro node hnode
    obtain ⟨i, _, rfl⟩ := List.mem_map.mp hnode
    rw [isOwn, (hmake i).kind, haddress]
    rfl
  · intro node hnode
    obtain ⟨i, _, rfl⟩ := List.mem_map.mp hnode
    exact (hmake i).leaf

end Node

namespace Statement

theorem call?_isStatement {symbols : SymbolTable} {operand : Operand} {node : Node}
    (h : call? symbols operand = some node) : node.IsStatement := by
  unfold call? at h
  split at h
  · split at h
    · obtain rfl := Option.some.inj h
      exact ⟨rfl, rfl, rfl⟩
    · obtain ⟨name, _, rfl⟩ := Option.map_eq_some_iff.mp h
      exact ⟨rfl, rfl, rfl⟩
  · obtain ⟨name, _, rfl⟩ := Option.map_eq_some_iff.mp h
    exact ⟨rfl, rfl, rfl⟩

theorem implied?_isStatement {mnemonic : Mnemonic} {node : Node}
    (h : implied? mnemonic = some node) : node.IsStatement := by
  unfold implied? at h
  split at h
  case h_3 =>
    split at h
    case h_3 => cases h
    all_goals
      obtain rfl := Option.some.inj h
      exact ⟨rfl, rfl, rfl⟩
  all_goals
    obtain rfl := Option.some.inj h
    exact ⟨rfl, rfl, rfl⟩

/-- Whatever rule applies to an operation, it makes a statement. -/
theorem rule?_isStatement {symbols : SymbolTable} {operation : Operation} {node : Node}
    (h : rule? symbols operation = some node) : node.IsStatement := by
  have hmap {α : Type} {operand : Option α} {make : α → Node}
      (hmake : ∀ text, (make text).IsStatement)
      (h : operand.map make = some node) : node.IsStatement := by
    obtain ⟨text, _, rfl⟩ := Option.map_eq_some_iff.mp h
    exact hmake text
  simp only [rule?] at h
  split at h
  case h_17 => exact call?_isStatement h
  case h_19 =>
    split at h
    · exact hmap (fun _ => ⟨rfl, rfl, rfl⟩) h
    · exact hmap (fun _ => ⟨rfl, rfl, rfl⟩) h
    · split at h
      · exact implied?_isStatement h
      · cases h
  all_goals exact hmap (fun _ => ⟨rfl, rfl, rfl⟩) h

theorem ofInstruction_isStatement (symbols : SymbolTable) (instruction : Instruction) :
    (ofInstruction symbols instruction).IsStatement := by
  have hstatement : ((rule? symbols instruction.toOperation).getD
      { kind := .raw, value := instruction.toOperation.text }).IsStatement := by
    cases hrule : rule? symbols instruction.toOperation with
    | none => exact ⟨rfl, rfl, rfl⟩
    | some node => exact rule?_isStatement hrule
  exact ⟨hstatement.kind, hstatement.leaf, hstatement.unlabelled⟩

theorem ofInstruction_address (symbols : SymbolTable) (instruction : Instruction) :
    (ofInstruction symbols instruction).address = some instruction.address :=
  rfl

theorem own_map_ofInstruction (symbols : SymbolTable) (instructions : List Instruction) :
    Node.own (instructions.map (ofInstruction symbols))
      = instructions.map (ofInstruction symbols) :=
  Node.own_map_of_isStatement (ofInstruction_isStatement symbols) (ofInstruction_address symbols)
    instructions

end Statement

end Lift6502
