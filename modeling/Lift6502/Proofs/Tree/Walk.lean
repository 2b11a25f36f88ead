import Lift6502.Tree.Node

/-!
# Walking a tree

A node is walked before its children, and several trees one after the other. What holds of a node as
soon as it holds of its children holds of every node.
-/

namespace Lift6502.Node

theorem walk_eq (node : Node) : node.walk = node :: walkAll node.children := by
  cases node
  rw [walk]

theorem walkAll_nil : walkAll [] = [] := by
  rw [walkAll]

theorem walkAll_cons (node : Node) (nodes : List Node) :
    walkAll (node :: nodes) = node.walk ++ walkAll nodes := by
  rw [walkAll]

theorem walkAll_eq_flatMap (nodes : List Node) : walkAll nodes = nodes.flatMap walk := by
  induction nodes with
  | nil => rw [walkAll_nil, List.flatMap_nil]
  | cons node nodes ih => rw [walkAll_cons, ih, List.flatMap_cons]

theorem walkAll_append (left right : List Node) :
    walkAll (left ++ right) = walkAll left ++ walkAll right := by
  rw [walkAll_eq_flatMap, walkAll_eq_flatMap, walkAll_eq_flatMap, List.flatMap_append]

theorem mem_walkAll {nodes : List Node} {node : Node} :
    node ∈ walkAll nodes ↔ ∃ root ∈ nodes, node ∈ root.walk := by
  rw [walkAll_eq_flatMap, List.mem_flatMap]

theorem mem_walk_self (node : Node) : node ∈ node.walk := by
  rw [walk_eq]
  exact List.mem_cons_self

/-- Trees without children are walked as they are. -/
theorem walkAll_of_leaves {nodes : List Node} (h : ∀ node ∈ nodes, node.children = []) :
    walkAll nodes = nodes := by
  induction nodes with
  | nil => exact walkAll_nil
  | cons node nodes ih =>
    obtain ⟨hnode, hnodes⟩ := List.forall_mem_cons.mp h
    rw [walkAll_cons, walk_eq, hnode, walkAll_nil, ih hnodes]
    rfl

theorem sizeOf_lt_of_mem_children {node child : Node} (h : child ∈ node.children) :
    sizeOf child < sizeOf node := by
  obtain ⟨kind, children, value, label, params, address⟩ := node
  have hlist : sizeOf child < sizeOf children := List.sizeOf_lt_of_mem h
  simp only [mk.sizeOf_spec]
  omega

/-- What holds of a node as soon as it holds of its children holds of every node. -/
@[elab_as_elim]
theorem induction {motive : Node → Prop}
    (step : ∀ node, (∀ child ∈ node.children, motive child) → motive node) (node : Node) :
    motive node :=
  step node fun child _ => induction step child
termination_by node
decreasing_by exact sizeOf_lt_of_mem_children ‹_›

theorem walk_subset_of_mem {root node : Node} (h : node ∈ root.walk) : node.walk ⊆ root.walk := by
  induction root using induction with
  | step root ih =>
    rw [walk_eq root] at h ⊢
    rcases List.mem_cons.mp h with rfl | hbelow
    · rw [← walk_eq]
      exact List.Subset.refl _
    · obtain ⟨child, hchild, hnode⟩ := mem_walkAll.mp hbelow
      intro part hpart
      exact List.mem_cons_of_mem _ (mem_walkAll.mpr ⟨child, hchild, ih child hchild hnode hpart⟩)

theorem mem_walk_of_mem_children {root node child : Node} (h : node ∈ root.walk)
    (hchild : child ∈ node.children) : child ∈ root.walk := by
  refine walk_subset_of_mem h ?_
  rw [walk_eq]
  exact List.mem_cons_of_mem _ (mem_walkAll.mpr ⟨child, hchild, mem_walk_self child⟩)

end Lift6502.Node
