import Lift6502.Proofs.Tree.Bare

/-!
# Which labels are placed

A label waits for a node at its address. As labels are placed in one walk, those that found a node
are exactly those whose address is the site of some node, and the others are left. So whether a
label is defined depends on the addresses of the nodes alone, not on their order.
-/

namespace Lift6502.Node

/-- The address at which a label would be put on a node. -/
def site? (node : Node) : Option Address := if node.kind.carriesLabel then node.address else none

/-- The addresses at which labels would be put on nodes of several trees. -/
def sites (nodes : List Node) : List Address := (walkAll nodes).filterMap site?

/-- The labels that nodes of several trees carry. -/
def labels (nodes : List Node) : List String := (walkAll nodes).filterMap (·.label)

theorem sites_nil : sites [] = [] := by
  rw [sites, walkAll_nil, List.filterMap_nil]

theorem sites_append (left right : List Node) :
    sites (left ++ right) = sites left ++ sites right := by
  rw [sites, walkAll_append, List.filterMap_append, sites, sites]

theorem sites_cons (node : Node) (nodes : List Node) :
    sites (node :: nodes) = node.site?.toList ++ sites node.children ++ sites nodes := by
  rw [sites, walkAll_cons, walk_eq, List.filterMap_append, List.filterMap_cons, sites, sites]
  cases node.site? <;> rfl

theorem sites_singleton (node : Node) :
    sites [node] = node.site?.toList ++ sites node.children := by
  rw [sites_cons, sites_nil, List.append_nil]

theorem sites_of_leaves {nodes : List Node} (h : ∀ node ∈ nodes, node.children = []) :
    sites nodes = nodes.filterMap site? := by
  rw [sites, walkAll_of_leaves h]

theorem sites_flatMap {α : Type} (elements : List α) (nodes : α → List Node) :
    sites (elements.flatMap nodes) = elements.flatMap fun element => sites (nodes element) := by
  induction elements with
  | nil => rw [List.flatMap_nil, sites_nil, List.flatMap_nil]
  | cons element elements ih => rw [List.flatMap_cons, sites_append, ih, List.flatMap_cons]

theorem site?_bare (node : Node) : node.bare.site? = node.site? := by
  rw [site?, bare_kind, bare_address, site?]

theorem sites_map_bare (nodes : List Node) : sites (nodes.map bare) = sites nodes := by
  have hwalk : walkAll (nodes.map bare) = (walkAll nodes).map bare := by
    rw [walkAll_eq_flatMap, walkAll_eq_flatMap, List.flatMap_map, List.map_flatMap]
    exact List.flatMap_congr fun node _ => walk_bare node
  rw [sites, hwalk, List.filterMap_map, sites]
  exact List.filterMap_congr fun node _ => site?_bare node

theorem labels_cons (node : Node) (nodes : List Node) :
    labels (node :: nodes) = node.label.toList ++ labels node.children ++ labels nodes := by
  rw [labels, walkAll_cons, walk_eq, List.filterMap_append, List.filterMap_cons, labels, labels]
  cases node.label <;> rfl

theorem labels_nil : labels [] = [] := by
  rw [labels, walkAll_nil, List.filterMap_nil]

theorem labels_singleton (node : Node) :
    labels [node] = node.label.toList ++ labels node.children := by
  rw [labels_cons, labels_nil, List.append_nil]

theorem mem_labels {nodes : List Node} {name : String} :
    name ∈ labels nodes ↔ ∃ node ∈ walkAll nodes, node.label = some name :=
  List.mem_filterMap

theorem labels_singleton_of_mem {nodes : List Node} (h : labels nodes = []) {node : Node}
    (hnode : node ∈ nodes) : labels [node] = [] := by
  rw [labels, List.filterMap_eq_nil_iff] at h ⊢
  intro part hpart
  rw [walkAll_cons, walkAll_nil, List.append_nil] at hpart
  exact h part (mem_walkAll.mpr ⟨node, hnode, hpart⟩)

/-! ### Placing labels -/

/-- Of the labels that waited, those at some addresses were placed and the others are left. -/
structure Placement (before after : AddressMap String) (addresses : List Address)
    (names : List String) : Prop where
  left : ∀ address : Address, after[address]? = if address ∈ addresses then none
    else before[address]?
  placed : ∀ name, name ∈ names ↔ ∃ address ∈ addresses, before[address]? = some name

namespace Placement

theorem nil (pending : AddressMap String) : Placement pending pending [] [] where
  left := by simp
  placed := by simp

theorem append {before middle after : AddressMap String} {first second : List Address}
    {names others : List String} (h : Placement before middle first names)
    (hrest : Placement middle after second others) :
    Placement before after (first ++ second) (names ++ others) where
  left address := by
    rw [hrest.left, h.left]
    by_cases hfirst : address ∈ first <;> by_cases hsecond : address ∈ second
      <;> simp [hfirst, hsecond]
  placed name := by
    rw [List.mem_append, h.placed, hrest.placed]
    constructor
    · rintro (⟨address, haddress, hname⟩ | ⟨address, haddress, hname⟩)
      · exact ⟨address, List.mem_append_left _ haddress, hname⟩
      · rw [h.left] at hname
        split at hname
        · cases hname
        · exact ⟨address, List.mem_append_right _ haddress, hname⟩
    · rintro ⟨address, haddress, hname⟩
      by_cases hfirst : address ∈ first
      · exact Or.inl ⟨address, hfirst, hname⟩
      · refine Or.inr ⟨address, (List.mem_append.mp haddress).resolve_left hfirst, ?_⟩
        rw [h.left, if_neg hfirst, hname]

end Placement

/-- A node takes the label that waits at its site. -/
theorem placement_self (pending : AddressMap String) {node : Node} (hlabel : node.label = none) :
    Placement pending (node.pendingBelow pending) node.site?.toList
      (node.placedLabel pending).toList := by
  have hwaiting : waitingLabel? pending node.kind node.address
      = node.site?.bind fun address => pending[address]?.map fun name => (address, name) := by
    rw [waitingLabel?, site?]
    split <;> rfl
  rw [pendingBelow, placedLabel, hwaiting]
  cases hsite : node.site? with
  | none => simpa [hlabel] using Placement.nil pending
  | some site =>
    cases hname : pending[site]? with
    | none =>
      simp only [Option.bind_some, hname, Option.map_none, hlabel]
      refine ⟨fun address => ?_, by simp [hname]⟩
      split
      · simp_all
      · rfl
    | some name =>
      simp only [Option.bind_some, hname, Option.map_some]
      refine ⟨fun address => ?_, by simp [hname, eq_comm]⟩
      have hsame : compare site address = .eq ↔ address ∈ [site] := by
        rw [List.mem_singleton, Std.LawfulEqCmp.compare_eq_iff_eq, eq_comm]
      rw [Std.ExtTreeMap.getElem?_erase, Option.toList_some]
      simp only [hsame]

theorem placement_placeLabelsAll {nodes : List Node}
    (h : ∀ node ∈ nodes, ∀ pending,
      Placement pending (node.placeLabels pending).2 (sites [node])
      (labels [(node.placeLabels pending).1]))
    (pending : AddressMap String) :
    Placement pending (placeLabelsAll pending nodes).2 (sites nodes)
      (labels (placeLabelsAll pending nodes).1) := by
  induction nodes generalizing pending with
  | nil =>
    rw [placeLabelsAll, sites_nil, labels_nil]
    exact Placement.nil pending
  | cons node nodes ih =>
    obtain ⟨hnode, hnodes⟩ := List.forall_mem_cons.mp h
    have hboth := (hnode pending).append (ih hnodes (node.placeLabels pending).2)
    rw [sites_singleton, labels_singleton] at hboth
    rw [placeLabelsAll_cons, sites_cons, labels_cons]
    exact hboth

/-- The walk through a tree without labels places exactly the labels that wait at its sites. -/
theorem placement_placeLabels (pending : AddressMap String) {node : Node} (h : labels [node] = []) :
    Placement pending (node.placeLabels pending).2 (sites [node])
      (labels [(node.placeLabels pending).1]) := by
  induction node using induction generalizing pending with
  | step node ih =>
    rw [labels_singleton, List.append_eq_nil_iff, Option.toList_eq_nil_iff] at h
    obtain ⟨hlabel, hchildren⟩ := h
    have hbelow := placement_placeLabelsAll
      (fun child hchild pending => ih child hchild pending
        (labels_singleton_of_mem hchildren hchild))
      (node.pendingBelow pending)
    rw [placeLabels_eq, sites_singleton, labels_singleton]
    exact (placement_self pending hlabel).append hbelow

end Lift6502.Node
