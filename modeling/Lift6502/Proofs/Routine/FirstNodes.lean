import Lift6502.Proofs.Routine.Programs

/-!
# The first node at an address

Labels are taken by the nodes in document order, and a label that was taken waits no longer. So a
node carries a label exactly if one waits for its address and no node before it was built from
there. Loops repeat the statements of their header and share the address of their first statement
with it; the label is still on one node only.
-/

namespace Lift6502.Node

theorem sites_placeLabelsAll (pending : AddressMap String) (nodes : List Node) :
    sites (placeLabelsAll pending nodes).1 = sites nodes := by
  rw [← sites_map_bare, map_bare_placeLabelsAll fun node _ pending => bare_placeLabels pending node,
    sites_map_bare]

theorem filterMap_site?_singleton (node : Node) : [node].filterMap site? = node.site?.toList := by
  rw [List.filterMap_cons]
  cases node.site? <;> rfl

/-- Whether nodes in document order carry the labels that waited: each is on the first node with its
address as a site, and no node has another one. -/
def CarryFirst (pending : AddressMap String) (nodes : List Node) : Prop :=
  ∀ before node after, nodes = before ++ node :: after → ∀ name,
    node.label = some name ↔
      ∃ address, node.site? = some address ∧ address ∉ before.filterMap site? ∧
      pending[address]? = some name

namespace CarryFirst

theorem nil (pending : AddressMap String) : CarryFirst pending [] := by
  intro before node after hsplit
  cases before <;> cases hsplit

theorem append {pending rest : AddressMap String} {first second : List Node}
    (h : CarryFirst pending first)
    (hleft : ∀ address : Address,
      rest[address]? = if address ∈ first.filterMap site? then none else pending[address]?)
    (hrest : CarryFirst rest second) : CarryFirst pending (first ++ second) := by
  intro before node after hsplit name
  have hbehind (between : List Node) (hsecond : second = between ++ node :: after) :
      node.label = some name ↔ ∃ address, node.site? = some address ∧
        address ∉ (first ++ between).filterMap site? ∧ pending[address]? = some name := by
    rw [hrest between node after hsecond]
    simp only [hleft, List.filterMap_append, List.mem_append, not_or]
    grind
  rcases List.append_eq_append_iff.mp hsplit with ⟨between, rfl, hsecond⟩ | ⟨between, hfirst, hcons⟩
  · exact hbehind between hsecond
  · cases between with
    | nil =>
      rw [List.append_nil] at hfirst
      subst hfirst
      simpa using hbehind [] hcons.symm
    | cons other between =>
      obtain ⟨rfl, rfl⟩ := List.cons.inj hcons
      exact h before node between hfirst name

end CarryFirst

theorem carryFirst_self (pending : AddressMap String) {node placed : Node}
    (hlabel : node.label = none) (hplaced : placed.label = node.placedLabel pending)
    (hsite : placed.site? = node.site?) : CarryFirst pending [placed] := by
  intro before other after hsplit name
  obtain ⟨rfl, rfl, rfl⟩ : before = [] ∧ other = placed ∧ after = [] := by
    cases before with
    | nil =>
      obtain ⟨rfl, rfl⟩ := List.cons.inj hsplit
      exact ⟨rfl, rfl, rfl⟩
    | cons first before => simp at hsplit
  have hself := (placement_self pending hlabel).placed name
  rw [hplaced, hsite, ← Option.mem_toList, hself]
  simp

theorem carryFirst_placeLabelsAll {nodes : List Node} (hlabels : labels nodes = [])
    (h : ∀ node ∈ nodes, ∀ pending, CarryFirst pending (node.placeLabels pending).1.walk)
    (pending : AddressMap String) :
    CarryFirst pending (walkAll (placeLabelsAll pending nodes).1) := by
  induction nodes generalizing pending with
  | nil =>
    rw [placeLabelsAll, walkAll_nil]
    exact CarryFirst.nil pending
  | cons node nodes ih =>
    obtain ⟨hnode, hnodes⟩ := List.forall_mem_cons.mp h
    have hown := labels_singleton_of_mem hlabels List.mem_cons_self
    rw [labels_cons, List.append_eq_nil_iff] at hlabels
    rw [placeLabelsAll_cons, walkAll_cons]
    refine (hnode pending).append ?_ (ih hlabels.2 hnodes _)
    have hleft := (placement_placeLabels pending hown).left
    have hsites : (node.placeLabels pending).1.walk.filterMap site? = sites [node] := by
      have hplaced := sites_placeLabelsAll pending [node]
      rw [placeLabelsAll_cons, placeLabelsAll] at hplaced
      rw [← hplaced, sites, walkAll_cons, walkAll_nil, List.append_nil]
    rw [hsites]
    exact hleft

theorem carryFirst_placeLabels (pending : AddressMap String) {node : Node}
    (h : labels [node] = []) : CarryFirst pending (node.placeLabels pending).1.walk := by
  induction node using induction generalizing pending with
  | step node ih =>
    rw [labels_singleton, List.append_eq_nil_iff, Option.toList_eq_nil_iff] at h
    obtain ⟨hlabel, hchildren⟩ := h
    have hbelow := carryFirst_placeLabelsAll hchildren
      (fun child hchild pending => ih child hchild pending
        (labels_singleton_of_mem hchildren hchild))
      (node.pendingBelow pending)
    rw [placeLabels_eq, walk_eq, ← List.singleton_append]
    refine CarryFirst.append (carryFirst_self pending hlabel rfl rfl) ?_ hbelow
    intro address
    rw [(placement_self pending hlabel).left, filterMap_site?_singleton]
    rfl

theorem CarryFirst.site?_eq_address {pending : AddressMap String} {nodes before after : List Node}
    {node : Node} (h : CarryFirst pending nodes) (hsplit : nodes = before ++ node :: after)
    (hlabel : node.label.isSome = true) :
    ∃ address, node.site? = some address ∧ node.address = some address ∧
      address ∉ before.filterMap site? := by
  obtain ⟨name, hname⟩ := Option.isSome_iff_exists.mp hlabel
  obtain ⟨address, hsite, hfirst, -⟩ := (h before node after hsplit name).mp hname
  refine ⟨address, hsite, ?_, hfirst⟩
  rw [site?] at hsite
  split at hsite
  · exact hsite
  · cases hsite

/-- No two nodes carry labels for one address. -/
theorem CarryFirst.pairwise_address_ne {pending : AddressMap String} {nodes : List Node}
    (h : CarryFirst pending nodes) :
    (nodes.filter fun node => node.label.isSome).Pairwise fun left right =>
      left.address ≠ right.address := by
  induction nodes using List.reverseRecOn with
  | nil => exact List.Pairwise.nil
  | append_singleton front last ih =>
    have hfront : CarryFirst pending front := by
      intro before node after hsplit
      refine h before node (after ++ [last]) ?_
      rw [hsplit, List.append_assoc, List.cons_append]
    rw [List.filter_append, List.pairwise_append]
    refine ⟨ih hfront, (List.pairwise_singleton _ last).filter _, ?_⟩
    intro left hleft right hright haddress
    obtain ⟨hleft, hleftLabel⟩ := List.mem_filter.mp hleft
    obtain ⟨hright, hrightLabel⟩ := List.mem_filter.mp hright
    obtain rfl := List.mem_singleton.mp hright
    obtain ⟨before, after, hsplit⟩ := List.append_of_mem hleft
    obtain ⟨leftAddress, hsite, hleftAddress, -⟩ := hfront.site?_eq_address hsplit hleftLabel
    obtain ⟨rightAddress, -, hrightAddress, hfirst⟩ := h.site?_eq_address rfl hrightLabel
    apply hfirst
    rw [hleftAddress, hrightAddress] at haddress
    obtain rfl := Option.some.inj haddress
    exact List.mem_filterMap.mpr ⟨left, hleft, hsite⟩

end Lift6502.Node

namespace Lift6502.Program

theorem carryFirst_build (symbols : SymbolTable) (blocks : List Block) :
    Node.CarryFirst (labelTargets symbols blocks) (build symbols blocks).root.walk :=
  Node.carryFirst_placeLabels _ (labels_unlabelled symbols blocks)

end Lift6502.Program

