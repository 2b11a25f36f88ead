import Lift6502.Proofs.Dialect.Labels
import Lift6502.Proofs.Symbol.Targets

/-!
# The routines of a program

A routine is opened at the first block of a listing and at every later block that is called, and
nowhere else. Behind the routines come the templates, one for each match of repeated code. What the
routines are called and where they start is one list here, which the tree has in document order.
-/

namespace Lift6502

section SplitBy

variable {α : Type} {opens : α → Bool} {elements : List α} {group : List α}

/-- Where a list is split in front of some of its elements, only the first element of a group can be
one of those. -/
theorem exists_cons_of_mem_splitBy (h : group ∈ elements.splitBy fun _ next => !opens next) :
    ∃ head tail, group = head :: tail ∧ ∀ element ∈ tail, opens element = false := by
  obtain ⟨-, hnonempty, hinside, -⟩ :=
    List.splitBy_eq_iff.mp (Eq.refl (elements.splitBy fun _ next => !opens next))
  obtain ⟨head, tail, rfl⟩ := List.exists_cons_of_ne_nil (ne_of_mem_of_not_mem h hnonempty)
  refine ⟨head, tail, rfl, fun element helement => ?_⟩
  -- The relation looks at the second element only, so it is transitive and a chain is pairwise
  -- related.
  have : Trans (fun _ next : α => (!opens next) = true) (fun _ next => (!opens next) = true)
    (fun _ next => (!opens next) = true) := ⟨fun _ h => h⟩
  simpa using List.rel_of_pairwise_cons (List.isChain_iff_pairwise.mp (hinside _ h)) helement

/-- Every group but the first starts with such an element. -/
theorem exists_cons_of_mem_tail_splitBy
    (h : group ∈ (elements.splitBy fun _ next => !opens next).tail) :
    ∃ head tail, group = head :: tail ∧ opens head = true := by
  obtain ⟨-, -, -, hbetween⟩ :=
    List.splitBy_eq_iff.mp (Eq.refl (elements.splitBy fun _ next => !opens next))
  generalize (elements.splitBy fun _ next => !opens next) = groups at h hbetween
  induction groups with
  | nil => cases h
  | cons first groups ih =>
    cases groups with
    | nil => cases h
    | cons next groups =>
      obtain ⟨⟨hlast, hhead, hopens⟩, hrest⟩ := List.isChain_cons_cons.mp hbetween
      rcases List.mem_cons.mp h with rfl | hmem
      · obtain ⟨head, tail, rfl⟩ := List.exists_cons_of_ne_nil hhead
        exact ⟨head, tail, rfl, by simpa using hopens⟩
      · exact ih hmem hrest

theorem filter_flatten_of_heads {groups : List (List α)}
    (h : ∀ group ∈ groups, ∃ head tail, group = head :: tail ∧ opens head = true ∧
      ∀ element ∈ tail, opens element = false) :
    groups.flatten.filter opens = groups.filterMap List.head? := by
  induction groups with
  | nil => rfl
  | cons group groups ih =>
    obtain ⟨⟨head, tail, rfl, hhead, htail⟩, hgroups⟩ := List.forall_mem_cons.mp h
    have hnone : tail.filter opens = [] := by simpa [List.filter_eq_nil_iff] using htail
    rw [List.flatten_cons, List.cons_append, List.filter_cons_of_pos hhead, List.filter_append,
      hnone, ih hgroups, List.filterMap_cons_some List.head?_cons, List.nil_append]

/-- So groups start at the first element and at those. -/
theorem filterMap_head?_splitBy (opens : α → Bool) (elements : List α) :
    (elements.splitBy fun _ next => !opens next).filterMap List.head?
      = elements.head?.toList ++ elements.tail.filter opens := by
  cases hgroups : elements.splitBy fun _ next => !opens next with
  | nil =>
    rw [List.splitBy_eq_nil.mp hgroups]
    rfl
  | cons first groups =>
    have hflatten : elements = first ++ groups.flatten := by
      rw [← List.flatten_cons, ← hgroups, List.flatten_splitBy]
    have hmem : first ∈ elements.splitBy fun _ next => !opens next := hgroups ▸ List.mem_cons_self
    obtain ⟨head, tail, rfl, htail⟩ := exists_cons_of_mem_splitBy hmem
    have hnone : tail.filter opens = [] := by simpa [List.filter_eq_nil_iff] using htail
    have hheads : groups.flatten.filter opens = groups.filterMap List.head? := by
      refine filter_flatten_of_heads fun group hgroup => ?_
      have hother : group ∈ (elements.splitBy fun _ next => !opens next).tail := by rwa [hgroups]
      obtain ⟨head, tail, rfl, hhead⟩ := exists_cons_of_mem_tail_splitBy hother
      obtain ⟨_, _, heq, htail⟩ := exists_cons_of_mem_splitBy (List.mem_of_mem_tail hother)
      cases heq
      exact ⟨head, tail, rfl, hhead, htail⟩
    rw [hflatten, List.filterMap_cons_some List.head?_cons, List.cons_append, List.head?_cons,
      List.tail_cons, List.filter_append, hnone, hheads]
    rfl

end SplitBy

namespace Node

/-- The routines of a tree are the children of its root. -/
theorem IsTree.filter_function {root : Node} (h : root.IsTree) :
    root.walk.filter (·.kind == .function) = root.children := by
  have hroutines (nodes : List Node) (hnodes : ∀ node ∈ nodes, node.IsRoutine) :
      (walkAll nodes).filter (·.kind == .function) = nodes := by
    induction nodes with
    | nil => rw [walkAll_nil, List.filter_nil]
    | cons node nodes ih =>
      obtain ⟨hnode, hnodes⟩ := List.forall_mem_cons.mp hnodes
      have hbelow : (walkAll node.children).filter (·.kind == .function) = [] := by
        rw [List.filter_eq_nil_iff]
        intro part hpart
        obtain ⟨item, hitem, hpart⟩ := mem_walkAll.mp hpart
        simpa using ((hnode.items item hitem).kind_of_mem_walk part hpart).1
      rw [walkAll_cons, List.filter_append, ih hnodes, walk_eq,
        List.filter_cons_of_pos (by rw [hnode.kind]; rfl), hbelow]
      rfl
  rw [walk_eq, List.filter_cons_of_neg (by rw [h.kind]; decide)]
  exact hroutines root.children h.routines

/-- What a routine is called and where it starts. -/
def heading (node : Node) : String × Option Address := (node.value, node.address)

theorem heading_endProgram {node : Node} (h : node.kind = .function) :
    node.endProgram.heading = node.heading := by
  rw [endProgram_eq, heading, heading, h]
  rfl

theorem map_heading_placeLabelsAll (pending : AddressMap String) (nodes : List Node) :
    (placeLabelsAll pending nodes).1.map heading = nodes.map heading := by
  induction nodes generalizing pending with
  | nil => rw [placeLabelsAll]
  | cons node nodes ih =>
    rw [placeLabelsAll_cons, List.map_cons, ih, placeLabels_eq]
    rfl

end Node

/-! ### Templates -/

/-- Where the code starts that a match makes a template of. -/
def Match.templateStart? (found : Match) : Option Address :=
  if found.shape = .template then found.blocks.head?.map (·.start) else none

namespace Routine

variable (symbols : SymbolTable)

/-- A template has a name, and no address. -/
def templateHeading (start : Address) : String × Option Address := (templateName start, none)

theorem map_heading_structured (usage : Usage) (found : Match) :
    (structured symbols usage found).1.templates.map Node.heading
      = usage.templates.map Node.heading ++ found.templateStart?.toList.map templateHeading := by
  rw [structured, Match.templateStart?]
  cases hshape : found.shape
  case unrolled =>
    simp only [unrolled]
    split
    · simp
    · simp [(unrolledBody_isStatement symbols _ usage _).2]
  case template =>
    simp only [template]
    cases found.blocks <;> simp [Node.heading, templateHeading]
  case globalVariable => simp [(announce_fresh symbols usage _).2]
  all_goals simp

theorem map_heading_codeFor (usage : Usage) (matched : List Match) :
    (codeFor symbols usage matched).1.templates.map Node.heading
      = usage.templates.map Node.heading ++ (matched.filterMap
        (·.templateStart?)).map templateHeading := by
  induction matched generalizing usage with
  | nil => simp [codeFor]
  | cons found others ih =>
    rw [codeFor]
    simp only
    rw [ih, map_heading_structured, templates_foldl_note, List.append_assoc, ← List.map_append,
      List.filterMap_cons]
    cases found.templateStart? <;> rfl

/-! ### Routines -/

/-- Where the routines of a program start. -/
def entries (blocks : List Block) : List Address :=
  (blocks.head?.toList ++ blocks.tail.filter fun block =>
    symbols.subroutines.contains block.start).map (·.start)

theorem entries_eq_divide (blocks : List Block) :
    entries symbols blocks = ((divide symbols blocks).filterMap List.head?).map (·.start) := by
  rw [entries, divide, filterMap_head?_splitBy fun block : Block =>
    symbols.subroutines.contains block.start]

variable {symbols} in
/-- Routines start at the first block and at every block that is called. -/
theorem mem_entries {symbols : SymbolTable} {blocks : List Block} {entry : Address} :
    entry ∈ entries symbols blocks ↔
      (blocks.head?.map (·.start) = some entry ∨ symbols.subroutines.contains entry = true) ∧
        ∃ block ∈ blocks, block.start = entry := by
  rw [entries]
  cases blocks with
  | nil => simp
  | cons first rest =>
    simp only [List.head?_cons, Option.toList_some, List.tail_cons, List.map_append,
      List.mem_append, List.mem_map, List.mem_filter, List.mem_cons, List.not_mem_nil,
      Option.map_some, Option.some.injEq]
    grind

def routineHeading (entry : Address) : String × Option Address :=
  (if symbols.subroutines.contains entry then symbols.codeName entry else Program.mainName,
    some entry)

end Routine

namespace Program

/-- Whether routines are headed as the segments of blocks say that they were built from. -/
structure Routines.Headed (symbols : SymbolTable) (segments : List (List Block))
    (routines : Routines) : Prop where
  functions : routines.functions.map Node.heading
    = ((segments.filterMap List.head?).map (·.start)).map (Routine.routineHeading symbols)
  templates : routines.usage.templates.map Node.heading
    = ((segments.flatMap (Routine.shapes symbols)).filterMap
      (·.templateStart?)).map Routine.templateHeading

theorem headed_add {symbols : SymbolTable} {segments : List (List Block)} {routines : Routines}
    (h : routines.Headed symbols segments) (segment : List Block) :
    (routines.add symbols segment).Headed symbols (segments ++ [segment]) := by
  cases segment with
  | nil =>
    have hheads : (segments ++ [[]]).filterMap List.head? = segments.filterMap List.head? := by
      rw [List.filterMap_append]
      exact List.append_nil _
    have hshapes : (segments ++ [[]]).flatMap (Routine.shapes symbols)
        = segments.flatMap (Routine.shapes symbols) := by
      simp [Routine.shapes]
    exact ⟨by rw [hheads]; exact h.functions, by rw [hshapes]; exact h.templates⟩
  | cons first rest =>
    have hfunctions : (routines.add symbols (first :: rest)).functions.map Node.heading
        = routines.functions.map Node.heading ++ [Routine.routineHeading symbols first.start] := by
      unfold Routines.add
      simp only [Routine.routineHeading]
      split
      · rw [List.map_append]
        rfl
      · rw [List.map_append, List.map_singleton, Node.heading_endProgram rfl]
        rfl
    constructor
    · rw [hfunctions, h.functions]
      simp
    · rw [usage_add, Routine.build_eq_codeFor, Routine.map_heading_codeFor, h.templates]
      simp

variable (symbols : SymbolTable) (blocks : List Block)

theorem headed_routines :
    (routines symbols blocks).Headed symbols (Routine.divide symbols blocks) := by
  have hnone : Routines.Headed symbols [] {} := ⟨rfl, rfl⟩
  exact foldl_add_induction (motive := Routines.Headed symbols)
    (fun _ _ segment h => headed_add h segment) hnone _

/-- Where the code of templates starts, in the order in which they were found. -/
def templateStarts : List Address := (shapes symbols blocks).filterMap (·.templateStart?)

/-- The routines of a program are those that start at its entries, and behind them its templates. -/
theorem map_heading_functions :
    ((build symbols blocks).root.walk.filter (·.kind == .function)).map Node.heading
      = (Routine.entries symbols blocks).map (Routine.routineHeading symbols)
        ++ (templateStarts symbols blocks).map Routine.templateHeading := by
  have hheaded := headed_routines symbols blocks
  rw [(isTree_build symbols blocks).filter_function, build_root, Node.placeLabels_eq,
    Node.map_heading_placeLabelsAll, unlabelled, List.map_append, hheaded.functions,
    hheaded.templates, Routine.entries_eq_divide]
  rfl

variable {symbols blocks}

theorem heading_mem_functions {name : String} {address : Option Address} :
    (∃ function ∈ (build symbols blocks).root.walk, function.kind = .function ∧
      function.heading = (name, address)) ↔
      (name, address) ∈ (Routine.entries symbols blocks).map (Routine.routineHeading symbols)
        ++ (templateStarts symbols blocks).map Routine.templateHeading := by
  rw [← map_heading_functions, List.mem_map]
  simp [and_assoc]

theorem contains_subroutines_resolve {text : String} {sources : Sources} {target : Address} :
    (SymbolTable.resolve (Listing.read text).candidates sources).subroutines.contains target
      = true ↔
      ∃ call ∈ (Listing.read text).instructions, call.callTarget? = some target := by
  rw [Std.ExtTreeSet.contains_iff_mem, ← List.mem_filterMap]
  exact Candidates.mem_setOf

end Program

end Lift6502
