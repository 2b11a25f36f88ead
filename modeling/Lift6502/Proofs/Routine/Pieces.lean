import Lift6502.Proofs.Routine.Parts

/-!
# What a node of a program can be

Every node of a program is its root, a routine over the code for its matches, a node of the code for
one match, or a node of a template that was cut out of one. Ends of programs and labels are put in
later, and change nothing but labels and the values of returns. What holds of these four kinds of
nodes, and does not depend on such changes, holds of the whole program.
-/

namespace Lift6502

/-! ### Ends of programs and labels -/

namespace Node

/-- Whether two nodes differ in labels and in the values of returns only, and in what is below them
only by labels and values. -/
structure Resembles (node other : Node) : Prop where
  bare : node.bare = other.bare
  value : node.kind ≠ .leave → node.value = other.value

namespace Resembles

variable {node other third : Node}

theorem kind (h : node.Resembles other) : node.kind = other.kind := by
  rw [← bare_kind, h.bare, bare_kind]

theorem params (h : node.Resembles other) : node.params = other.params := by
  rw [← bare_params, h.bare, bare_params]

theorem trans (h : node.Resembles other) (h' : other.Resembles third) : node.Resembles third :=
  ⟨h.bare.trans h'.bare, fun hkind => (h.value hkind).trans (h'.value (h.kind ▸ hkind))⟩

/-- Below nodes that resemble each other, nodes have the same kinds, parameters and addresses. -/
theorem exists_child (h : node.Resembles other) {child : Node} (hchild : child ∈ node.children) :
    ∃ child' ∈ other.children, child.bare = child'.bare := by
  have hmem : child.bare ∈ other.children.map Node.bare := by
    rw [← bare_children, ← h.bare, bare_children]
    exact List.mem_map_of_mem hchild
  obtain ⟨child', hchild', hbare⟩ := List.mem_map.mp hmem
  exact ⟨child', hchild', hbare.symm⟩

end Resembles

/-- The value of a node, unless it is a return. -/
def lastingValue (node : Node) : String := if node.kind = .leave then "" else node.value

theorem lastingValue_endProgram (node : Node) :
    node.endProgram.lastingValue = node.lastingValue := by
  rw [endProgram_eq, lastingValue, lastingValue]
  by_cases hkind : node.kind = .leave <;> simp [hkind]

/-- Two walks that agree node by node. -/
theorem exists_resembling {walk others : List Node} (hbare : walk.map bare = others.map bare)
    (hvalue : walk.map lastingValue = others.map lastingValue) :
    ∀ node ∈ walk, ∃ other ∈ others, node.Resembles other := by
  induction walk generalizing others with
  | nil => exact List.forall_mem_nil _
  | cons first rest ih =>
    cases others with
    | nil => cases hbare
    | cons first' rest' =>
      rw [List.map_cons, List.map_cons, List.cons.injEq] at hbare hvalue
      obtain ⟨hfirst, hrest⟩ := hbare
      have hkind : first.kind = first'.kind := by rw [← bare_kind, hfirst, bare_kind]
      refine List.forall_mem_cons.mpr ⟨⟨first', List.mem_cons_self, hfirst, fun hne => ?_⟩,
        fun node hnode => ?_⟩
      · have hsame := hvalue.1
        rwa [lastingValue, lastingValue, if_neg hne, if_neg (hkind ▸ hne)] at hsame
      · obtain ⟨other, hother, hresembles⟩ := ih hrest hvalue.2 node hnode
        exact ⟨other, List.mem_cons_of_mem _ hother, hresembles⟩

theorem exists_resembling_placeLabels (pending : AddressMap String) (node : Node) :
    ∀ placed ∈ (node.placeLabels pending).1.walk, ∃ other ∈ node.walk, placed.Resembles other := by
  refine exists_resembling ?_ ?_
  · rw [← walk_bare, ← walk_bare, bare_placeLabels]
  · have halone := congrArg (List.map lastingValue) (map_alone_walk_placeLabels pending node)
    rwa [List.map_map, List.map_map] at halone

theorem exists_resembling_endProgram (node : Node) :
    ∀ ended ∈ node.endProgram.walk, ∃ other ∈ node.walk, ended.Resembles other := by
  refine exists_resembling ?_ ?_
  · rw [← walk_bare, ← walk_bare, bare_endProgram]
  · have halone := congrArg (List.map lastingValue) (map_alone_walk_endProgram node)
    rw [List.map_map, List.map_map, List.map_map] at halone
    exact halone.trans (List.map_congr_left fun other _ => lastingValue_endProgram other.alone)

end Node

/-! ### Templates -/

namespace Routine

variable {symbols : SymbolTable}

theorem mem_templates_structured {usage : Usage} {found : Match} {template : Node}
    (h : template ∈ (structured symbols usage found).1.templates) :
    template ∈ usage.templates ∨ ∃ first rest, found.blocks = first :: rest ∧
      template = cutOut symbols first rest := by
  by_cases hshape : found.shape = .template
  · cases hblocks : found.blocks with
    | nil =>
      simp only [structured, hshape, Routine.template, hblocks] at h
      exact Or.inl h
    | cons first rest =>
      rw [structured_template hshape hblocks] at h
      refine (List.mem_append.mp h).imp id fun hcut =>
        ⟨first, rest, rfl, List.mem_singleton.mp hcut⟩
  · rw [templates_structured hshape] at h
    exact Or.inl h

theorem mem_templates_codeFor {usage : Usage} {matched : List Match} {template : Node}
    (h : template ∈ (codeFor symbols usage matched).1.templates) :
    template ∈ usage.templates ∨
      ∃ found ∈ matched, ∃ first rest, found.blocks = first :: rest ∧
      template = cutOut symbols first rest := by
  induction matched generalizing usage with
  | nil => exact Or.inl h
  | cons found others ih =>
    rcases ih h with hbefore | ⟨other, hother, hcut⟩
    · rcases mem_templates_structured hbefore with hbefore | hcut
      · rw [templates_foldl_note] at hbefore
        exact Or.inl hbefore
      · exact Or.inr ⟨found, List.mem_cons_self, hcut⟩
    · exact Or.inr ⟨other, List.mem_cons_of_mem found hother, hcut⟩

/-- What holds of the statements of a template, with and without a parameter in them, and of the
template itself. -/
theorem each_cutOut {P : Node → Prop} {first : Block} {rest : List Block}
    (htemplate : P (cutOut symbols first rest))
    (hown : ∀ i ∈ first.body, P { Statement.ofInstruction symbols i with address := none })
    (hparameter : ∀ i ∈ first.body, ∀ slot,
      P (substitute (valueText symbols i.operand) (parameterText i.operand slot)
        { Statement.ofInstruction symbols i with address := none })) :
    Node.Each P [cutOut symbols first rest] := by
  refine Node.Each.group htemplate (Node.Each.of_leaves ?_ ?_)
  · exact fun child hchild => ((isTemplate_cutOut symbols first rest).lines child hchild).1.leaf
  · refine List.forall_mem_map.mpr fun pair hpair => ?_
    have hi := List.fst_mem_of_mem_zipIdx hpair
    unfold templateStatement
    split
    · exact hparameter pair.1 hi _
    · exact hown pair.1 hi

theorem exists_structured_of_mem_walkAll {usage : Usage} {matched : List Match} {node : Node}
    (h : node ∈ Node.walkAll (codeFor symbols usage matched).2) :
    ∃ found ∈ matched, ∃ usage, node ∈ Node.walkAll (structured symbols usage found).2 := by
  obtain ⟨root, hroot, hnode⟩ := Node.mem_walkAll.mp h
  obtain ⟨found, hfound, usage, hroot⟩ := exists_structured_of_mem_codeFor hroot
  exact ⟨found, hfound, usage, Node.mem_walkAll.mpr ⟨root, hroot, hnode⟩⟩

end Routine

/-! ### Routines -/

namespace Program

variable {symbols : SymbolTable}

/-- The code of a segment is in a routine of its own. -/
def IsBuiltFrom (symbols : SymbolTable) (segment : List Block) (function : Node) : Prop :=
  ∃ first rest usage, segment = first :: rest ∧
    function = routineNode symbols first.start (Routine.codeFor symbols usage
      (Routine.shapes symbols segment)).2

/-- Routines that consist of the code of some segments, and of templates that were cut out of it. -/
structure Routines.Composed (symbols : SymbolTable) (segments : List (List Block))
    (routines : Routines) : Prop where
  functions : List.Forall₂ (IsBuiltFrom symbols) segments routines.functions
  templates : ∀ template ∈ routines.usage.templates,
    ∃ found ∈ segments.flatMap (Routine.shapes symbols), ∃ first rest,
    found.blocks = first :: rest ∧ template = Routine.cutOut symbols first rest

theorem composed_add {segments : List (List Block)} {routines : Routines}
    (h : (∀ segment ∈ segments, segment ≠ []) → routines.Composed symbols segments)
    (segment : List Block) :
    (∀ other ∈ segments ++ [segment], other ≠ []) →
      (routines.add symbols segment).Composed symbols (segments ++ [segment]) := by
  intro hall
  obtain ⟨hbefore, hsegment⟩ := List.forall_mem_append.mp hall
  obtain ⟨first, rest, rfl⟩ :=
    List.exists_cons_of_ne_nil (hsegment segment (List.mem_singleton_self segment))
  obtain ⟨hfunctions, htemplates⟩ := h hbefore
  constructor
  · rw [functions_add, Routine.build_eq_codeFor]
    exact List.rel_append hfunctions
      (List.Forall₂.cons ⟨first, rest, routines.usage, rfl, rfl⟩ List.Forall₂.nil)
  · intro template htemplate
    rw [usage_add, Routine.build_eq_codeFor] at htemplate
    rw [List.flatMap_append, List.flatMap_singleton]
    rcases Routine.mem_templates_codeFor htemplate with hold | ⟨found, hfound, hcut⟩
    · obtain ⟨found, hfound, hcut⟩ := htemplates template hold
      exact ⟨found, List.mem_append_left _ hfound, hcut⟩
    · exact ⟨found, List.mem_append_right _ hfound, hcut⟩

theorem composed_routines (symbols : SymbolTable) (blocks : List Block) :
    (routines symbols blocks).Composed symbols (Routine.divide symbols blocks) := by
  have hnone : (∀ segment ∈ ([] : List (List Block)), segment ≠ []) →
      Routines.Composed symbols [] {} :=
    fun _ => ⟨List.Forall₂.nil, List.forall_mem_nil _⟩
  have hall := foldl_add_induction
    (motive := fun segments routines => (∀ segment ∈ segments, segment ≠ []) →
      routines.Composed symbols segments)
    (fun _ _ segment h => composed_add h segment) hnone (Routine.divide symbols blocks)
  refine hall fun segment hsegment => ?_
  rintro rfl
  exact List.nil_notMem_splitBy _ _ hsegment

/-! ### Nodes of a program -/

/-- What a node of a program can be, before ends of programs and labels are put in. -/
inductive Origin (symbols : SymbolTable) (blocks : List Block) : Node → Prop where
  | root : Origin symbols blocks (unlabelled symbols blocks)
  | routine {matched : List Match} (usage : Usage) (name : String) (entry : Address)
      (hmatched : matched ⊆ shapes symbols blocks) :
      Origin symbols blocks
        { kind := .function, value := name, children := (Routine.codeFor symbols usage matched).2,
          address := some entry }
  | code {found : Match} {usage : Usage} {node : Node} (hfound : found ∈ shapes symbols blocks)
      (hnode : node ∈ Node.walkAll (Routine.structured symbols usage found).2) :
      Origin symbols blocks node
  | template {found : Match} {first : Block} {rest : List Block} {node : Node}
    (hfound : found ∈ shapes symbols blocks)
      (hblocks : found.blocks = first :: rest)
          (hnode : node ∈ (Routine.cutOut symbols first rest).walk) :
      Origin symbols blocks node

variable {blocks : List Block} {node : Node}

theorem exists_origin_of_routine {segment : List Block} {function : Node}
    (hsegment : segment ∈ Routine.divide symbols blocks) (h : IsBuiltFrom symbols segment function)
    (hnode : node ∈ function.walk) :
    ∃ other, Origin symbols blocks other ∧ node.Resembles other := by
  obtain ⟨first, rest, usage, rfl, rfl⟩ := h
  have hshapes : Routine.shapes symbols (first :: rest) ⊆ shapes symbols blocks :=
    fun found hfound => List.mem_flatMap.mpr ⟨_, hsegment, hfound⟩
  have horigin (name : String) {other : Node}
      (hother : other ∈ Node.walk
        { kind := .function
          value := name
          children := (Routine.codeFor symbols usage (Routine.shapes symbols (first :: rest))).2
          address := some first.start }) : Origin symbols blocks other := by
    rw [Node.walk_eq] at hother
    rcases List.mem_cons.mp hother with rfl | hbelow
    · exact .routine usage name first.start hshapes
    · obtain ⟨found, hfound, usage, hbelow⟩ := Routine.exists_structured_of_mem_walkAll hbelow
      exact .code (hshapes hfound) hbelow
  unfold routineNode at hnode
  split at hnode
  · exact ⟨node, horigin _ hnode, rfl, fun _ => rfl⟩
  · obtain ⟨other, hother, hresembles⟩ := Node.exists_resembling_endProgram _ node hnode
    exact ⟨other, horigin _ hother, hresembles⟩

/-- Every node of a program is one of those, but for labels and for the values of returns. -/
theorem exists_origin (h : node ∈ (build symbols blocks).root.walk) :
    ∃ other, Origin symbols blocks other ∧ node.Resembles other := by
  have hcomposed := composed_routines symbols blocks
  rw [build_root] at h
  obtain ⟨placed, hplaced, hresembles⟩ := Node.exists_resembling_placeLabels _ _ node h
  rw [Node.walk_eq] at hplaced
  rcases List.mem_cons.mp hplaced with rfl | hbelow
  · exact ⟨_, .root, hresembles⟩
  · rw [unlabelled, Node.walkAll_append, List.mem_append] at hbelow
    rcases hbelow with hbelow | hbelow
    · obtain ⟨function, hfunction, hbelow⟩ := Node.mem_walkAll.mp hbelow
      obtain ⟨segment, hsegment, hroutine⟩ := exists_left_of_forall₂ hcomposed.functions hfunction
      obtain ⟨other, horigin, hother⟩ := exists_origin_of_routine hsegment hroutine hbelow
      exact ⟨other, horigin, hresembles.trans hother⟩
    · obtain ⟨template, htemplate, hbelow⟩ := Node.mem_walkAll.mp hbelow
      obtain ⟨found, hfound, first, rest, hblocks, rfl⟩ := hcomposed.templates template htemplate
      exact ⟨placed, .template hfound hblocks hbelow, hresembles⟩

end Program

end Lift6502
