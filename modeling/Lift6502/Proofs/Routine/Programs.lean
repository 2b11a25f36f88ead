import Lift6502.Proofs.Machine.Maps
import Lift6502.Proofs.Routine.Visibility

/-!
# Programs that were built

A program is built routine by routine. What one more routine adds is stated once, and by going
through the routines it holds of the whole: the tree has the shape that dialects rely on, and a name
is on some node exactly if a jump goes to the address of an instruction with that name which no
match hides.
-/

namespace Lift6502

namespace Routine

variable {symbols : SymbolTable}

theorem nonempty_of_mem_shapes {blocks : List Block} {found : Match}
    (h : found ∈ shapes symbols blocks) : found.blocks ≠ [] := by
  obtain ⟨block, rest, rfl⟩ := exists_recognise_of_mem_shapes h
  exact (Shape.recognise_promises symbols block rest).1.nonempty

/-- The nodes of a routine are those of its matches. -/
theorem exists_structured_of_mem_codeFor {usage : Usage} {matched : List Match} {node : Node}
    (h : node ∈ (codeFor symbols usage matched).2) :
    ∃ found ∈ matched, ∃ usage, node ∈ (structured symbols usage found).2 := by
  induction matched generalizing usage with
  | nil => cases h
  | cons found others ih =>
    rcases List.mem_append.mp h with hfound | hothers
    · exact ⟨found, List.mem_cons_self, _, hfound⟩
    · obtain ⟨other, hother, hnode⟩ := ih hothers
      exact ⟨other, List.mem_cons_of_mem found hother, hnode⟩

theorem isFresh_of_mem_build {usage : Usage} {blocks : List Block} {node : Node}
    (h : node ∈ (build symbols usage blocks).2) : node.IsFresh := by
  rw [build_eq_codeFor] at h
  obtain ⟨found, hfound, usage, hnode⟩ := exists_structured_of_mem_codeFor h
  exact isFresh_of_mem_structured symbols (sound_of_mem_shapes hfound)
    (nonempty_of_mem_shapes hfound) hnode

theorem isTemplate_of_mem_codeFor {usage : Usage} (matched : List Match)
    (husage : ∀ node ∈ usage.templates, node.IsTemplate) :
    ∀ node ∈ (codeFor symbols usage matched).1.templates, node.IsTemplate := by
  induction matched generalizing usage with
  | nil => exact husage
  | cons found others ih =>
    refine ih (isTemplate_of_mem_structured symbols found ?_)
    rw [templates_foldl_note]
    exact husage

theorem mem_sites_codeFor (usage : Usage) {matched : List Match} (address : Address)
    (h : ∀ found ∈ matched, ∀ usage, address ∈ Node.sites (structured symbols usage found).2 ↔
      found.Shows address) :
    address ∈ Node.sites (codeFor symbols usage matched).2 ↔
      ∃ found ∈ matched, found.Shows address := by
  induction matched generalizing usage with
  | nil => simp [codeFor, Node.sites_nil]
  | cons found others ih =>
    obtain ⟨hfound, hothers⟩ := List.forall_mem_cons.mp h
    rw [codeFor]
    simp only
    rw [Node.sites_append, List.mem_append, hfound, ih _ hothers]
    simp

/-- In ascending code the sites of a routine are what its matches show. -/
theorem mem_sites_build {blocks : List Block} (hascending : Ascending (Block.instructionsOf blocks))
    (usage : Usage) (address : Address) :
    address ∈ Node.sites (build symbols usage blocks).2 ↔
      ∃ found ∈ shapes symbols blocks, found.Shows address := by
  rw [build_eq_codeFor]
  refine mem_sites_codeFor usage address fun found hfound usage => ?_
  exact mem_sites_structured symbols (ascending_of_mem_shapes hascending hfound)
    (sound_of_mem_shapes hfound)
    (anchored_of_mem_shapes hfound) usage address

end Routine

namespace Program

/-! ### One more routine -/

/-- What holds of the routines that were built from some segments of blocks. -/
structure Routines.Built (symbols : SymbolTable) (segments : List (List Block))
    (routines : Routines) : Prop where
  functions : ∀ node ∈ routines.functions, node.IsRoutine
  labels : Node.labels routines.functions = []
  templates : ∀ node ∈ routines.usage.templates, node.IsTemplate
  sites : Ascending (Block.instructionsOf segments.flatten) → ∀ address,
    address ∈ Node.sites routines.functions ↔
      ∃ segment ∈ segments, ∃ found ∈ Routine.shapes symbols segment, found.Shows address

/-- A routine with its name is as its children are. -/
private theorem function_of_children (function : Node) (hkind : function.kind = .function)
    (hlabel : function.label = none) (hfresh : ∀ child ∈ function.children, child.IsFresh) :
    function.IsRoutine ∧ Node.labels [function] = [] ∧
      Node.sites [function] = Node.sites function.children := by
  have hsite : function.site? = none := by rw [Node.site?, hkind]; rfl
  refine ⟨⟨hkind, fun child hchild => (hfresh child hchild).item⟩, ?_, ?_⟩
  · rw [Node.labels_singleton, hlabel, Node.labels_of_isFresh hfresh]
    rfl
  · rw [Node.sites_singleton, hsite]
    rfl

theorem labels_endProgram (node : Node) : Node.labels [node.endProgram] = Node.labels [node] := by
  induction node using Node.induction with
  | step node ih =>
    have hchildren (nodes : List Node)
        (h : ∀ child ∈ nodes, Node.labels [child.endProgram] = Node.labels [child]) :
        Node.labels (nodes.map Node.endProgram) = Node.labels nodes := by
      induction nodes with
      | nil => rfl
      | cons first rest ihrest =>
        obtain ⟨hfirst, hrest⟩ := List.forall_mem_cons.mp h
        rw [List.map_cons, ← List.singleton_append, Node.labels_append, hfirst, ihrest hrest,
          ← Node.labels_append, List.singleton_append]
    rw [Node.labels_singleton, Node.labels_singleton, Node.endProgram_eq,
      hchildren node.children ih]

theorem sites_endProgram (node : Node) : Node.sites [node.endProgram] = Node.sites [node] := by
  rw [← Node.sites_map_bare, List.map_singleton, Node.bare_endProgram, ← List.map_singleton,
    Node.sites_map_bare]

theorem usage_add (symbols : SymbolTable) (routines : Routines) (segment : List Block) :
    (routines.add symbols segment).usage = (Routine.build symbols routines.usage segment).1 := by
  unfold Routines.add
  cases segment with
  | nil => rw [Routine.build]
  | cons first rest =>
    simp only
    split <;> rfl

/-- The one routine that a segment adds. -/
private theorem exists_add (symbols : SymbolTable) (routines : Routines) {segment : List Block}
    (hsegment : segment ≠ []) :
    ∃ function : Node, (routines.add symbols segment).functions = routines.functions ++ [function] ∧
      (routines.add symbols segment).usage = (Routine.build symbols routines.usage segment).1 ∧
      function.IsRoutine ∧ Node.labels [function] = [] ∧
      Node.sites [function] = Node.sites (Routine.build symbols routines.usage segment).2 := by
  obtain ⟨first, rest, rfl⟩ := List.exists_cons_of_ne_nil hsegment
  have hfunction (name : String) := function_of_children
    { kind := .function
      value := name
      children := (Routine.build symbols routines.usage (first :: rest)).2
      address := some first.start }
    rfl rfl fun child => Routine.isFresh_of_mem_build
  unfold Routines.add
  simp only
  split
  · exact ⟨_, rfl, rfl, hfunction _⟩
  · obtain ⟨hroutine, hlabels, hsites⟩ := hfunction mainName
    refine ⟨_, rfl, rfl, hroutine.of_bare (Node.bare_endProgram _).symm, ?_, ?_⟩
    · rw [labels_endProgram, hlabels]
    · rw [sites_endProgram, hsites]

theorem built_add {symbols : SymbolTable} {segments : List (List Block)} {routines : Routines}
    (h : routines.Built symbols segments) (segment : List Block) :
    (routines.add symbols segment).Built symbols (segments ++ [segment]) := by
  have hascending (hall : Ascending (Block.instructionsOf (segments ++ [segment]).flatten)) :
      Ascending (Block.instructionsOf segments.flatten) ∧
        Ascending (Block.instructionsOf segment) := by
    rw [List.flatten_concat, Block.instructionsOf_append] at hall
    exact ⟨hall.sublist (List.sublist_append_left _ _),
      hall.sublist (List.sublist_append_right _ _)⟩
  by_cases hsegment : segment = []
  · subst hsegment
    refine ⟨h.functions, h.labels, h.templates, fun hall address => ?_⟩
    change address ∈ Node.sites routines.functions ↔ _
    rw [h.sites (hascending hall).1]
    simp [Routine.shapes]
  · obtain ⟨function, hfunctions, husage, hroutine, hlabels, hsites⟩ :=
      exists_add symbols routines hsegment
    refine ⟨?_, ?_, ?_, fun hall address => ?_⟩
    · rw [hfunctions]
      exact List.forall_mem_append.mpr ⟨h.functions, by simpa using hroutine⟩
    · rw [hfunctions, Node.labels_append, h.labels, hlabels]
      rfl
    · rw [husage, Routine.build_eq_codeFor]
      exact Routine.isTemplate_of_mem_codeFor _ h.templates
    · rw [hfunctions, Node.sites_append, List.mem_append, h.sites (hascending hall).1, hsites,
        Routine.mem_sites_build (hascending hall).2]
      simp only [List.mem_append, List.mem_singleton, or_and_right, exists_or, exists_eq_left]

/-- What one more segment keeps holds after any number of segments. -/
theorem foldl_add_induction {symbols : SymbolTable} {motive : List (List Block) → Routines → Prop}
    (hadd : ∀ before routines segment, motive before routines →
      motive (before ++ [segment]) (routines.add symbols segment))
    {before : List (List Block)} {routines : Routines} (h : motive before routines)
    (segments : List (List Block)) :
    motive (before ++ segments) (segments.foldl (Routines.add symbols) routines) := by
  induction segments generalizing before routines with
  | nil =>
    rw [List.append_nil]
    exact h
  | cons segment rest ih =>
    rw [List.append_cons]
    exact ih (hadd before routines segment h)

/-! ### The whole program -/

/-- The matches of all routines. -/
def shapes (symbols : SymbolTable) (blocks : List Block) : List Match :=
  (Routine.divide symbols blocks).flatMap (Routine.shapes symbols)

/-- The routines of a program. -/
def routines (symbols : SymbolTable) (blocks : List Block) : Routines :=
  (Routine.divide symbols blocks).foldl (Routines.add symbols) {}

/-- The tree of a program before labels are placed. -/
def unlabelled (symbols : SymbolTable) (blocks : List Block) : Node :=
  { kind := .program
    children := (routines symbols blocks).functions ++ (routines symbols blocks).usage.templates }

variable (symbols : SymbolTable) (blocks : List Block)

theorem flatten_divide : (Routine.divide symbols blocks).flatten = blocks :=
  List.flatten_splitBy _ blocks

theorem built_routines :
    (routines symbols blocks).Built symbols (Routine.divide symbols blocks) := by
  have hnone : Routines.Built symbols [] {} := by
    refine ⟨?_, rfl, ?_, by simp [Node.sites_nil]⟩
    · exact fun node hnode => absurd hnode List.not_mem_nil
    · exact fun node hnode => absurd hnode List.not_mem_nil
  exact foldl_add_induction (motive := Routines.Built symbols)
    (fun _ _ segment h => built_add h segment) hnone _

theorem build_root :
    (build symbols blocks).root
      = ((unlabelled symbols blocks).placeLabels (labelTargets symbols blocks)).1 :=
  rfl

/-- The tree of every program has the shape that dialects rely on. -/
theorem isTree_build : (build symbols blocks).root.IsTree := by
  have hbuilt := built_routines symbols blocks
  have htree : (unlabelled symbols blocks).IsTree := by
    refine ⟨rfl, List.forall_mem_append.mpr ⟨hbuilt.functions, ?_⟩⟩
    exact fun node hnode => (hbuilt.templates node hnode).isRoutine
  rw [build_root]
  exact htree.of_bare (Node.bare_placeLabels _ _).symm

theorem label_build : (build symbols blocks).root.label = none := by
  rw [build_root, Node.placeLabels_eq]
  rfl

theorem labels_unlabelled : Node.labels [unlabelled symbols blocks] = [] := by
  have hbuilt := built_routines symbols blocks
  have htemplates : Node.labels (routines symbols blocks).usage.templates = [] := by
    refine Node.labels_eq_nil fun node hnode => ?_
    have hlabels := (hbuilt.templates node hnode).labels_eq_nil
    rw [Node.labels_singleton, List.append_eq_nil_iff, Option.toList_eq_nil_iff] at hlabels
    exact hlabels
  rw [Node.labels_singleton, unlabelled, Node.labels_append, hbuilt.labels, htemplates]
  rfl

theorem mem_sites_unlabelled (hascending : Ascending (Block.instructionsOf blocks))
    (address : Address) :
    address ∈ Node.sites [unlabelled symbols blocks] ↔
      ∃ found ∈ shapes symbols blocks, found.Shows address := by
  have hbuilt := built_routines symbols blocks
  have htemplates : Node.sites (routines symbols blocks).usage.templates = [] := by
    rw [List.eq_nil_iff_forall_not_mem]
    intro address haddress
    obtain ⟨node, hnode, haddress⟩ := List.mem_filterMap.mp haddress
    obtain ⟨template, htemplate, hnode⟩ := Node.mem_walkAll.mp hnode
    have hnone := (hbuilt.templates template htemplate).sites_eq_nil
    have hmem : address ∈ Node.sites [template] := by
      refine List.mem_filterMap.mpr ⟨node, ?_, haddress⟩
      exact Node.mem_walkAll.mpr ⟨template, List.mem_singleton_self template, hnode⟩
    rw [hnone] at hmem
    cases hmem
  rw [← flatten_divide symbols blocks] at hascending
  rw [Node.sites_singleton, unlabelled, Node.sites_append, htemplates, List.append_nil]
  change address ∈ Node.sites (routines symbols blocks).functions ↔ _
  rw [hbuilt.sites hascending, shapes]
  simp only [List.mem_flatMap]
  exact ⟨fun ⟨segment, hsegment, found, hfound, h⟩ => ⟨found, ⟨segment, hsegment, hfound⟩, h⟩,
    fun ⟨found, ⟨segment, hsegment, hfound⟩, h⟩ => ⟨segment, hsegment, found, hfound, h⟩⟩

theorem labelTargets_getElem? (address : Address) (name : String) :
    (labelTargets symbols blocks)[address]? = some name ↔
      (∃ jump ∈ Block.instructionsOf blocks, jump.jumpTarget? = some address) ∧
      name = symbols.codeName address := by
  rw [labelTargets, getElem?_ofList_map, List.mem_filterMap]

/-- A name is on some node exactly if a jump goes to an instruction of that name which its match
does not hide. -/
theorem mem_labels_build (hascending : Ascending (Block.instructionsOf blocks)) (name : String) :
    name ∈ Node.labels [(build symbols blocks).root] ↔
      ∃ found ∈ shapes symbols blocks, ∃ i ∈ found.instructions,
      found.hides i = false ∧ (∃ jump ∈ Block.instructionsOf blocks, jump.jumpTarget?
        = some i.address) ∧
      symbols.codeName i.address = name := by
  have hplacement := Node.placement_placeLabels (labelTargets symbols blocks)
    (labels_unlabelled symbols blocks)
  rw [build_root, hplacement.placed]
  simp only [mem_sites_unlabelled symbols blocks hascending, labelTargets_getElem?]
  constructor
  · rintro ⟨_, ⟨found, hfound, i, hi, hvisible, rfl⟩, hjump, rfl⟩
    exact ⟨found, hfound, i, hi, hvisible, hjump, rfl⟩
  · rintro ⟨found, hfound, i, hi, hvisible, hjump, rfl⟩
    exact ⟨i.address, ⟨found, hfound, i, hi, hvisible, rfl⟩, hjump, rfl⟩

end Program

end Lift6502
