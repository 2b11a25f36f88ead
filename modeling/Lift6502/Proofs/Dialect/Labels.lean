import Lift6502.Dialect.Target
import Lift6502.Proofs.Dialect.Visits
import Lift6502.Proofs.Listing.Reader
import Lift6502.Proofs.Routine.Programs

/-!
# Labels that are jumped to and where they are defined

In a dialect that jumps to names, a name that some jump uses is defined exactly if a node carries
it, since every node of a program is written. So the matches decide: a jump to an instruction that
its match hides is a jump to a name that is nowhere defined, although the listing holds the
instruction.
-/

namespace Lift6502

/-- Whether nodes of a kind may have children. -/
def NodeKind.isInner : NodeKind → Bool
  | program | function | nestedIf | switch | case => true
  | kind => kind.isGroup

namespace Node

theorem forall_mem_walk {P : Node → Prop} {node : Node} (hself : P node)
    (hchildren : ∀ child ∈ node.children, ∀ part ∈ child.walk, P part) :
    ∀ part ∈ node.walk, P part := by
  rw [walk_eq]
  refine List.forall_mem_cons.mpr ⟨hself, fun part hpart => ?_⟩
  obtain ⟨child, hchild, hpart⟩ := mem_walkAll.mp hpart
  exact hchildren child hchild part hpart

theorem forall_mem_walk_of_leaf {P : Node → Prop} {node : Node} (hself : P node)
    (hleaf : node.children = []) : ∀ part ∈ node.walk, P part :=
  forall_mem_walk hself fun child hchild => by rw [hleaf] at hchild; cases hchild

theorem IsLine.kind_of_mem_walk {node : Node} (h : node.IsLine) :
    ∀ part ∈ node.walk, part.kind ≠ .function ∧
      (part.kind.isInner = true ∨ part.children = []) := by
  refine forall_mem_walk_of_leaf ⟨fun hkind => ?_, Or.inr h.leaf⟩ h.leaf
  have hline := h.kind
  rw [hkind] at hline
  cases hline

theorem IsCase.kind_of_mem_walk {node : Node} (h : node.IsCase) :
    ∀ part ∈ node.walk, part.kind ≠ .function ∧
      (part.kind.isInner = true ∨ part.children = []) := by
  obtain ⟨action, hchildren, hleaf, haction⟩ := h.action
  refine forall_mem_walk ⟨by simp [h.kind], Or.inl (by rw [h.kind]; rfl)⟩ fun child hchild => ?_
  rw [hchildren, List.mem_singleton] at hchild
  subst hchild
  refine forall_mem_walk_of_leaf ⟨?_, Or.inr hleaf⟩ hleaf
  rcases haction with hkind | hkind <;> simp [hkind]

/-- Nothing in a routine is a routine, and only nodes of some kinds have children. -/
theorem IsItem.kind_of_mem_walk {node : Node} (h : node.IsItem) :
    ∀ part ∈ node.walk, part.kind ≠ .function ∧
      (part.kind.isInner = true ∨ part.children = []) := by
  cases h with
  | line h => exact h.kind_of_mem_walk
  | group hkind hchildren =>
    have hself : node.kind ≠ .function ∧ (node.kind.isInner = true ∨ node.children = []) := by
      generalize node.kind = kind at hkind
      cases kind <;> first | exact ⟨by decide, Or.inl rfl⟩ | cases hkind
    exact forall_mem_walk hself fun child hchild => (hchildren child hchild).kind_of_mem_walk
  | chain hkind _ hchildren =>
    refine forall_mem_walk ?_ fun child hchild => (hchildren child hchild).kind_of_mem_walk
    exact ⟨by simp [hkind], Or.inl (by rw [hkind]; rfl)⟩
  | switch hkind _ hchildren =>
    refine forall_mem_walk ?_ fun child hchild => (hchildren child hchild).kind_of_mem_walk
    exact ⟨by simp [hkind], Or.inl (by rw [hkind]; rfl)⟩

/-- In a tree that was built only nodes of some kinds have children. -/
theorem IsTree.isInner_of_mem_walk {root : Node} (h : root.IsTree) :
    ∀ part ∈ root.walk, part.kind.isInner = true ∨ part.children = [] := by
  refine forall_mem_walk (Or.inl (by rw [h.kind]; rfl)) fun routine hroutine => ?_
  have hroutine := h.routines routine hroutine
  refine forall_mem_walk (Or.inl (by rw [hroutine.kind]; rfl)) fun item hitem part hpart => ?_
  exact ((hroutine.items item hitem).kind_of_mem_walk part hpart).2

end Node

/-! ### Dialects that jump to names -/

/-- A dialect without line numbers that writes every node, and a line with the name in front of one
with a label. -/
structure Dialect.JumpsToNames (dialect : Dialect) (mark : String) : Prop where
  numbered : dialect.numbered = false
  labelLine? : ∀ label, dialect.labelLine? label = some (label ++ mark)
  descend : ∀ places node, node.kind.isInner = true → (dialect.render places node).descend = true

theorem Modern.jumpsToNames : dialect.JumpsToNames ":" where
  numbered := rfl
  labelLine? _ := rfl
  descend places node hinner := by
    change (render places node).descend = true
    rw [render]
    cases hkind : node.kind <;> simp only [hkind] at hinner ⊢ <;> try cases hinner
    case function => split <;> rfl
    case program | nestedIf | structDef | block => simp only [Spelling.statement, hkind]; rfl
    all_goals rfl

theorem Curly.jumpsToNames : dialect.JumpsToNames ":;" where
  numbered := rfl
  labelLine? _ := rfl
  descend places node hinner := by
    change (render places node).descend = true
    rw [render]
    cases hkind : node.kind <;> simp only [hkind] at hinner ⊢ <;> try cases hinner
    case forLoop =>
      unfold countedLoop
      simp only
      split <;> rfl
    case program | nestedIf | structDef | block => simp only [Spelling.statement, hkind]; rfl
    all_goals rfl

/-- How a program is written the first time, and where its root goes. -/
def Dialect.firstManner (dialect : Dialect) (program : Program) : Manner :=
  { dialect, used := program.root.referencedLabels, known := none }

def Dialect.firstSpot (dialect : Dialect) (program : Program) : Spot :=
  { position := (Piece.linesAt 0 (dialect.preamble program)).length }

theorem Dialect.usedLabel?_firstManner (dialect : Dialect) {program : Program} {label : String}
    (hreferenced : label ∈ program.root.referencedLabels) :
    Piece.usedLabel? (dialect.firstManner program) (some label) = some label := by
  rw [Piece.usedLabel?, Option.filter_some]
  exact if_pos (Std.ExtTreeSet.contains_iff_mem.mpr hreferenced)

namespace Dialect.JumpsToNames

variable {dialect : Dialect} {mark : String} (h : dialect.JumpsToNames mark) {program : Program}
  (htree : program.root.IsTree)

include h

theorem writeProgram_eq : dialect.writeProgram program = dialect.pass program none := by
  rw [writeProgram, h.numbered]
  rfl

include htree

theorem map_node_visits_root :
    (Piece.visits (dialect.firstManner program) (dialect.firstSpot program) program.root).map
      (·.node)
      = program.root.walk := by
  refine (Piece.map_node_visits _).1 _ _ fun part hpart spot => ?_
  rcases htree.isInner_of_mem_walk part hpart with hinner | hleaf
  · exact Or.inl (h.descend _ part hinner)
  · exact Or.inr hleaf

/-- Every node of the tree is visited. -/
theorem exists_visit {node : Node} (hnode : node ∈ program.root.walk) :
    ∃ visit ∈ Piece.visits (dialect.firstManner program) (dialect.firstSpot program) program.root,
      visit.node = node := by
  rw [← h.map_node_visits_root htree] at hnode
  exact List.mem_map.mp hnode

/-- The labels that are defined are those that are carried by a node and named by a jump. -/
theorem mem_labels_writeProgram {label : String}
    (hreferenced : label ∈ program.root.referencedLabels) :
    label ∈ (dialect.writeProgram program).labels.map (·.1) ↔
      ∃ node ∈ program.root.walk, node.label = some label := by
  rw [h.writeProgram_eq, pass, Piece.labels_eq_flatMap_visits]
  constructor
  · intro hlabel
    obtain ⟨⟨_, position⟩, hentry, rfl⟩ := List.mem_map.mp hlabel
    obtain ⟨visit, hvisit, hentry⟩ := List.mem_flatMap.mp hentry
    rw [Option.mem_toList, Visit.label?, Option.map_eq_some_iff] at hentry
    obtain ⟨name, hname, heq⟩ := hentry
    obtain ⟨rfl, rfl⟩ := Prod.mk.injEq .. ▸ heq
    exact ⟨visit.node, (Piece.mem_walk_of_visits _).1 _ _ visit hvisit,
      (Option.filter_eq_some_iff.mp hname).1⟩
  · rintro ⟨node, hnode, hlabel⟩
    obtain ⟨visit, hvisit, rfl⟩ := h.exists_visit htree hnode
    refine List.mem_map.mpr ⟨(label, visit.spot.position),
      List.mem_flatMap.mpr ⟨visit, hvisit, ?_⟩, rfl⟩
    change _ ∈ (visit.label? (dialect.firstManner program)).toList
    rw [Visit.label?, hlabel, dialect.usedLabel?_firstManner hreferenced]
    exact List.mem_singleton_self _

/-- A label that is carried and named has a line of its own. -/
theorem exists_line {label : String} (hreferenced : label ∈ program.root.referencedLabels)
    (hcarried : ∃ node ∈ program.root.walk, node.label = some label) :
    ∃ line ∈ (dialect.writeProgram program).lines, line.text = label ++ mark := by
  obtain ⟨node, hnode, hlabel⟩ := hcarried
  obtain ⟨visit, hvisit, rfl⟩ := h.exists_visit htree hnode
  obtain ⟨before, after, hlines, _⟩ := (Piece.lines_of_visits _).1 _ _ visit hvisit
  have hline : (dialect.firstManner program).dialect.labelLine? label = some (label ++ mark) :=
    h.labelLine? label
  have hmem : { depth := visit.spot.depth, text := label ++ mark }
    ∈ (visit.piece (dialect.firstManner program)).lines := by
    rw [Visit.piece, Piece.ofNode_lines, Piece.openingLines, Piece.labelLines, hlabel,
      dialect.usedLabel?_firstManner hreferenced, Option.bind_some, hline]
    simp [Piece.linesAt]
  refine ⟨{ depth := visit.spot.depth, text := label ++ mark }, ?_, rfl⟩
  rw [h.writeProgram_eq]
  change _ ∈ Piece.linesAt 0 _ ++ (Piece.ofNode (dialect.firstManner program)
      (dialect.firstSpot program) _).lines ++ _
  rw [hlines]
  simp [hmem]

theorem mem_undefinedLabels {label : String} (hreferenced : label ∈ program.root.referencedLabels) :
    label ∈ undefinedLabels program (dialect.writeProgram program) ↔
      ¬ ∃ node ∈ program.root.walk, node.label = some label := by
  rw [← h.mem_labels_writeProgram htree hreferenced, undefinedLabels, List.mem_filter,
    Std.ExtTreeSet.mem_toList]
  simp [hreferenced]

end Dialect.JumpsToNames

namespace Program

/-- The program for the text of a listing. -/
def ofListing (symbols : SymbolTable) (text : String) : Program :=
  build symbols (Block.partition (Listing.read text).instructions)

/-- Whether a jump of a listing goes to an instruction of a name which its match does not hide. -/
def ShowsTarget (symbols : SymbolTable) (text : String) (name : String) : Prop :=
  ∃ found ∈ shapes symbols (Block.partition (Listing.read text).instructions),
    ∃ i ∈ found.instructions,
    found.hides i = false ∧ (∃ jump ∈ (Listing.read text).instructions, jump.jumpTarget?
      = some i.address) ∧
    symbols.codeName i.address = name

theorem exists_carrier_iff (symbols : SymbolTable) (text : String) (name : String) :
    (∃ node ∈ (ofListing symbols text).root.walk, node.label = some name) ↔
      ShowsTarget symbols text name := by
  have hascending := Listing.ascending_read text
  rw [← Block.instructionsOf_partition (Listing.read text).instructions] at hascending
  have hlabels := mem_labels_build symbols _ hascending name
  rw [Node.mem_labels, Node.walkAll_cons, Node.walkAll_nil, List.append_nil,
    Block.instructionsOf_partition] at hlabels
  exact hlabels

/-- A name that some jump of a program uses is carried by a node exactly if a jump of the listing
goes to an instruction of that name which its match does not hide, and then, and only then, both
dialects that jump to names define it. -/
theorem label_defined_iff_target_shown (symbols : SymbolTable) (text : String) {label : String}
    (hreferenced : label ∈ (ofListing symbols text).root.referencedLabels) :
    ((∃ node ∈ (ofListing symbols text).root.walk, node.label = some label) ↔
      ShowsTarget symbols text label) ∧
    (label ∉ Dialect.undefinedLabels (ofListing symbols text) (Modern.dialect.writeProgram
      (ofListing symbols text)) ↔
      ShowsTarget symbols text label) ∧
    (label ∉ Dialect.undefinedLabels (ofListing symbols text) (Curly.dialect.writeProgram
      (ofListing symbols text)) ↔
      ShowsTarget symbols text label) ∧
    (ShowsTarget symbols text label →
      (∃ line ∈ (Modern.dialect.writeProgram (ofListing symbols text)).lines,
        line.text = label ++ ":") ∧
      ∃ line ∈ (Curly.dialect.writeProgram (ofListing symbols text)).lines,
        line.text = label ++ ":;") := by
  have htree : (ofListing symbols text).root.IsTree := isTree_build symbols _
  rw [← exists_carrier_iff symbols text label]
  refine ⟨Iff.rfl, ?_, ?_, fun hcarried => ⟨?_, ?_⟩⟩
  · rw [Modern.jumpsToNames.mem_undefinedLabels htree hreferenced, not_not]
  · rw [Curly.jumpsToNames.mem_undefinedLabels htree hreferenced, not_not]
  · exact Modern.jumpsToNames.exists_line htree hreferenced hcarried
  · exact Curly.jumpsToNames.exists_line htree hreferenced hcarried

/-- A jump over a call to the return behind it. -/
def jumpOver : String := "$C000: JMP $C006\n$C003: JSR $FFD2\n$C006: RTS\n"

theorem jumpOver_defines_label :
    "LABEL_C006" ∈ (ofListing {} jumpOver).root.referencedLabels ∧
    ∃ line ∈ (Modern.dialect.writeProgram (ofListing {} jumpOver)).lines,
      line.text = "LABEL_C006:" := by
  have hreferenced : "LABEL_C006" ∈ (ofListing {} jumpOver).root.referencedLabels := by
    decide +kernel
  have hcarried : ∃ node ∈ (ofListing {} jumpOver).root.walk, node.label = some "LABEL_C006" := by
    decide +kernel
  obtain ⟨hshown, _, _, hlines⟩ := label_defined_iff_target_shown {} jumpOver hreferenced
  exact ⟨hreferenced, (hlines (hshown.mp hcarried)).1⟩

/-- A counted loop, and a jump to the comparison inside it. -/
def jumpIntoTest : String :=
  "$C000: LDX #$00\n$C002: INX\n$C003: CPX #$0A\n$C005: BNE $C002\n$C007: JMP $C003\n"

/-- The jump goes to an instruction of the listing, but its label is defined nowhere. -/
theorem jumpIntoTest_label_undefined :
    let listing := Listing.read jumpIntoTest
    let symbols := SymbolTable.resolve listing.candidates Sources.empty
    let program := ofListing symbols jumpIntoTest
    (∃ jump ∈ listing.instructions, jump.jumpTarget? = some 0xC003) ∧
    (∃ i ∈ listing.instructions, i.address = 0xC003) ∧
    symbols.codeName 0xC003 ∈ program.root.referencedLabels ∧
    (¬ ∃ node ∈ program.root.walk, node.label = some (symbols.codeName 0xC003)) ∧
    symbols.codeName 0xC003
      ∈ Dialect.undefinedLabels program (Modern.dialect.writeProgram program) ∧
    symbols.codeName 0xC003
      ∈ Dialect.undefinedLabels program (Curly.dialect.writeProgram program) := by
  decide +kernel

end Program

end Lift6502
