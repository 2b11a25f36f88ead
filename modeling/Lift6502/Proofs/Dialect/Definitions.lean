import Lift6502.Proofs.Dialect.Labels
import Lift6502.Proofs.Dialect.OtherLines
import Lift6502.Proofs.Routine.FirstNodes
import Lift6502.Proofs.Symbol.Targets

/-!
# How often a label is defined

The first statement at the target of a jump carries the label of that address, and no other node
does. A dialect that jumps to names writes one line for each node that carries a label which some
jump of the program uses. As no other line looks like a definition, the definitions can be counted
on the page.
-/

namespace Lift6502

namespace Piece

variable {manner : Manner}

/-- The line that defines the label of a node. -/
def definition? (manner : Manner) (node : Node) : Option String :=
  (usedLabel? manner node.label).bind manner.dialect.labelLine?

theorem labelLines_eq (spot : Spot) (node : Node) :
    labelLines manner spot node = linesAt spot.depth (definition? manner node).toList :=
  rfl

theorem countP_linesAt_eq_zero {depth : Nat} {texts : List String} {text : String}
    (h : ∀ line ∈ texts, line ≠ text) : (linesAt depth texts).countP (·.text == text) = 0 := by
  rw [List.countP_eq_zero]
  intro line hline
  obtain ⟨own, hown, rfl⟩ := List.mem_map.mp hline
  simpa using h own hown

theorem countP_labelLines (spot : Spot) (node : Node) (text : String) :
    (labelLines manner spot node).countP (·.text == text) = if definition? manner node == some text
      then 1 else 0 := by
  rw [labelLines_eq]
  cases definition? manner node with
  | none => rfl
  | some line => simp [linesAt, List.countP_cons]

/-- A text that no node writes for itself is written once for each node that it defines the label
of. -/
theorem countP_lines {text : String}
    (hother : ∀ spot node,
      ∀ line ∈ (renderedAt manner spot node).opening ++ (renderedAt manner spot node).closing,
      line ≠ text) :
    (∀ spot node, (ofNode manner spot node).lines.countP (·.text == text)
      = (visits manner spot node).countP fun visit => definition? manner visit.node == some text) ∧
    ∀ spot nodes, (ofNodes manner spot nodes).lines.countP (·.text == text)
      = (visitsAll manner spot nodes).countP fun visit =>
        definition? manner visit.node == some text := by
  refine emission_induction manner (fun spot node hchildren => ?_) (fun spot => ?_)
    (fun spot node nodes hfirst hrest => ?_)
  · obtain ⟨hopening, hclosing⟩ := List.forall_mem_append.mp (hother spot node)
    have hinner : (inner manner spot node).lines.countP (·.text == text)
        = (visitsBelow manner spot node).countP fun visit =>
          definition? manner visit.node == some text := by
      rw [inner, visitsBelow]
      split
      · exact hchildren
      · rfl
    rw [ofNode_lines, openingLines, closingLines]
    simp only [List.countP_append, countP_labelLines, countP_linesAt_eq_zero hopening,
      countP_linesAt_eq_zero hclosing, hinner, visits_cons, List.countP_cons]
    omega
  · rw [ofNodes_nil, visitsAll_nil]
    rfl
  · rw [ofNodes_cons, visitsAll_cons, List.countP_append, List.countP_append, hfirst, hrest]

/-- Whether labels are recorded in the order of their lines, all of which are in a range. -/
structure Recorded (labels : List (String × Nat)) (start stop : Nat) : Prop where
  ordered : labels.Pairwise fun upper lower => upper.2 < lower.2
  within : ∀ entry ∈ labels, start ≤ entry.2 ∧ entry.2 < stop

namespace Recorded

theorem nil (start stop : Nat) : Recorded [] start stop :=
  ⟨List.Pairwise.nil, List.forall_mem_nil _⟩

theorem mono {labels : List (String × Nat)} {start stop start' stop' : Nat}
    (h : Recorded labels start stop) (hstart : start' ≤ start) (hstop : stop ≤ stop') :
    Recorded labels start' stop' := by
  refine ⟨h.ordered, fun entry hentry => ?_⟩
  have hwithin := h.within entry hentry
  omega

theorem append {upper lower : List (String × Nat)} {start middle stop : Nat}
    (hupper : Recorded upper start middle) (hlower : Recorded lower middle stop)
    (hstart : start ≤ middle) (hstop : middle ≤ stop) : Recorded (upper ++ lower) start stop := by
  constructor
  · rw [List.pairwise_append]
    refine ⟨hupper.ordered, hlower.ordered, fun left hleft right hright => ?_⟩
    have hbefore := (hupper.within left hleft).2
    have hbehind := (hlower.within right hright).1
    omega
  · intro entry hentry
    rcases List.mem_append.mp hentry with hleft | hright
    · exact (hupper.mono Nat.le.refl hstop).within entry hleft
    · exact (hlower.mono hstart Nat.le.refl).within entry hright

end Recorded

/-- Where every label has a line, the definitions stand one below the other. -/
theorem recorded_labels (hline : ∀ label, (manner.dialect.labelLine? label).isSome = true) :
    (∀ spot node, Recorded (ofNode manner spot node).labels spot.position
      (spot.position + (ofNode manner spot node).lines.length)) ∧
    ∀ spot nodes, Recorded (ofNodes manner spot nodes).labels spot.position
      (spot.position + (ofNodes manner spot nodes).lines.length) := by
  refine emission_induction manner (fun spot node hchildren => ?_) (fun spot => ?_)
    (fun spot node nodes hfirst hrest => ?_)
  · have hown :
        Recorded ((usedLabel? manner node.label).map (·, spot.position)).toList spot.position
        (inside manner spot node).position := by
      rw [inside_position, openingLines, labelLines_eq, definition?, List.length_append]
      cases usedLabel? manner node.label with
      | none => exact Recorded.nil _ _
      | some label =>
        obtain ⟨line, hline⟩ := Option.isSome_iff_exists.mp (hline label)
        refine ⟨List.pairwise_singleton _ _, List.forall_mem_singleton.mpr ⟨Nat.le.refl, ?_⟩⟩
        rw [Option.bind_some, hline]
        change spot.position < spot.position + (1 + _)
        omega
    have hinner : Recorded (inner manner spot node).labels (inside manner spot node).position
        ((inside manner spot node).position + (inner manner spot node).lines.length) := by
      rw [inner]
      split
      · exact hchildren
      · exact Recorded.nil _ _
    have hposition := inside_position manner spot node
    rw [ofNode_labels, ofNode_lines, List.length_append, List.length_append]
    refine (hown.append hinner ?_ ?_).mono Nat.le.refl ?_ <;> omega
  · rw [ofNodes_nil]
    exact Recorded.nil _ _
  · rw [ofNodes_cons, List.length_append]
    rw [behind_position] at hrest
    refine (hfirst.append hrest ?_ ?_).mono Nat.le.refl ?_ <;> omega

/-- The definition of a visited node stands at its position. -/
theorem getElem?_lines_of_mem_visits {spot : Spot} {node : Node} {visit : Visit} {text : String}
    (hvisit : visit ∈ visits manner spot node) (htext : definition? manner visit.node = some text) :
    ∃ position, visit.spot.position = spot.position + position ∧
      (ofNode manner spot node).lines[position]? = some { depth := visit.spot.depth, text } := by
  obtain ⟨before, after, hlines, hposition⟩ := (lines_of_visits manner).1 spot node visit hvisit
  refine ⟨before.length, hposition, ?_⟩
  rw [hlines, Visit.piece, ofNode_lines, openingLines, labelLines_eq, htext]
  simp [linesAt]

end Piece

/-! ### The definitions on a page -/

/-- Whether a page defines the labels that nodes carry and jumps use, one line for each such node,
and no other label. -/
structure Dialect.DefinesCarried (dialect : Dialect) (program : Program) : Prop where
  /-- One record for each node that carries a label which a jump uses. -/
  recorded : (dialect.writeProgram program).labels.map (·.1)
    = program.root.walk.filterMap fun node => node.label.filter fun label =>
      program.root.referencedLabels.contains label
  /-- Different records are about different lines. -/
  ordered : (dialect.writeProgram program).labels.Pairwise fun upper lower => upper.2 < lower.2
  /-- The line of a record defines its label. -/
  defined : ∀ entry ∈ (dialect.writeProgram program).labels, ∃ line,
    (dialect.writeProgram program).lines[entry.2]? = some line ∧
    dialect.labelLine? entry.1 = some line.text
  /-- A name is defined by as many lines as there are nodes that carry it if a jump uses it, and by
  none otherwise. -/
  counted : ∀ label, Text.IsName label →
    (dialect.writeProgram program).lines.countP
      (fun line => dialect.labelLine? label == some line.text)
      = if label ∈ program.root.referencedLabels
        then program.root.walk.countP (·.label == some label) else 0

namespace Dialect.JumpsToNames

open Piece

variable {dialect : Dialect} {mark : String} (h : dialect.JumpsToNames mark) {program : Program}

include h

theorem lines_writeProgram :
    (dialect.writeProgram program).lines = linesAt 0 (dialect.preamble program)
      ++ (ofNode (dialect.firstManner program) (dialect.firstSpot program) program.root).lines
      ++ linesAt 0 (dialect.postamble program) := by
  rw [h.writeProgram_eq]
  rfl

theorem labels_writeProgram :
    (dialect.writeProgram program).labels
      = (ofNode (dialect.firstManner program) (dialect.firstSpot program) program.root).labels := by
  rw [h.writeProgram_eq]
  rfl

theorem definition?_firstManner (node : Node) :
    definition? (dialect.firstManner program) node
      = (usedLabel? (dialect.firstManner program) node.label).map (· ++ mark) := by
  have hline : (dialect.firstManner program).dialect.labelLine? = fun label =>
      some (label ++ mark) :=
    funext h.labelLine?
  rw [definition?, hline]
  cases usedLabel? (dialect.firstManner program) node.label <;> rfl

/-- A node writes the line that defines a label exactly if it carries the label and a jump uses
it. -/
theorem definition?_eq_some (node : Node) (label : String) :
    (definition? (dialect.firstManner program) node == some (label ++ mark))
      = (program.root.referencedLabels.contains label && node.label == some label) := by
  rw [h.definition?_firstManner, Bool.eq_iff_iff]
  simp only [usedLabel?, firstManner, beq_iff_eq, Option.map_eq_some_iff, Option.filter_eq_some_iff,
    Bool.and_eq_true, String.append_left_inj]
  grind

/-- The line of a recorded label defines it. -/
theorem exists_line_of_mem_labels {entry : String × Nat}
    (hentry : entry ∈ (dialect.writeProgram program).labels) :
    ∃ line, (dialect.writeProgram program).lines[entry.2]? = some line ∧
      dialect.labelLine? entry.1 = some line.text := by
  rw [h.labels_writeProgram, labels_eq_flatMap_visits] at hentry
  obtain ⟨visit, hvisit, hentry⟩ := List.mem_flatMap.mp hentry
  rw [Option.mem_toList, Visit.label?, Option.map_eq_some_iff] at hentry
  obtain ⟨label, hlabel, rfl⟩ := hentry
  have htext : definition? (dialect.firstManner program) visit.node = some (label ++ mark) := by
    rw [h.definition?_firstManner, hlabel, Option.map_some]
  obtain ⟨position, hposition, hline⟩ := getElem?_lines_of_mem_visits hvisit htext
  refine ⟨{ depth := visit.spot.depth, text := label ++ mark }, ?_, h.labelLine? label⟩
  have hlength :
      position < (ofNode (dialect.firstManner program)
        (dialect.firstSpot program) program.root).lines.length :=
    (List.getElem?_eq_some_iff.mp hline).1
  have hstart :
      (dialect.firstSpot program).position = (linesAt 0 (dialect.preamble program)).length := rfl
  rw [h.lines_writeProgram, hposition, hstart, List.append_assoc,
    List.getElem?_append_right (Nat.le_add_right _ _), Nat.add_sub_cancel_left,
    List.getElem?_append_left hlength]
  exact hline

/-- A name is defined once for each node that is written and carries it, if a jump uses it. -/
theorem countP_lines_writeProgram (htells : dialect.TellsDefinitions)
    (hmark : Text.isBroken mark = false) (hcolon : ':' ∈ mark.toList) {label : String}
    (hname : Text.IsName label) :
    (dialect.writeProgram program).lines.countP (·.text == label ++ mark)
      = ((visits (dialect.firstManner program) (dialect.firstSpot program) program.root).map
        (·.node)).countP fun node =>
        program.root.referencedLabels.contains label && node.label == some label := by
  have hother {line : String} (hline : Text.isOther line = true) : line ≠ label ++ mark :=
    Text.ne_append_of_isOther hline hname hmark hcolon
  have hrendered (spot : Spot) (node : Node) :
      ∀ line ∈ (renderedAt (dialect.firstManner program) spot node).opening
        ++ (renderedAt (dialect.firstManner program) spot node).closing, line ≠ label ++ mark :=
    fun line hline => hother (htells.render _ node line hline)
  rw [h.lines_writeProgram, List.countP_append, List.countP_append, (countP_lines hrendered).1,
    countP_linesAt_eq_zero fun line hline => hother (htells.preamble program line hline),
    countP_linesAt_eq_zero fun line hline => hother (htells.postamble program line hline),
    List.countP_map]
  simp only [h.definition?_eq_some, Function.comp_def, Nat.zero_add, Nat.add_zero]

/-- A dialect that jumps to names and has no other lines that look like definitions defines what
nodes carry. -/
theorem definesCarried (htree : program.root.IsTree) (htells : dialect.TellsDefinitions)
    (hmark : Text.isBroken mark = false) (hcolon : ':' ∈ mark.toList) :
    dialect.DefinesCarried program where
  recorded := by
    rw [h.labels_writeProgram, labels_eq_flatMap_visits, ← h.map_node_visits_root htree,
      List.filterMap_map, List.map_flatMap, List.filterMap_eq_flatMap_toList]
    congr 1
    funext visit
    rw [Visit.label?, Function.comp_apply, ← Option.toList_map, Option.map_map]
    exact congrArg Option.toList Option.map_id'
  ordered := by
    have hline (label : String) : ((dialect.firstManner program).dialect.labelLine? label).isSome
        = true := by
      change (dialect.labelLine? label).isSome = true
      rw [h.labelLine?]
      rfl
    rw [h.labels_writeProgram]
    exact ((recorded_labels hline).1 _ _).ordered
  defined entry hentry := h.exists_line_of_mem_labels hentry
  counted label hname := by
    have htext : (fun line : PageLine => dialect.labelLine? label == some line.text)
        = (·.text == label ++ mark) := by
      funext line
      rw [h.labelLine?, Bool.eq_iff_iff, beq_iff_eq, beq_iff_eq, Option.some_inj]
      exact eq_comm
    rw [htext, h.countP_lines_writeProgram htells hmark hcolon hname, h.map_node_visits_root htree]
    split
    · rename_i hreferenced
      simp only [Std.ExtTreeSet.contains_iff_mem.mpr hreferenced, Bool.true_and]
    · rename_i hreferenced
      simp [hreferenced]

end Dialect.JumpsToNames

/-! ### The labels of a program -/

namespace Node

/-- Whether a statement or a group of statements was built from an address. -/
def StandsAt (address : Address) (node : Node) : Prop :=
  node.kind ≠ .program ∧ node.kind ≠ .function ∧ node.address = some address

theorem site?_eq_some_iff {node : Node} {address : Address} :
    node.site? = some address ↔ node.StandsAt address := by
  rw [site?, StandsAt, NodeKind.carriesLabel]
  split
  · rename_i hkind
    simp only [Bool.and_eq_true, bne_iff_ne] at hkind
    simp [hkind]
  · rename_i hkind
    simp only [Bool.and_eq_true, bne_iff_ne] at hkind
    simp only [reduceCtorEq, false_iff]
    exact fun h => hkind ⟨h.1, h.2.1⟩

end Node

namespace Program

/-- Whether an instruction is a jump or a branch to an address. -/
def JumpsTo (address : Address) (i : Instruction) : Prop :=
  i.mnemonic ≠ .jsr ∧ i.mnemonic.isControlFlow = true ∧ i.operand = .absolute address

theorem jumpTarget?_eq_some_iff {i : Instruction} {address : Address} :
    i.jumpTarget? = some address ↔ JumpsTo address i := by
  rw [Operation.jumpTarget?, Operation.target?, JumpsTo]
  cases i.operand <;> simp

theorem isName_codeName_resolve (candidates : Candidates) (sources : Sources) (address : Address) :
    Text.IsName ((SymbolTable.resolve candidates sources).codeName address) := by
  rw [SymbolTable.codeName]
  split
  · rename_i hname
    exact SymbolTable.isName_of_name?_resolve candidates sources hname
  · split
    · exact isName_generatedName? (show Role.generatedName? address .subroutine = some _ from rfl)
    · exact isName_generatedName? (show Role.generatedName? address .label = some _ from rfl)

end Program

end Lift6502
