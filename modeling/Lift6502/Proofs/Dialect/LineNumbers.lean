import Lift6502.Dialect.Target
import Lift6502.Proofs.Dialect.Classic
import Lift6502.Proofs.Machine.Maps
import Lift6502.Proofs.Routine.Programs

/-!
# Jumps to line numbers

A program in numbered BASIC is written twice, and the second pass takes its line numbers from the
first. Both have the same layout, so the numbers are right: each jump of a program that was built
goes to the line it is meant for, which is there, and only a label or a routine that the program
does not have is left as a name. Numbers that are counted up in thirty-two bits are the same as long
as there are fewer than 429496729 lines.
-/

namespace Lift6502

/-- A written node, and the positions of its lines. -/
structure Placed where
  node : Node
  span : Span

namespace Classic

variable (program : Program)

/-- The written nodes of a program with their lines, in document order. -/
def placed : List Placed :=
  List.zipWith Placed.mk (dialect.written program.root) (dialect.writeProgram program).spans

/-- The text of the line at a position. -/
def textAt (position : Nat) : Option String :=
  (dialect.writeProgram program).lines[position]?.map (·.text)

/-- How a jump names the line at a position. -/
def lineName (position : Nat) : String := Text.decimal (Page.lineNumber position)

/-- The target of a jump to a label is the first line of a node that carries it; only a label that
no node carries stays. -/
def LeadsToLabel (label target : String) : Prop :=
  (∃ carrier ∈ placed program, carrier.node.label = some label ∧
    carrier.span.start < carrier.span.stop ∧
    carrier.span.stop ≤ (dialect.writeProgram program).lines.length ∧
    target = lineName carrier.span.start) ∨
  target = label ∧ (label = "" ∨ ∀ other ∈ placed program, other.node.label ≠ some label)

/-- The target of a call is the heading of a routine of that name; only a routine that is not there
keeps its name. -/
def LeadsToRoutine (name target : String) : Prop :=
  (∃ routine ∈ placed program, routine.node.kind = .function ∧ routine.node.value = name ∧
    textAt program routine.span.start = some (heading routine.node) ∧
    target = lineName routine.span.start) ∨
  target = name ∧ ∀ other ∈ placed program, other.node.kind = .function → other.node.value ≠ name

/-- The target of a case that leaves its switch is the line behind the switch, which is there. -/
def LeavesSwitch (part : Placed) (target : String) : Prop :=
  ∃ switch ∈ placed program, switch.node.kind = .switch ∧ part.node ∈ switch.node.children ∧
    switch.span.start ≤ part.span.start ∧ part.span.stop ≤ switch.span.stop ∧
    switch.span.stop < (dialect.writeProgram program).lines.length ∧
    target = lineName switch.span.stop

/-- The assignments that pass the arguments of a call. -/
def passedArguments (node : Node) : List String :=
  node.params.zipIdx.map fun (argument, slot) => "P" ++ Text.decimal (slot + 1) ++ " = "
    ++ spelling.read argument

/-- Every line number that is written for a node is the number of the line that it is meant for. -/
def Resolved (part : Placed) : Prop :=
  match part.node.kind with
  | .whileLoop =>
    textAt program part.span.start
      = some (conditionalJump (spelling.inverted part.node.params) (lineName part.span.stop)) ∧
    textAt program (part.span.stop - 1) = some ("GOTO " ++ lineName part.span.start) ∧
    part.span.start + 1 < part.span.stop ∧
    part.span.stop < (dialect.writeProgram program).lines.length
  | .doUntil =>
    textAt program (part.span.stop - 1)
      = some (conditionalJump (spelling.inverted part.node.params) (lineName part.span.start)) ∧
    part.span.start < part.span.stop
  | .ifGoto => ∃ target, LeadsToLabel program part.node.value target ∧
    textAt program part.span.start
      = some (conditionalJump (spelling.condition part.node.params) target)
  | .goto => ∃ target, LeadsToLabel program part.node.value target ∧
    textAt program part.span.start
      = some (if part.node.params.isEmpty then "GOTO " ++ target
        else conditionalJump (spelling.condition part.node.params) target)
  | .case =>
    ∃ subject constant action target, part.node.params = [subject, constant] ∧
      part.node.children = [action] ∧
    textAt program part.span.start
      = some (conditionalJump (spelling.read subject ++ " = " ++ spelling.read constant) target) ∧
    (action.kind = .goto ∧ LeadsToLabel program action.value target ∨
      action.kind = .exitSwitch ∧ LeavesSwitch program part target)
  | .subCall => ∃ target, LeadsToRoutine program part.node.value target ∧
    textAt program part.span.start
      = some (": ".intercalate (passedArguments part.node ++ ["GOSUB " ++ target]))
  | .exitSwitch => False
  | _ => True

/-! ### Both passes -/

/-- Where the root of a program goes. -/
def rootSpot : Spot := { position := (Piece.linesAt 0 (dialect.preamble program)).length }

theorem sameLayout_pass (known : Option Layout) :
    Piece.SameLayout (dialect.pass program known) (dialect.pass program none) := by
  have hsteady : (mannerOf program.root.referencedLabels none).dialect.Steady := steady
  have hsame := (Piece.sameLayout_known hsteady known).1 (rootSpot program) program.root
  refine ⟨?_, hsame.spans, hsame.labels, hsame.routines⟩
  have hlines := hsame.lines
  simp only [Dialect.pass, List.length_append, Nat.add_right_cancel_iff, Nat.add_left_cancel_iff]
  exact hlines

/-- Whatever line numbers are known, a program has the same layout. -/
theorem layout_pass (known : Option Layout) :
    (dialect.pass program known).layout = (dialect.pass program none).layout := by
  have hsame := sameLayout_pass program known
  rw [Piece.layout, Piece.layout, hsame.spans, hsame.labels, hsame.routines]

/-- How a program is written in the end. -/
def finalManner : Manner :=
  mannerOf program.root.referencedLabels (some (dialect.pass program none).layout)

def finalVisits : List Visit := Piece.visits (finalManner program) (rootSpot program) program.root

def finalBody : Piece := Piece.ofNode (finalManner program) (rootSpot program) program.root

theorem writeProgram_lines :
    (dialect.writeProgram program).lines
      = Piece.linesAt 0 (dialect.preamble program) ++ (finalBody program).lines := by
  change Piece.linesAt 0 (dialect.preamble program) ++ (finalBody program).lines ++ [] = _
  rw [List.append_nil]

theorem writeProgram_spans : (dialect.writeProgram program).spans
    = (finalVisits program).map (Visit.span (finalManner program)) :=
  Piece.spans_eq_map_visits (finalManner program) (rootSpot program) program.root

/-- The layout that the second pass goes by is its own. -/
theorem layout_eq_finalBody : (dialect.pass program none).layout = (finalBody program).layout :=
  (layout_pass program (some (dialect.pass program none).layout)).symm

theorem placed_eq_map_finalVisits :
    placed program = (finalVisits program).map fun visit =>
      { node := visit.node, span := visit.span (finalManner program) } := by
  have hsteady : (finalManner program).dialect.Steady := steady
  have hwritten : dialect.written program.root = (finalVisits program).map (·.node) :=
    ((Piece.map_node_visits_eq_written hsteady).1 (rootSpot program) program.root).symm
  rw [placed, writeProgram_spans, hwritten, List.zipWith_map, List.zipWith_self]

variable {program} {visit : Visit}

theorem mem_placed (h : visit ∈ finalVisits program) :
    { node := visit.node, span := visit.span (finalManner program) } ∈ placed program := by
  rw [placed_eq_map_finalVisits]
  exact List.mem_map_of_mem h

/-- The lines of a visited node stand on the page from its position on. -/
theorem lines_eq_of_mem (h : visit ∈ finalVisits program) :
    ∃ before after,
      (dialect.writeProgram program).lines
        = before ++ (visit.piece (finalManner program)).lines ++ after ∧
      before.length = visit.spot.position := by
  obtain ⟨before, after, hlines, hposition⟩ :=
    (Piece.lines_of_visits (finalManner program)).1 _ _ visit h
  refine ⟨Piece.linesAt 0 (dialect.preamble program) ++ before, after, ?_, ?_⟩
  · rw [writeProgram_lines, finalBody, hlines]
    simp only [List.append_assoc]
  · rw [List.length_append, hposition]
    rfl

theorem stop_le_length (h : visit ∈ finalVisits program) :
    (visit.span (finalManner program)).stop ≤ (dialect.writeProgram program).lines.length := by
  obtain ⟨before, after, hlines, hposition⟩ := lines_eq_of_mem h
  rw [hlines]
  simp only [Visit.span, List.length_append]
  omega

theorem textAt_start (h : visit ∈ finalVisits program) {line : PageLine} {rest : List PageLine}
    (hlines : (visit.piece (finalManner program)).lines = line :: rest) :
    textAt program (visit.span (finalManner program)).start = some line.text := by
  obtain ⟨before, after, hpage, hposition⟩ := lines_eq_of_mem h
  rw [textAt, hpage, hlines]
  simp [Visit.span, ← hposition]

theorem textAt_last (h : visit ∈ finalVisits program) {line : PageLine} {front : List PageLine}
    (hlines : (visit.piece (finalManner program)).lines = front ++ [line]) :
    textAt program ((visit.span (finalManner program)).stop - 1) = some line.text := by
  obtain ⟨before, after, hpage, hposition⟩ := lines_eq_of_mem h
  have hstop : (visit.span (finalManner program)).stop - 1 = (before ++ front).length := by
    rw [Visit.span, hlines]
    simp only [List.length_append, List.length_singleton]
    omega
  rw [textAt, hpage, hlines, hstop]
  simp

/-- The layout knows the span of every visited node by its index. -/
theorem span_of_mem (h : visit ∈ finalVisits program) :
    (dialect.pass program none).layout.spans[visit.spot.index]?
      = some (visit.span (finalManner program)) := by
  obtain ⟨count, hcount⟩ := List.getElem?_of_mem h
  have hindex : visit.spot.index = count := by
    rw [(Piece.index_of_visits (finalManner program)).1 _ _ count visit hcount]
    exact Nat.zero_add count
  rw [layout_eq_finalBody, Piece.layout, finalBody, Piece.spans_eq_map_visits, hindex]
  simp only [List.getElem?_toArray, List.getElem?_map]
  change Option.map _ (finalVisits program)[count]? = _
  rw [hcount]
  rfl

theorem places_start (h : visit ∈ finalVisits program) :
    (Piece.placesAt (finalManner program) visit.spot).start
      = some (Page.lineNumber (visit.span (finalManner program)).start) := by
  change Option.map Page.lineNumber (Option.map _
      (dialect.pass program none).layout.spans[visit.spot.index]?) = _
  rw [span_of_mem h]
  rfl

theorem places_stop (h : visit ∈ finalVisits program) :
    (Piece.placesAt (finalManner program) visit.spot).stop
      = some (Page.lineNumber (visit.span (finalManner program)).stop) := by
  change Option.map Page.lineNumber (Option.map _
      (dialect.pass program none).layout.spans[visit.spot.index]?) = _
  rw [span_of_mem h]
  rfl

theorem places_switchStop {switch : Visit} (h : switch ∈ finalVisits program)
    (hswitch : visit.spot.switch = some switch.spot.index) :
    (Piece.placesAt (finalManner program) visit.spot).switchStop
      = some (Page.lineNumber (switch.span (finalManner program)).stop) := by
  change Option.map Page.lineNumber (visit.spot.switch.bind fun index =>
    Option.map _ (dialect.pass program none).layout.spans[index]?) = _
  rw [hswitch, Option.bind_some, span_of_mem h]
  rfl

/-! ### Labels and routines -/

theorem labelLines_eq_nil (manner : Manner) (hdialect : manner.dialect = dialect) (spot : Spot)
    (node : Node) : Piece.labelLines manner spot node = [] := by
  have hnone : ∀ label, manner.dialect.labelLine? label = none := by
    rw [hdialect]
    exact fun _ => rfl
  rw [Piece.labelLines]
  cases Piece.usedLabel? manner node.label with
  | none => rfl
  | some label =>
    rw [Option.bind_some, hnone]
    rfl

/-- The lines of a node in numbered BASIC are those that it renders, around those of its
children. -/
theorem piece_lines (visit : Visit) :
    (visit.piece (finalManner program)).lines
      = Piece.linesAt visit.spot.depth (render (Piece.placesAt (finalManner program) visit.spot)
        visit.node).opening
        ++ (Piece.inner (finalManner program) visit.spot visit.node).lines
        ++ Piece.linesAt visit.spot.depth
          (render (Piece.placesAt (finalManner program) visit.spot) visit.node).closing := by
  rw [Visit.piece, Piece.ofNode_lines, Piece.openingLines,
    labelLines_eq_nil (finalManner program) rfl]
  rfl

theorem textAt_opening (h : visit ∈ finalVisits program) {text : String}
    (hopening : (render (Piece.placesAt (finalManner program) visit.spot) visit.node).opening
      = [text]) :
    textAt program (visit.span (finalManner program)).start = some text := by
  have hlines : (visit.piece (finalManner program)).lines = _ := piece_lines visit
  rw [hopening] at hlines
  exact textAt_start h hlines

theorem textAt_closing (h : visit ∈ finalVisits program) {text : String}
    (hclosing : (render (Piece.placesAt (finalManner program) visit.spot) visit.node).closing
      = [text]) :
    textAt program ((visit.span (finalManner program)).stop - 1) = some text := by
  have hlines : (visit.piece (finalManner program)).lines = _ := piece_lines visit
  rw [hclosing] at hlines
  exact textAt_last h hlines

/-- What is written of a program, and where it stands. -/
inductive Standing (program : Program) (visit : Visit) : Prop where
  | root (hnode : visit.node = program.root)
  | routine (hroutine : visit.node.IsRoutine)
  | item (routine : Visit) (hroutine : routine ∈ finalVisits program) (hitem : visit.node.IsItem)
    (hstop : visit.node.kind = .whileLoop ∨ visit.node.kind = .switch →
      (visit.span (finalManner program)).stop < (routine.span (finalManner program)).stop)
  | line (hline : visit.node.IsLine)
  | case (switch : Visit) (hswitch : switch ∈ finalVisits program)
    (hkind : switch.node.kind = .switch) (hcase : visit.node.IsCase)
    (hchild : visit.node ∈ switch.node.children)
    (hspot : visit.spot.switch = some switch.spot.index)
    (hvisit : visit ∈ Piece.visits (finalManner program) switch.spot switch.node)

theorem standing (htree : program.root.IsTree) (h : visit ∈ finalVisits program) :
    Standing program visit := by
  rcases visits_isTree _ _ _ htree h with rfl | hroutine | ⟨routine, before, item, after,
    hstands, hvisit⟩
  · exact .root rfl
  · exact .routine hroutine
  · rcases visits_isItem _ _ _ hstands.isItem hvisit with
      rfl | hline | ⟨hcase, hswitch, hchild, hspot⟩
    · exact .item routine hstands.mem_routine hstands.isItem (hstands.stop_lt _ _)
    · exact .line hline
    · exact .case item hstands.mem_item hswitch hcase hchild hspot hvisit

/-- Of the program everything that is written has a line, apart from the program itself. -/
theorem start_lt_stop (htree : program.root.IsTree) (h : visit ∈ finalVisits program)
    (hroot : visit.node ≠ program.root) :
    (visit.span (finalManner program)).start < (visit.span (finalManner program)).stop := by
  have hpos : 0 < (visit.piece (finalManner program)).lines.length := by
    cases standing htree h with
    | root hnode => exact absurd hnode hroot
    | routine hroutine => exact lines_pos_of_isRoutine _ _ _ hroutine
    | item _ _ hitem _ => exact lines_pos_of_isItem _ _ _ hitem
    | line hline => exact lines_pos_of_frame _ _ _ (frame_of_isLine hline)
    | case _ _ _ hcase _ _ _ => exact lines_pos_of_frame _ _ _ (frame_of_isCase hcase)
  simp only [Visit.span]
  omega

theorem mem_labels_finalBody {label : String} {position : Nat} :
    (label, position) ∈ (finalBody program).labels ↔ ∃ visit ∈ finalVisits program,
      Piece.usedLabel? (finalManner program) visit.node.label = some label ∧
      visit.spot.position = position := by
  rw [finalBody, Piece.labels_eq_flatMap_visits, List.mem_flatMap]
  simp only [Option.mem_toList, Visit.label?, Option.map_eq_some_iff, Prod.mk.injEq, finalVisits]
  constructor
  · rintro ⟨visit, hvisit, _, hlabel, rfl, hposition⟩
    exact ⟨visit, hvisit, hlabel, hposition⟩
  · rintro ⟨visit, hvisit, hlabel, hposition⟩
    exact ⟨visit, hvisit, label, hlabel, rfl, hposition⟩

theorem leadsToLabel (htree : program.root.IsTree) (hroot : program.root.label = none)
    {label : String} (hlabel : label ≠ "" → label ∈ program.root.referencedLabels) (spot : Spot) :
    LeadsToLabel program label (jumpTarget (Piece.placesAt (finalManner program) spot) label) := by
  have hplaces : (Piece.placesAt (finalManner program) spot).label label
      = (finalBody program).layout.labels[label]?.map Page.lineNumber := by
    rw [← layout_eq_finalBody]
    rfl
  rw [jumpTarget, hplaces]
  cases hfound : (finalBody program).layout.labels[label]? with
  | some position =>
    obtain ⟨carrier, hcarrier, hused, rfl⟩ :=
      mem_labels_finalBody.mp (mem_of_getElem?_ofList hfound)
    have hcarries : carrier.node.label = some label := (Option.filter_eq_some_iff.mp hused).1
    refine Or.inl ⟨_, mem_placed hcarrier, hcarries, start_lt_stop htree hcarrier ?_,
      stop_le_length hcarrier, rfl⟩
    intro hnode
    rw [hnode, hroot] at hcarries
    cases hcarries
  | none =>
    -- The layout has the labels that jumps name, and a jump without a label names none.
    refine Or.inr ⟨rfl, ?_⟩
    by_cases hempty : label = ""
    · exact Or.inl hempty
    · right
      intro other hother hcarries
      rw [placed_eq_map_finalVisits] at hother
      obtain ⟨carrier, hcarrier, rfl⟩ := List.mem_map.mp hother
      have hused : Piece.usedLabel? (finalManner program) carrier.node.label = some label := by
        have hcarries : carrier.node.label = some label := hcarries
        rw [Piece.usedLabel?, hcarries, Option.filter_some]
        exact if_pos (Std.ExtTreeSet.contains_iff_mem.mpr (hlabel hempty))
      exact not_mem_of_getElem?_ofList hfound _
        (mem_labels_finalBody.mpr ⟨carrier, hcarrier, hused, rfl⟩)

theorem mem_routines_finalBody {name : String} {position : Nat} :
    (name, position) ∈ (finalBody program).routines ↔ ∃ visit ∈ finalVisits program,
      visit.node.kind = .function ∧ visit.node.value = name ∧ visit.spot.position = position := by
  have hroutine (visit : Visit) : visit.routine? (finalManner program) = some (name, position) ↔
      visit.node.kind = .function ∧ visit.node.value = name ∧ visit.spot.position = position := by
    rw [Visit.routine?, labelLines_eq_nil (finalManner program) rfl]
    by_cases hkind : visit.node.kind = .function <;> simp [hkind]
  rw [finalBody, Piece.routines_eq_flatMap_visits, List.mem_flatMap]
  simp only [Option.mem_toList, hroutine, finalVisits]

theorem leadsToRoutine (name : String) (spot : Spot) :
    LeadsToRoutine program name
      (((Piece.placesAt (finalManner program) spot).routine name).map Text.decimal
        |>.getD name) := by
  have hplaces : (Piece.placesAt (finalManner program) spot).routine name
      = (finalBody program).layout.routines[name]?.map Page.lineNumber := by
    rw [← layout_eq_finalBody]
    rfl
  rw [hplaces]
  cases hfound : (finalBody program).layout.routines[name]? with
  | some position =>
    obtain ⟨routine, hroutine, hkind, hname, rfl⟩ :=
      mem_routines_finalBody.mp (mem_of_getElem?_ofList hfound)
    refine Or.inl ⟨_, mem_placed hroutine, hkind, hname, ?_, rfl⟩
    have hopening :
        (render (Piece.placesAt (finalManner program) routine.spot) routine.node).opening
          = [heading routine.node] := by
      rw [render, hkind]
      rfl
    exact textAt_opening hroutine hopening
  | none =>
    refine Or.inr ⟨rfl, fun other hother hkind hname => ?_⟩
    rw [placed_eq_map_finalVisits] at hother
    obtain ⟨routine, hroutine, rfl⟩ := List.mem_map.mp hother
    exact not_mem_of_getElem?_ofList hfound _
      (mem_routines_finalBody.mpr ⟨routine, hroutine, hkind, hname, rfl⟩)

/-! ### Jumps -/

/-- A line always follows a loop or a switch. -/
theorem stop_lt_length (htree : program.root.IsTree) (h : visit ∈ finalVisits program)
    (hkind : visit.node.kind = .whileLoop ∨ visit.node.kind = .switch) :
    (visit.span (finalManner program)).stop < (dialect.writeProgram program).lines.length := by
  cases standing htree h with
  | root hnode =>
    rw [hnode, htree.kind] at hkind
    simp at hkind
  | routine hroutine =>
    rw [hroutine.kind] at hkind
    simp at hkind
  | item routine hroutine _ hstop =>
    exact Nat.lt_of_lt_of_le (hstop hkind) (stop_le_length hroutine)
  | line hline =>
    have hline := hline.kind
    rcases hkind with hkind | hkind <;> rw [hkind] at hline <;> cases hline
  | case _ _ _ hcase _ _ _ =>
    rw [hcase.kind] at hkind
    simp at hkind

theorem resolved_whileLoop (htree : program.root.IsTree) (h : visit ∈ finalVisits program)
    (hkind : visit.node.kind = .whileLoop) :
    Resolved program { node := visit.node, span := visit.span (finalManner program) } := by
  rw [Resolved, hkind]
  refine ⟨textAt_opening h ?_, textAt_closing h ?_, ?_, stop_lt_length htree h (Or.inl hkind)⟩
  · rw [render, hkind, places_stop h]
    rfl
  · rw [render, hkind, places_start h]
    rfl
  · have hlines : (visit.piece (finalManner program)).lines = _ := piece_lines visit
    simp only [Visit.span]
    rw [hlines]
    simp [render, hkind, Piece.linesAt, Rendered.level]

theorem resolved_doUntil (htree : program.root.IsTree) (h : visit ∈ finalVisits program)
    (hkind : visit.node.kind = .doUntil) :
    Resolved program { node := visit.node, span := visit.span (finalManner program) } := by
  rw [Resolved, hkind]
  refine ⟨textAt_closing h ?_, start_lt_stop htree h ?_⟩
  · rw [render, hkind, places_start h]
    rfl
  · intro hroot
    rw [hroot, htree.kind] at hkind
    cases hkind

/-- The target of a jump that stands anywhere in the tree. -/
theorem leadsToLabel_of_mem_walk (htree : program.root.IsTree) (hroot : program.root.label = none)
    {node : Node} (hnode : node ∈ program.root.walk)
    (hkind : node.kind = .goto ∨ node.kind = .ifGoto) (spot : Spot) :
    LeadsToLabel program node.value
      (jumpTarget (Piece.placesAt (finalManner program) spot) node.value) := by
  refine leadsToLabel htree hroot (fun hvalue => ?_) spot
  rw [Node.referencedLabels, Std.ExtTreeSet.mem_ofList, List.contains_iff_mem]
  refine List.mem_map_of_mem (List.mem_filter.mpr ⟨hnode, ?_⟩)
  rcases hkind with hkind | hkind <;> simp [hkind, hvalue]

theorem mem_walk (h : visit ∈ finalVisits program) : visit.node ∈ program.root.walk :=
  (Piece.mem_walk_of_visits (finalManner program)).1 (rootSpot program) program.root visit h

theorem resolved_ifGoto (htree : program.root.IsTree) (hroot : program.root.label = none)
    (h : visit ∈ finalVisits program) (hkind : visit.node.kind = .ifGoto) :
    Resolved program { node := visit.node, span := visit.span (finalManner program) } := by
  rw [Resolved, hkind]
  refine ⟨_, leadsToLabel_of_mem_walk htree hroot (mem_walk h) (Or.inr hkind) visit.spot,
    textAt_opening h ?_⟩
  rw [render, hkind]
  rfl

theorem resolved_goto (htree : program.root.IsTree) (hroot : program.root.label = none)
    (h : visit ∈ finalVisits program) (hkind : visit.node.kind = .goto) :
    Resolved program { node := visit.node, span := visit.span (finalManner program) } := by
  rw [Resolved, hkind]
  refine ⟨_, leadsToLabel_of_mem_walk htree hroot (mem_walk h) (Or.inl hkind) visit.spot,
    textAt_opening h ?_⟩
  rw [render, hkind]
  simp only [goto]
  split <;> rfl

theorem resolved_subCall (h : visit ∈ finalVisits program) (hkind : visit.node.kind = .subCall) :
    Resolved program { node := visit.node, span := visit.span (finalManner program) } := by
  rw [Resolved, hkind]
  refine ⟨_, leadsToRoutine visit.node.value visit.spot, textAt_opening h ?_⟩
  rw [render, hkind]
  rfl

/-- An item is no case and leaves no switch. -/
theorem kind_of_isItem {node : Node} (h : node.IsItem) :
    node.kind ≠ .case ∧ node.kind ≠ .exitSwitch := by
  cases h with
  | line hline =>
    have hkind := hline.kind
    constructor <;> intro hcase <;> rw [hcase] at hkind <;> cases hkind
  | group hkind _ => constructor <;> intro hcase <;> rw [hcase] at hkind <;> cases hkind
  | chain hkind _ _ => rw [hkind]; simp
  | switch hkind _ _ => rw [hkind]; simp

/-- Whatever is written and is a case stands in its switch, and leaves it for the line behind. -/
theorem leavesSwitch (htree : program.root.IsTree) (h : visit ∈ finalVisits program)
    (hkind : visit.node.kind = .case) :
    visit.node.IsCase ∧
      LeavesSwitch program { node := visit.node, span := visit.span (finalManner program) }
        (lineOrZero (Piece.placesAt (finalManner program) visit.spot).switchStop) := by
  cases standing htree h with
  | root hnode =>
    rw [hnode, htree.kind] at hkind
    cases hkind
  | routine hroutine => cases hroutine.kind.symm.trans hkind
  | item _ _ hitem _ => exact absurd hkind (kind_of_isItem hitem).1
  | line hline => exact absurd hkind (kind_of_isItem (.line hline)).1
  | case switch hswitch hkind hcase hchild hspot hvisit =>
    obtain ⟨front, back, hlines, hposition⟩ :=
      (Piece.lines_of_visits (finalManner program)).1 _ _ visit hvisit
    have hlength := congrArg List.length hlines
    simp only [List.length_append] at hlength
    refine ⟨hcase, _, mem_placed hswitch, hkind, hchild, ?_, ?_,
      stop_lt_length htree hswitch (Or.inr hkind), ?_⟩
    · simp only [Visit.span]
      omega
    · simp only [Visit.span, Visit.piece] at hlength ⊢
      omega
    · rw [places_switchStop hswitch hspot]
      rfl

theorem resolved_case (htree : program.root.IsTree) (hroot : program.root.label = none)
    (h : visit ∈ finalVisits program) (hkind : visit.node.kind = .case) :
    Resolved program { node := visit.node, span := visit.span (finalManner program) } := by
  obtain ⟨hcase, hleaves⟩ := leavesSwitch htree h hkind
  obtain ⟨subject, constant, hparams⟩ := hcase.params
  obtain ⟨action, hchildren, -, haction⟩ := hcase.action
  have hmem : action ∈ program.root.walk :=
    Node.mem_walk_of_mem_children (mem_walk h)
      (by rw [hchildren]; exact List.mem_singleton_self action)
  rw [Resolved, hkind]
  rcases haction with haction | haction
  · refine ⟨subject, constant, action, _, hparams, hchildren, textAt_opening h ?_,
      Or.inl ⟨haction, leadsToLabel_of_mem_walk htree hroot hmem (Or.inl haction) visit.spot⟩⟩
    simp only [render, hkind, caseTest, hparams, hchildren, List.head?_cons, haction]
    rfl
  · refine ⟨subject, constant, action, _, hparams, hchildren, textAt_opening h ?_,
      Or.inr ⟨haction, hleaves⟩⟩
    simp only [render, hkind, caseTest, hparams, hchildren, List.head?_cons, haction]
    rfl

/-- What leaves a switch is written by its case, never on its own. -/
theorem kind_ne_exitSwitch (htree : program.root.IsTree) (h : visit ∈ finalVisits program) :
    visit.node.kind ≠ .exitSwitch := by
  cases standing htree h with
  | root hnode =>
    rw [hnode, htree.kind]
    simp
  | routine hroutine =>
    rw [hroutine.kind]
    simp
  | item _ _ hitem _ => exact (kind_of_isItem hitem).2
  | line hline => exact (kind_of_isItem (.line hline)).2
  | case _ _ _ hcase _ _ _ =>
    rw [hcase.kind]
    simp

theorem resolved_of_mem_placed (htree : program.root.IsTree) (hroot : program.root.label = none)
    {part : Placed} (h : part ∈ placed program) : Resolved program part := by
  rw [placed_eq_map_finalVisits] at h
  obtain ⟨visit, hvisit, rfl⟩ := List.mem_map.mp h
  cases hkind : visit.node.kind
  case whileLoop => exact resolved_whileLoop htree hvisit hkind
  case doUntil => exact resolved_doUntil htree hvisit hkind
  case ifGoto => exact resolved_ifGoto htree hroot hvisit hkind
  case goto => exact resolved_goto htree hroot hvisit hkind
  case case => exact resolved_case htree hroot hvisit hkind
  case subCall => exact resolved_subCall hvisit hkind
  case exitSwitch => exact absurd hkind (kind_ne_exitSwitch htree hvisit)
  all_goals
    rw [Resolved, hkind]
    trivial

/-- Both passes over a program agree on where everything is, its lines are numbered in tens, and
every line number in a program that was built is the number of the line that it is meant for. -/
theorem line_numbers_resolved :
    (∀ program, (dialect.writeProgram program).layout = (dialect.pass program none).layout) ∧
    (∀ program : Program, program.root.kind = .program →
      ∃ rendering, program.render .classicBasic = .ok rendering ∧
      rendering.text
        = String.join ((dialect.writeProgram program).lines.zipIdx.map fun (line, position) =>
        Text.decimal (10 * (position + 1)) ++ " " ++ line.text ++ "\n")) ∧
    ∀ symbols blocks, ∀ part ∈ placed (Program.build symbols blocks), Resolved
      (Program.build symbols blocks) part := by
  refine ⟨fun program => layout_pass program _, fun program hkind =>
    ⟨_, if_neg (not_not_intro hkind), ?_⟩, fun symbols blocks part hpart => ?_⟩
  · have hnumber (position : Nat) : Page.lineNumber position = 10 * (position + 1) := by
      simp only [Page.lineNumber, Page.firstNumber, Page.numberStep]
      omega
    simp only [Page.text, Page.lineText, hnumber]
    rfl
  · exact resolved_of_mem_placed (Program.isTree_build symbols blocks)
      (Program.label_build symbols blocks) hpart

theorem waitingLoop_resolved :
    let program := Program.build {} (Block.partition Routine.waitingLoop)
    program.root.kind = .program ∧ (∃ rendering, program.render .classicBasic = .ok rendering) ∧
    ∃ part ∈ placed program, part.node.kind = .whileLoop ∧ part.span = { start := 3, stop := 7 } ∧
    Resolved program part := by
  obtain ⟨_, hrender, hresolved⟩ := line_numbers_resolved
  have hkind : (Program.build {} (Block.partition Routine.waitingLoop)).root.kind = .program := by
    decide +kernel
  have hloop : (placed (Program.build {} (Block.partition Routine.waitingLoop))).any
      (fun part => part.node.kind == .whileLoop && part.span == { start := 3, stop := 7 })
        = true := by
    decide +kernel
  obtain ⟨part, hpart, hfound⟩ := List.any_eq_true.mp hloop
  obtain ⟨rendering, hok, _⟩ := hrender _ hkind
  simp only [Bool.and_eq_true, beq_iff_eq] at hfound
  exact ⟨hkind, ⟨rendering, hok⟩, part, hpart, hfound.1, hfound.2, hresolved _ _ part hpart⟩

end Classic

/-! ### Numbers of thirty-two bits -/

namespace Page

/-- The number of the next line behind some lines, counted up in thirty-two bits. -/
def counter : Nat → UInt32
  | 0 => UInt32.ofNat firstNumber
  | count + 1 => counter count + UInt32.ofNat numberStep

theorem toNat_counter (count : Nat) : (counter count).toNat = lineNumber count % 4294967296 := by
  induction count with
  | zero => rfl
  | succ count ih =>
    have hstep : (UInt32.ofNat numberStep).toNat = 10 := rfl
    have hnext : lineNumber (count + 1) = lineNumber count + 10 := by
      simp only [lineNumber, numberStep]
      omega
    rw [counter, UInt32.toNat_add, ih, hstep, hnext]
    omega

/-- Thirty-two bits hold the number of the next line exactly behind fewer than 429496729 lines. -/
theorem toNat_counter_eq_iff {count : Nat} :
    (counter count).toNat = lineNumber count ↔ count < 429496729 := by
  rw [toNat_counter, lineNumber, firstNumber, numberStep]
  omega

end Page

namespace Classic

variable {program : Program}

/-- Lines before and behind which a written node stands are lines of its page. -/
theorem span_le_length {part : Placed} (h : part ∈ placed program) :
    part.span.start ≤ part.span.stop ∧
      part.span.stop ≤ (dialect.writeProgram program).lines.length := by
  rw [placed_eq_map_finalVisits] at h
  obtain ⟨visit, hvisit, rfl⟩ := List.mem_map.mp h
  exact ⟨Nat.le_add_right _ _, stop_le_length hvisit⟩

/-- A program of fewer than 429496729 lines is numbered as thirty-two bits number it, and so are the
lines that its jumps can name. -/
theorem numbers_fit (h : (dialect.writeProgram program).lines.length < 429496729) :
    Page.text true (dialect.writeProgram program).lines
        = String.join ((dialect.writeProgram program).lines.zipIdx.map fun (line, position) =>
          Text.decimal (Page.counter position).toNat ++ " " ++ line.text ++ "\n") ∧
      ∀ part ∈ placed program,
        lineName part.span.start = Text.decimal (Page.counter part.span.start).toNat ∧
          lineName part.span.stop = Text.decimal (Page.counter part.span.stop).toNat := by
  constructor
  · refine congrArg String.join (List.map_congr_left ?_)
    rintro ⟨line, position⟩ hline
    have hposition := (List.mem_zipIdx hline).2.1
    rw [Nat.zero_add] at hposition
    simp only [Page.lineText, if_true]
    rw [Page.toNat_counter_eq_iff.mpr (hposition.trans h)]
  · intro part hpart
    obtain ⟨hstart, hstop⟩ := span_le_length hpart
    have hlast := Nat.lt_of_le_of_lt hstop h
    have hfirst := Nat.lt_of_le_of_lt hstart hlast
    rw [lineName, lineName, Page.toNat_counter_eq_iff.mpr hfirst,
      Page.toNat_counter_eq_iff.mpr hlast]
    exact ⟨rfl, rfl⟩

end Classic

end Lift6502
