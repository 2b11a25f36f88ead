import Lift6502.Dialect.Classic
import Lift6502.Proofs.Dialect.Visits
import Lift6502.Proofs.Routine.Items

/-!
# Lines of numbered BASIC

Which lines a node has does not depend on the line numbers that are written in them, so both passes
over a program have the same layout. In the trees that are built, everything that a label can be on
has a line, a loop or a switch is always followed by one, and every case stands in the switch that
it may leave.
-/

namespace Lift6502.Classic

open Piece (visits visitsAll visitsBelow ofNode ofNodes inside behind openingLines closingLines
  renderedAt)

/-- Line numbers change what lines say, not which lines there are. -/
theorem steady : dialect.Steady := by
  intro places node
  change (render places node).frame = (render {} node).frame
  unfold render
  split
  case h_7 =>
    unfold caseTest
    split <;> rfl
  case h_10 =>
    unfold goto
    simp only
    split <;> rfl
  all_goals rfl

variable {node : Node}

theorem frame_of_isLine (h : node.IsLine) (places : Places) :
    (render places node).frame = (1, 0, false, false) := by
  have hkind := h.kind
  unfold render
  cases hcase : node.kind <;> rw [hcase] at hkind <;> cases hkind
  case romCall =>
    simp only [romCall]
    split <;> rfl
  case goto =>
    simp only [goto]
    split <;> rfl
  case leave =>
    simp only [leave]
    split <;> rfl
  case assign | expr | globalVar | raw =>
    simp only [Spelling.statement, hcase]
    rfl
  all_goals rfl

theorem frame_of_isCase (h : node.IsCase) (places : Places) :
    (render places node).frame = (1, 0, false, false) := by
  obtain ⟨subject, constant, hparams⟩ := h.params
  simp only [render, h.kind, caseTest, hparams]
  rfl

/-- Groups have a line of their own. -/
theorem own_lines_of_isGroup (h : node.kind.isGroup = true) (places : Places) :
    0 < (render places node).opening.length + (render places node).closing.length := by
  unfold render
  cases hcase : node.kind <;> rw [hcase] at h <;> cases h
  case structDef | block =>
    simp only [Spelling.statement, hcase]
    exact Nat.succ_pos _
  all_goals exact Nat.succ_pos _

/-- How a program is written in numbered BASIC. -/
def mannerOf (used : NameSet) (known : Option Layout) : Manner := { dialect, used, known }

section Lines

variable (used : NameSet) (known : Option Layout) (spot : Spot)

theorem lines_pos_of_own
    (h : ∀ places, 0 < (render places node).opening.length + (render places node).closing.length) :
    0 < (ofNode (mannerOf used known) spot node).lines.length := by
  have hown := h (Piece.placesAt (mannerOf used known) spot)
  change 0 < (renderedAt (mannerOf used known) spot node).opening.length
    + (renderedAt (mannerOf used known) spot node).closing.length at hown
  rw [Piece.ofNode_lines, openingLines, closingLines]
  simp only [List.length_append, Piece.linesAt, List.length_map]
  omega

theorem lines_pos_of_frame {indented : Bool}
    (h : ∀ places, (render places node).frame = (1, 0, false, indented)) :
    0 < (ofNode (mannerOf used known) spot node).lines.length := by
  refine lines_pos_of_own used known spot fun places => ?_
  have hopening : (render places node).opening.length = 1 := congrArg (·.1) (h places)
  omega

/-- What holds children and writes nothing itself has the lines of its children. -/
theorem lines_pos_of_children (hdescend : ∀ places, (render places node).descend = true)
    (hnonempty : node.children ≠ [])
    (hchildren : ∀ child ∈ node.children, ∀ spot,
      0 < (ofNode (mannerOf used known) spot child).lines.length) :
    0 < (ofNode (mannerOf used known) spot node).lines.length := by
  obtain ⟨first, rest, hsplit⟩ := List.exists_cons_of_ne_nil hnonempty
  have hfirst := hchildren first (by simp [hsplit]) (inside (mannerOf used known) spot node)
  have hdescend : (renderedAt (mannerOf used known) spot node).descend = true := hdescend _
  rw [Piece.ofNode_lines, Piece.inner, if_pos hdescend, hsplit, Piece.ofNodes_cons]
  simp only [List.length_append]
  omega

/-- Whatever a routine holds has a line. -/
theorem lines_pos_of_isItem (h : node.IsItem) :
    0 < (ofNode (mannerOf used known) spot node).lines.length := by
  cases h with
  | line h => exact lines_pos_of_frame used known spot (frame_of_isLine h)
  | group hkind _ => exact lines_pos_of_own used known spot (own_lines_of_isGroup hkind)
  | chain hkind hnonempty hchildren =>
    refine lines_pos_of_children used known spot
      (fun places => ?_) hnonempty fun child hchild spot => ?_
    · simp only [render, hkind, Spelling.statement]
      rfl
    · exact lines_pos_of_frame used known spot (frame_of_isLine (hchildren child hchild))
  | switch hkind hnonempty hchildren =>
    refine lines_pos_of_children used known spot
      (fun places => ?_) hnonempty fun child hchild spot => ?_
    · simp only [render, hkind]
      rfl
    · exact lines_pos_of_frame used known spot (frame_of_isCase (hchildren child hchild))

theorem lines_pos_of_isRoutine (h : node.IsRoutine) :
    0 < (ofNode (mannerOf used known) spot node).lines.length := by
  refine lines_pos_of_own used known spot fun places => ?_
  have hheading : (function node).opening.length = 1 := rfl
  simp only [render, h.kind]
  omega

/-! ### What stands below an item -/

/-- Nodes that are written without their children. -/
theorem visitsAll_flat {nodes : List Node}
    (hflat : ∀ child ∈ nodes, ∀ places, (render places child).descend = false) {visit : Visit}
    (h : visit ∈ visitsAll (mannerOf used known) spot nodes) :
    visit.node ∈ nodes ∧ visit.spot.switch = spot.switch := by
  induction nodes generalizing spot with
  | nil =>
    rw [Piece.visitsAll_nil] at h
    cases h
  | cons first rest ih =>
    obtain ⟨hfirst, hrest⟩ := List.forall_mem_cons.mp hflat
    have hdescend : (renderedAt (mannerOf used known) spot first).descend = false := hfirst _
    rw [Piece.visitsAll_cons, Piece.visits_eq, hdescend] at h
    rcases List.mem_append.mp h with hmem | hmem
    · obtain rfl := List.mem_singleton.mp hmem
      exact ⟨List.mem_cons_self, rfl⟩
    · obtain ⟨hnode, hswitch⟩ := ih _ hrest hmem
      exact ⟨List.mem_cons_of_mem first hnode, hswitch⟩

/-- A visit for an item is the item itself, or a line or a case in it. -/
theorem visits_isItem (h : node.IsItem) {visit : Visit}
    (hvisit : visit ∈ visits (mannerOf used known) spot node) :
    visit = { node, spot } ∨ visit.node.IsLine ∨
      visit.node.IsCase ∧ node.kind = .switch ∧ visit.node ∈ node.children ∧
      visit.spot.switch = some spot.index := by
  rw [Piece.visits_cons] at hvisit
  rcases List.mem_cons.mp hvisit with rfl | hbelow
  · exact Or.inl rfl
  · right
    rw [visitsBelow] at hbelow
    split at hbelow
    · have hlines (hchildren : ∀ child ∈ node.children, child.IsLine) : visit.node.IsLine := by
        refine hchildren _ (visitsAll_flat used known _ (fun child hchild places => ?_) hbelow).1
        exact congrArg (·.2.2.1) (frame_of_isLine (hchildren child hchild) places)
      cases h with
      | line h => exact Or.inl (hlines fun child hchild => by rw [h.leaf] at hchild; cases hchild)
      | group _ hchildren => exact Or.inl (hlines hchildren)
      | chain _ _ hchildren => exact Or.inl (hlines hchildren)
      | switch hkind _ hchildren =>
        have hflat := visitsAll_flat used known _ (fun child hchild places =>
          congrArg (·.2.2.1) (frame_of_isCase (hchildren child hchild) places)) hbelow
        refine Or.inr ⟨hchildren _ hflat.1, hkind, hflat.1, ?_⟩
        rw [hflat.2, inside, hkind]
        rfl
    · cases hbelow

/-- Where an item stands: in a visited routine, behind the items before it. -/
structure Stands (top : List Visit) (routine : Visit) (before : List Node) (item : Visit)
    (after : List Node) : Prop where
  mem_routine : routine ∈ top
  isRoutine : routine.node.IsRoutine
  children : routine.node.children = before ++ item.node :: after
  spot : item.spot = behind (inside (mannerOf used known) routine.spot routine.node)
    (ofNodes (mannerOf used known) (inside (mannerOf used known) routine.spot routine.node) before)
  mem_item : item ∈ top
  isItem : item.node.IsItem

/-- Whatever is written of a program is the program, a routine, or belongs to an item of a
routine. -/
theorem visits_isTree {root : Node} (h : root.IsTree) {visit : Visit}
    (hvisit : visit ∈ visits (mannerOf used known) spot root) :
    visit = { node := root, spot } ∨ visit.node.IsRoutine ∨ ∃ routine before item after,
      Stands used known (visits (mannerOf used known) spot root) routine before item after ∧
      visit ∈ visits (mannerOf used known) item.spot item.node := by
  have hsubset := (Piece.visits_subset_of_mem (mannerOf used known)).1 spot root
  rw [Piece.visits_cons] at hvisit
  rcases List.mem_cons.mp hvisit with rfl | hbelow
  · exact Or.inl rfl
  · right
    have hroot :
        visitsBelow (mannerOf used known) spot root ⊆ visits (mannerOf used known) spot root := by
      rw [Piece.visits_cons]
      exact List.subset_cons_self _ _
    rw [visitsBelow] at hbelow hroot
    split at hbelow
    · rename_i hdescend
      rw [if_pos hdescend] at hroot
      obtain ⟨before, routine, after, hchildren, hvisit, hmem⟩ :=
        Piece.exists_of_mem_visitsAll _ hbelow
      have hroutine : routine.IsRoutine := h.routines routine (by simp [hchildren])
      have hmem := hroot hmem
      rw [Piece.visits_cons] at hvisit
      rcases List.mem_cons.mp hvisit with rfl | hbelow
      · exact Or.inl hroutine
      · right
        have hsub := hsubset _ hmem
        simp only at hsub
        rw [Piece.visits_cons] at hsub
        rw [visitsBelow] at hbelow hsub
        split at hbelow
        · rename_i hdescend
          rw [if_pos hdescend] at hsub
          obtain ⟨before, item, after, hchildren, hvisit, hitem⟩ :=
            Piece.exists_of_mem_visitsAll _ hbelow
          refine ⟨_, before, { node := item, spot := _ }, after,
            ⟨hmem, hroutine, hchildren, rfl, hsub (List.mem_cons_of_mem _ hitem), ?_⟩, hvisit⟩
          exact hroutine.items item (by simp [hchildren])
        · cases hbelow
    · cases hbelow

/-- A loop or a switch is never the last thing that a routine writes. -/
theorem Stands.stop_lt {top : List Visit} {routine item : Visit} {before after : List Node}
    (h : Stands used known top routine before item after)
    (hkind : item.node.kind = .whileLoop ∨ item.node.kind = .switch) :
    (item.span (mannerOf used known)).stop < (routine.span (mannerOf used known)).stop := by
  have hrendered : renderedAt (mannerOf used known) routine.spot routine.node
      = function routine.node := by
    change render _ routine.node = _
    rw [render, h.isRoutine.kind]
  have hdescend : (function routine.node).descend = true := rfl
  have hlines : (routine.piece (mannerOf used known)).lines.length
      = (openingLines (mannerOf used known) routine.spot routine.node).length
        + (ofNodes (mannerOf used known) (inside (mannerOf used known) routine.spot routine.node)
          before).lines.length
        + (item.piece (mannerOf used known)).lines.length
        + (ofNodes (mannerOf used known) (behind item.spot (item.piece (mannerOf used known)))
          after).lines.length
        + (function routine.node).closing.length := by
    rw [Visit.piece, Piece.ofNode_lines, Piece.inner, hrendered, closingLines, hrendered,
      if_pos hdescend, h.children, Piece.ofNodes_append_lines, Piece.ofNodes_cons, ← h.spot]
    simp only [List.length_append, Piece.linesAt, List.length_map, Visit.piece]
    omega
  have hmore :
      0 < (ofNodes (mannerOf used known) (behind item.spot (item.piece (mannerOf used known)))
        after).lines.length
      + (function routine.node).closing.length := by
    -- Either something follows, and then it has a line, or the routine falls off its end and a line
    -- closes it.
    cases after with
    | nil =>
      have hlast : routine.node.children.getLast? = some item.node := by simp [h.children]
      have hfalls : fallsOff routine.node = true := by
        rw [fallsOff, hlast]
        rcases hkind with hkind | hkind <;> simp [hkind]
      have hclosing : (function routine.node).closing.length = 1 := by
        simp [function, hfalls, Rendered.level]
      omega
    | cons next rest =>
      have hnext : next.IsItem := h.isRoutine.items next (by simp [h.children])
      have hpos :=
        lines_pos_of_isItem used known (behind item.spot (item.piece (mannerOf used known))) hnext
      rw [Piece.ofNodes_cons]
      simp only [List.length_append]
      omega
  have hposition := congrArg Spot.position h.spot
  rw [Piece.behind_position, Piece.inside_position] at hposition
  simp only [Visit.span]
  omega

end Lines

end Lift6502.Classic
