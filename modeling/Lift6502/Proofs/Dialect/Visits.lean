import Lift6502.Dialect.Emission
import Lift6502.Proofs.Tree.Walk

/-!
# Which nodes are written, and where

Writing a program visits its nodes in document order and hands each one the spot where it goes. The
list of these visits says everything that is known about the output: the spans, labels and routines
are read off it in order, the index of a node counts the visits before it, and the lines of a
visited node stand at its position on the page.
-/

namespace Lift6502

/-- A node that is written, and the spot where it goes. -/
structure Visit where
  node : Node
  spot : Spot

namespace Piece

section Node

variable (manner : Manner) (spot : Spot) (node : Node)

/-- What is known of line numbers at a spot. -/
def placesAt : Places :=
  (manner.known.map fun layout => layout.places spot.index spot.switch).getD {}

def renderedAt : Rendered := manner.dialect.render (placesAt manner spot) node

def labelLines : List PageLine :=
  linesAt spot.depth ((usedLabel? manner node.label).bind manner.dialect.labelLine?).toList

/-- The lines in front of the children of a node. -/
def openingLines : List PageLine :=
  labelLines manner spot node ++ linesAt spot.depth (renderedAt manner spot node).opening

/-- The lines behind the children of a node. -/
def closingLines : List PageLine := linesAt spot.depth (renderedAt manner spot node).closing

/-- Where the first child of a node goes. -/
def inside : Spot :=
  { position := spot.position + (openingLines manner spot node).length
    index := spot.index + 1
    depth := if (renderedAt manner spot node).indented then spot.depth + 1 else spot.depth
    switch := if node.kind = .switch then some spot.index else spot.switch }

theorem inside_position :
    (inside manner spot node).position = spot.position + (openingLines manner spot node).length :=
  rfl

theorem inside_index : (inside manner spot node).index = spot.index + 1 :=
  rfl

/-- What the children of a node contribute. -/
def inner : Piece :=
  if (renderedAt manner spot node).descend
    then ofNodes manner (inside manner spot node) node.children else {}

theorem ofNode_lines :
    (ofNode manner spot node).lines
      = openingLines manner spot node ++ (inner manner spot node).lines
        ++ closingLines manner spot node := by
  cases node
  rw [ofNode]
  rfl

theorem ofNode_spans :
    (ofNode manner spot node).spans
      = { start := spot.position, stop := spot.position + (ofNode manner spot node).lines.length }
        :: (inner manner spot node).spans := by
  cases node
  rw [ofNode]
  rfl

theorem ofNode_labels :
    (ofNode manner spot node).labels
      = ((usedLabel? manner node.label).map (·, spot.position)).toList
        ++ (inner manner spot node).labels := by
  cases node
  rw [ofNode]
  rfl

theorem ofNode_routines :
    (ofNode manner spot node).routines
      = (if node.kind = .function
        then [(node.value, spot.position + (labelLines manner spot node).length)] else [])
        ++ (inner manner spot node).routines := by
  cases node
  rw [ofNode]
  rfl

end Node

/-- Where the node behind a piece goes. -/
def behind (spot : Spot) (piece : Piece) : Spot :=
  { spot with
    position := spot.position + piece.lines.length
    index := spot.index + piece.spans.length }

theorem behind_position (spot : Spot) (piece : Piece) :
    (behind spot piece).position = spot.position + piece.lines.length :=
  rfl

theorem behind_index (spot : Spot) (piece : Piece) :
    (behind spot piece).index = spot.index + piece.spans.length :=
  rfl

theorem ofNodes_nil (manner : Manner) (spot : Spot) : ofNodes manner spot [] = {} := by
  rw [ofNodes]

theorem ofNodes_cons (manner : Manner) (spot : Spot) (node : Node) (nodes : List Node) :
    ofNodes manner spot (node :: nodes)
      = { lines := (ofNode manner spot node).lines
            ++ (ofNodes manner (behind spot (ofNode manner spot node)) nodes).lines
          spans := (ofNode manner spot node).spans
            ++ (ofNodes manner (behind spot (ofNode manner spot node)) nodes).spans
          labels := (ofNode manner spot node).labels
            ++ (ofNodes manner (behind spot (ofNode manner spot node)) nodes).labels
          routines := (ofNode manner spot node).routines
            ++ (ofNodes manner (behind spot (ofNode manner spot node)) nodes).routines } := by
  rw [ofNodes]
  rfl

theorem behind_cons (manner : Manner) (spot : Spot) (node : Node) (nodes : List Node) :
    behind spot (ofNodes manner spot (node :: nodes))
      = behind (behind spot (ofNode manner spot node))
        (ofNodes manner (behind spot (ofNode manner spot node)) nodes) := by
  rw [ofNodes_cons]
  simp only [behind, List.length_append, Nat.add_assoc]

/-! ### Visits -/

mutual

/-- The nodes that are written for a node, in document order. -/
def visits (manner : Manner) (spot : Spot) : Node → List Visit
  | ⟨kind, children, value, label, params, address⟩ =>
    let node : Node := ⟨kind, children, value, label, params, address⟩
    { node, spot } ::
      if (renderedAt manner spot node).descend then visitsAll manner
        (inside manner spot node) children else []

/-- The nodes that are written for several nodes. -/
def visitsAll (manner : Manner) (spot : Spot) : List Node → List Visit
  | [] => []
  | node :: nodes =>
    visits manner spot node ++ visitsAll manner (behind spot (ofNode manner spot node)) nodes

end

theorem visits_eq (manner : Manner) (spot : Spot) (node : Node) :
    visits manner spot node = { node, spot } ::
      if (renderedAt manner spot node).descend then visitsAll manner
        (inside manner spot node) node.children else [] := by
  cases node
  rw [visits]

theorem visitsAll_nil (manner : Manner) (spot : Spot) : visitsAll manner spot [] = [] := by
  rw [visitsAll]

theorem visitsAll_cons (manner : Manner) (spot : Spot) (node : Node) (nodes : List Node) :
    visitsAll manner spot (node :: nodes)
      = visits manner spot node
        ++ visitsAll manner (behind spot (ofNode manner spot node)) nodes := by
  rw [visitsAll]

/-- What holds of a node as soon as it holds of its children, and of several nodes as soon as it
holds of the first and of the others behind it, holds wherever something is written. -/
theorem emission_induction (manner : Manner) {motive : Spot → Node → Prop}
    {motives : Spot → List Node → Prop}
    (hnode : ∀ spot node, motives (inside manner spot node) node.children → motive spot node)
    (hnil : ∀ spot, motives spot [])
    (hcons : ∀ spot node nodes, motive spot node →
      motives (behind spot (ofNode manner spot node)) nodes → motives spot (node :: nodes)) :
    (∀ spot node, motive spot node) ∧ ∀ spot nodes, motives spot nodes := by
  have hlist (nodes : List Node) (h : ∀ node ∈ nodes, ∀ spot, motive spot node) :
      ∀ spot, motives spot nodes := by
    induction nodes with
    | nil => exact hnil
    | cons node nodes ih =>
      obtain ⟨hfirst, hrest⟩ := List.forall_mem_cons.mp h
      exact fun spot => hcons spot node nodes (hfirst spot) (ih hrest _)
  have hall (node : Node) : ∀ spot, motive spot node := by
    induction node using Node.induction with
    | step node ih => exact fun spot => hnode spot node (hlist node.children ih _)
  exact ⟨fun spot node => hall node spot, fun spot nodes =>
    hlist nodes (fun node _ => hall node) spot⟩

end Piece

namespace Visit

variable (manner : Manner) (visit : Visit)

/-- What the visited node contributes. -/
def piece : Piece := Piece.ofNode manner visit.spot visit.node

def span : Span :=
  { start := visit.spot.position, stop := visit.spot.position + (visit.piece manner).lines.length }

/-- The label that the visited node defines, and where. -/
def label? : Option (String × Nat) :=
  (Piece.usedLabel? manner visit.node.label).map (·, visit.spot.position)

/-- The routine that the visited node opens, and where. -/
def routine? : Option (String × Nat) :=
  if visit.node.kind = .function then
    some (visit.node.value,
      visit.spot.position + (Piece.labelLines manner visit.spot visit.node).length)
  else none

end Visit

namespace Piece

variable (manner : Manner)

/-- The visits below a node. -/
def visitsBelow (spot : Spot) (node : Node) : List Visit :=
  if (renderedAt manner spot node).descend then
    visitsAll manner (inside manner spot node) node.children
  else []

theorem visits_cons (spot : Spot) (node : Node) :
    visits manner spot node = { node, spot } :: visitsBelow manner spot node :=
  visits_eq manner spot node

/-- What every node adds to a list of the output is read off the visits in order. -/
private theorem field_eq_flatMap_visits {α : Type} (field : Piece → List α) (own : Visit → List α)
    (hempty : field {} = [])
    (hnode : ∀ spot node,
      field (ofNode manner spot node) = own { node, spot } ++ field (inner manner spot node))
    (hcons : ∀ spot node nodes,
      field (ofNodes manner spot (node :: nodes))
        = field (ofNode manner spot node)
          ++ field (ofNodes manner (behind spot (ofNode manner spot node)) nodes)) :
    (∀ spot node, field (ofNode manner spot node) = (visits manner spot node).flatMap own) ∧
      ∀ spot nodes, field (ofNodes manner spot nodes)
        = (visitsAll manner spot nodes).flatMap own := by
  refine emission_induction manner (fun spot node hchildren => ?_) (fun spot => ?_)
    (fun spot node nodes hfirst hrest => ?_)
  · rw [hnode, visits_cons, List.flatMap_cons, inner, visitsBelow]
    split
    · rw [hchildren]
    · rw [hempty, List.flatMap_nil]
  · rw [ofNodes_nil, visitsAll_nil, hempty, List.flatMap_nil]
  · rw [hcons, visitsAll_cons, List.flatMap_append, hfirst, hrest]

/-- The lines of a node without those of its children. -/
def ownLines (visit : Visit) : List PageLine :=
  openingLines manner visit.spot visit.node ++ closingLines manner visit.spot visit.node

/-- Up to their order, the lines of a page are those of the visited nodes. -/
theorem lines_perm_visits :
    (∀ spot node, (ofNode manner spot node).lines.Perm
      ((visits manner spot node).flatMap (ownLines manner))) ∧
      ∀ spot nodes, (ofNodes manner spot nodes).lines.Perm
        ((visitsAll manner spot nodes).flatMap (ownLines manner)) := by
  refine emission_induction manner (fun spot node hchildren => ?_) (fun spot => ?_)
    (fun spot node nodes hfirst hrest => ?_)
  · have hinner : (inner manner spot node).lines.Perm
        ((visitsBelow manner spot node).flatMap (ownLines manner)) := by
      rw [inner, visitsBelow]
      split
      · exact hchildren
      · exact List.Perm.refl _
    rw [ofNode_lines, visits_cons, List.flatMap_cons, ownLines, List.append_assoc,
      List.append_assoc]
    exact ((hinner.append_right _).trans List.perm_append_comm).append_left _
  · rw [ofNodes_nil, visitsAll_nil]
    exact List.Perm.refl _
  · rw [ofNodes_cons, visitsAll_cons, List.flatMap_append]
    exact hfirst.append hrest

theorem spans_eq_map_visits (spot : Spot) (node : Node) :
    (ofNode manner spot node).spans = (visits manner spot node).map (Visit.span manner) := by
  rw [List.map_eq_flatMap]
  refine (field_eq_flatMap_visits manner spans _ rfl (fun spot node => ?_)
    (fun spot node nodes => ?_)).1 spot node
  · exact ofNode_spans manner spot node
  · rw [ofNodes_cons]

theorem labels_eq_flatMap_visits (spot : Spot) (node : Node) :
    (ofNode manner spot node).labels = (visits manner spot node).flatMap fun visit =>
      (visit.label? manner).toList := by
  refine (field_eq_flatMap_visits manner labels _ rfl (fun spot node => ?_)
    (fun spot node nodes => ?_)).1 spot node
  · exact ofNode_labels manner spot node
  · rw [ofNodes_cons]

theorem routines_eq_flatMap_visits (spot : Spot) (node : Node) :
    (ofNode manner spot node).routines = (visits manner spot node).flatMap fun visit =>
      (visit.routine? manner).toList := by
  refine (field_eq_flatMap_visits manner routines _ rfl (fun spot node => ?_)
    (fun spot node nodes => ?_)).1 spot node
  · rw [ofNode_routines, Visit.routine?]
    split <;> rfl
  · rw [ofNodes_cons]

theorem length_spans (spot : Spot) (node : Node) :
    (ofNode manner spot node).spans.length = (visits manner spot node).length := by
  rw [spans_eq_map_visits, List.length_map]

/-- Visits are counted by their index. -/
theorem index_of_visits :
    (∀ spot node (count : Nat) (visit : Visit), (visits manner spot node)[count]? = some visit →
      visit.spot.index = spot.index + count) ∧
    ∀ spot nodes (count : Nat) (visit : Visit), (visitsAll manner spot nodes)[count]? = some visit →
      visit.spot.index = spot.index + count := by
  refine emission_induction manner (fun spot node hchildren count visit h => ?_)
    (fun spot count visit h => ?_)
    (fun spot node nodes hfirst hrest count visit h => ?_)
  · rw [visits_cons] at h
    cases count with
    | zero =>
      obtain rfl := Option.some.inj h
      rfl
    | succ count =>
      rw [List.getElem?_cons_succ, visitsBelow] at h
      split at h
      · rw [hchildren count visit h, inside_index]
        omega
      · cases h
  · rw [visitsAll_nil] at h
    cases h
  · rw [visitsAll_cons, List.getElem?_append] at h
    split at h
    · exact hfirst count visit h
    · rw [hrest _ visit h, behind_index, length_spans]
      omega

/-- The lines of a visited node stand at its position among all lines. -/
theorem lines_of_visits :
    (∀ spot node, ∀ visit ∈ visits manner spot node, ∃ before after,
      (ofNode manner spot node).lines = before ++ (visit.piece manner).lines ++ after ∧
        visit.spot.position = spot.position + before.length) ∧
    ∀ spot nodes, ∀ visit ∈ visitsAll manner spot nodes, ∃ before after,
      (ofNodes manner spot nodes).lines = before ++ (visit.piece manner).lines ++ after ∧
        visit.spot.position = spot.position + before.length := by
  refine emission_induction manner (fun spot node hchildren visit h => ?_) (fun spot visit h => ?_)
    (fun spot node nodes hfirst hrest visit h => ?_)
  · rw [visits_cons] at h
    rcases List.mem_cons.mp h with rfl | hbelow
    · exact ⟨[], [], by simp [Visit.piece], rfl⟩
    · rw [visitsBelow] at hbelow
      split at hbelow
      · rename_i hdescend
        obtain ⟨before, after, hlines, hposition⟩ := hchildren visit hbelow
        refine ⟨openingLines manner spot node ++ before,
          after ++ closingLines manner spot node, ?_, ?_⟩
        · rw [ofNode_lines, inner, if_pos hdescend, hlines]
          simp only [List.append_assoc]
        · rw [hposition, inside_position, List.length_append]
          omega
      · cases hbelow
  · rw [visitsAll_nil] at h
    cases h
  · rw [visitsAll_cons] at h
    rcases List.mem_append.mp h with hmem | hmem
    · obtain ⟨before, after, hlines, hposition⟩ := hfirst visit hmem
      refine ⟨before, after ++ (ofNodes manner (behind spot (ofNode manner spot node)) nodes).lines,
        ?_, hposition⟩
      rw [ofNodes_cons, hlines, List.append_assoc]
    · obtain ⟨before, after, hlines, hposition⟩ := hrest visit hmem
      refine ⟨(ofNode manner spot node).lines ++ before, after, ?_, ?_⟩
      · rw [ofNodes_cons, hlines]
        simp only [List.append_assoc]
      · rw [hposition, behind_position, List.length_append]
        omega

/-- What is written for a visited node is written. -/
theorem visits_subset_of_mem :
    (∀ spot node, ∀ visit ∈ visits manner spot node, visits manner visit.spot visit.node
      ⊆ visits manner spot node) ∧
      ∀ spot nodes, ∀ visit ∈ visitsAll manner spot nodes,
        visits manner visit.spot visit.node ⊆ visitsAll manner spot nodes := by
  refine emission_induction manner (fun spot node hchildren visit h => ?_) (fun spot visit h => ?_)
    (fun spot node nodes hfirst hrest visit h => ?_)
  · rw [visits_cons] at h
    rcases List.mem_cons.mp h with rfl | hbelow
    · exact List.Subset.refl _
    · rw [visits_cons manner spot node]
      rw [visitsBelow] at hbelow ⊢
      split at hbelow
      · rename_i hdescend
        rw [if_pos hdescend]
        exact List.subset_cons_of_subset _ (hchildren visit hbelow)
      · cases hbelow
  · rw [visitsAll_nil] at h
    cases h
  · rw [visitsAll_cons] at h ⊢
    rcases List.mem_append.mp h with hmem | hmem
    · exact List.subset_append_of_subset_left _ (hfirst visit hmem)
    · exact List.subset_append_of_subset_right _ (hrest visit hmem)

/-- A visit for several nodes is one for some node behind the nodes before it. -/
theorem exists_of_mem_visitsAll {spot : Spot} {nodes : List Node} {visit : Visit}
    (h : visit ∈ visitsAll manner spot nodes) :
    ∃ before node after, nodes = before ++ node :: after ∧
      visit ∈ visits manner (behind spot (ofNodes manner spot before)) node ∧
      { node, spot := behind spot (ofNodes manner spot before) } ∈ visitsAll manner spot nodes := by
  induction nodes generalizing spot with
  | nil =>
    rw [visitsAll_nil] at h
    cases h
  | cons node nodes ih =>
    rw [visitsAll_cons] at h ⊢
    rcases List.mem_append.mp h with hmem | hmem
    · have hspot : behind spot (ofNodes manner spot []) = spot := by
        rw [ofNodes_nil]
        rfl
      refine ⟨[], node, nodes, rfl, ?_, List.mem_append_left _ ?_⟩
      · rw [hspot]
        exact hmem
      · rw [hspot, visits_cons]
        exact List.mem_cons_self
    · obtain ⟨before, other, after, rfl, hvisit, hother⟩ := ih hmem
      refine ⟨node :: before, other, after, rfl, ?_, List.mem_append_right _ ?_⟩
      · rw [behind_cons]
        exact hvisit
      · rw [behind_cons]
        exact hother

theorem ofNodes_append_lines (spot : Spot) (before after : List Node) :
    (ofNodes manner spot (before ++ after)).lines
      = (ofNodes manner spot before).lines
        ++ (ofNodes manner (behind spot (ofNodes manner spot before)) after).lines := by
  induction before generalizing spot with
  | nil =>
    rw [ofNodes_nil]
    rfl
  | cons node nodes ih =>
    rw [behind_cons, List.cons_append, ofNodes_cons, ofNodes_cons]
    simp only [ih, List.append_assoc]

/-- Only nodes of the tree are written. -/
theorem mem_walk_of_visits :
    (∀ spot node, ∀ visit ∈ visits manner spot node, visit.node ∈ node.walk) ∧
      ∀ spot nodes, ∀ visit ∈ visitsAll manner spot nodes, visit.node ∈ Node.walkAll nodes := by
  refine emission_induction manner (fun spot node hchildren visit h => ?_) (fun spot visit h => ?_)
    (fun spot node nodes hfirst hrest visit h => ?_)
  · rw [Node.walk_eq]
    rw [visits_cons] at h
    rcases List.mem_cons.mp h with rfl | hbelow
    · exact List.mem_cons_self
    · rw [visitsBelow] at hbelow
      split at hbelow
      · exact List.mem_cons_of_mem node (hchildren visit hbelow)
      · cases hbelow
  · rw [visitsAll_nil] at h
    cases h
  · rw [Node.walkAll_cons]
    rw [visitsAll_cons] at h
    rcases List.mem_append.mp h with hmem | hmem
    · exact List.mem_append_left _ (hfirst visit hmem)
    · exact List.mem_append_right _ (hrest visit hmem)

/-- Whether a node leaves out nothing below it, wherever it is written. -/
def WritesChildren (node : Node) : Prop :=
  ∀ spot, (renderedAt manner spot node).descend = true ∨ node.children = []

/-- Where every node writes its children, the whole tree is written. -/
theorem map_node_visits :
    (∀ spot node, (∀ part ∈ node.walk, WritesChildren manner part) →
      (visits manner spot node).map (·.node) = node.walk) ∧
      ∀ spot nodes, (∀ part ∈ Node.walkAll nodes, WritesChildren manner part) →
        (visitsAll manner spot nodes).map (·.node) = Node.walkAll nodes := by
  refine emission_induction manner (fun spot node hchildren h => ?_) (fun spot _ => ?_)
    (fun spot node nodes hfirst hrest h => ?_)
  · rw [Node.walk_eq] at h ⊢
    obtain ⟨hself, hbelow⟩ := List.forall_mem_cons.mp h
    rw [visits_cons, List.map_cons, visitsBelow]
    split
    · rw [hchildren hbelow]
    · rename_i hdescend
      rw [(hself spot).resolve_left hdescend, Node.walkAll_nil, List.map_nil]
  · rw [visitsAll_nil, Node.walkAll_nil, List.map_nil]
  · rw [Node.walkAll_cons] at h ⊢
    obtain ⟨hnode, hnodes⟩ := List.forall_mem_append.mp h
    rw [visitsAll_cons, List.map_append, hfirst hnode, hrest hnodes]

/-! ### Lines that keep their number -/

end Piece

/-- How many lines a node has around its children, and how they are written. -/
def Rendered.frame (rendered : Rendered) : Nat × Nat × Bool × Bool :=
  (rendered.opening.length, rendered.closing.length, rendered.descend, rendered.indented)

/-- A dialect in which line numbers change what lines say, but not which lines there are. -/
def Dialect.Steady (dialect : Dialect) : Prop :=
  ∀ places node, (dialect.render places node).frame = (dialect.render {} node).frame

mutual

/-- The nodes that a dialect writes for a node, in document order. -/
def Dialect.written (dialect : Dialect) : Node → List Node
  | ⟨kind, children, value, label, params, address⟩ =>
    let node : Node := ⟨kind, children, value, label, params, address⟩
    node :: if (dialect.render {} node).descend then dialect.writtenAll children else []

/-- The nodes that a dialect writes for several nodes. -/
def Dialect.writtenAll (dialect : Dialect) : List Node → List Node
  | [] => []
  | node :: nodes => dialect.written node ++ dialect.writtenAll nodes

end

namespace Piece

/-- Two pieces of which only the texts of the lines may differ. -/
structure SameLayout (piece other : Piece) : Prop where
  lines : piece.lines.length = other.lines.length
  spans : piece.spans = other.spans
  labels : piece.labels = other.labels
  routines : piece.routines = other.routines

section Steady

variable {manner : Manner} (hsteady : manner.dialect.Steady) (known : Option Layout)

include hsteady

private theorem frame_renderedAt (spot : Spot) (node : Node) :
    (renderedAt { manner with known } spot node).frame = (renderedAt manner spot node).frame := by
  rw [renderedAt, hsteady, renderedAt, hsteady (placesAt manner spot)]

private theorem length_openingLines (spot : Spot) (node : Node) :
    (openingLines { manner with known } spot node).length
      = (openingLines manner spot node).length := by
  have hopening : (renderedAt { manner with known } spot node).opening.length
      = (renderedAt manner spot node).opening.length :=
    congrArg (·.1) (frame_renderedAt hsteady known spot node)
  rw [openingLines, openingLines, List.length_append, List.length_append, linesAt, linesAt,
    List.length_map, List.length_map, hopening]
  rfl

private theorem length_closingLines (spot : Spot) (node : Node) :
    (closingLines { manner with known } spot node).length
      = (closingLines manner spot node).length := by
  have hclosing : (renderedAt { manner with known } spot node).closing.length
      = (renderedAt manner spot node).closing.length :=
    congrArg (·.2.1) (frame_renderedAt hsteady known spot node)
  rw [closingLines, closingLines, linesAt, linesAt, List.length_map, List.length_map, hclosing]

private theorem descend_renderedAt (spot : Spot) (node : Node) :
    (renderedAt { manner with known } spot node).descend = (renderedAt manner spot node).descend :=
  congrArg (·.2.2.1) (frame_renderedAt hsteady known spot node)

private theorem inside_known (spot : Spot) (node : Node) :
    inside { manner with known } spot node = inside manner spot node := by
  have hindented : (renderedAt { manner with known } spot node).indented
      = (renderedAt manner spot node).indented :=
    congrArg (·.2.2.2) (frame_renderedAt hsteady known spot node)
  rw [inside, inside, length_openingLines hsteady, hindented]

/-- In a steady dialect every pass over a program has the same layout. -/
theorem sameLayout_known :
    (∀ spot node, SameLayout (ofNode { manner with known } spot node) (ofNode manner spot node)) ∧
      ∀ spot nodes, SameLayout (ofNodes { manner with known } spot nodes)
        (ofNodes manner spot nodes) := by
  refine emission_induction manner (fun spot node hchildren => ?_) (fun spot => ?_)
    (fun spot node nodes hfirst hrest => ?_)
  · have hinner : SameLayout (inner { manner with known } spot node) (inner manner spot node) := by
      rw [inner, inner, descend_renderedAt hsteady, inside_known hsteady]
      split
      · exact hchildren
      · exact ⟨rfl, rfl, rfl, rfl⟩
    have hlines : (ofNode { manner with known } spot node).lines.length
        = (ofNode manner spot node).lines.length := by
      simp only [ofNode_lines, List.length_append, length_openingLines hsteady,
        length_closingLines hsteady, hinner.lines]
    refine ⟨hlines, ?_, ?_, ?_⟩
    · rw [ofNode_spans, ofNode_spans, hlines, hinner.spans]
    · rw [ofNode_labels, ofNode_labels, hinner.labels]
      rfl
    · rw [ofNode_routines, ofNode_routines, hinner.routines]
      rfl
  · rw [ofNodes_nil, ofNodes_nil]
    exact ⟨rfl, rfl, rfl, rfl⟩
  · have hbehind : behind spot (ofNode { manner with known } spot node)
        = behind spot (ofNode manner spot node) := by
      rw [behind, behind, hfirst.lines, hfirst.spans]
    rw [ofNodes_cons, ofNodes_cons, hbehind]
    refine ⟨?_, ?_, ?_, ?_⟩
    · rw [List.length_append, List.length_append, hfirst.lines, hrest.lines]
    · rw [hfirst.spans, hrest.spans]
    · rw [hfirst.labels, hrest.labels]
    · rw [hfirst.routines, hrest.routines]

/-- Every pass visits the same nodes. -/
theorem map_node_visits_eq_written :
    (∀ spot node, (visits manner spot node).map (·.node) = manner.dialect.written node) ∧
      ∀ spot nodes, (visitsAll manner spot nodes).map (·.node)
        = manner.dialect.writtenAll nodes := by
  refine emission_induction manner (fun spot node hchildren => ?_) (fun spot => ?_)
    (fun spot node nodes hfirst hrest => ?_)
  · have hdescend :
        (renderedAt manner spot node).descend = (manner.dialect.render {} node).descend :=
      congrArg (·.2.2.1) (hsteady (placesAt manner spot) node)
    rw [visits_cons, List.map_cons, visitsBelow, hdescend]
    cases node
    rw [Dialect.written]
    split
    · rw [hchildren]
    · rfl
  · rw [visitsAll_nil, Dialect.writtenAll, List.map_nil]
  · rw [visitsAll_cons, Dialect.writtenAll, List.map_append, hfirst, hrest]

end Steady

end Piece

end Lift6502
