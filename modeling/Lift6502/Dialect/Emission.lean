import Lift6502.Dialect.Style

/-!
# Writing a program

A program is written in document order. What a node contributes is a list of lines, and beside them the
spans of the nodes, the labels that were defined and the routines that were opened. A label that no jump
names is left out. A dialect with line numbers is written twice, the second time with the layout that
the first time gave.
-/

namespace Lift6502

/-- Where the next node goes. -/
structure Spot where
  /-- The position of the next line. -/
  position : Nat
  /-- How many nodes come before it. -/
  index : Nat := 0
  depth : Nat := 0
  /-- The index of the innermost switch around it. -/
  switch : Option Nat := none

/-- What part of a program contributes to the output. -/
structure Piece where
  lines : List PageLine := []
  /-- The spans of all nodes that were written, in document order. -/
  spans : List Span := []
  labels : List (String × Nat) := []
  routines : List (String × Nat) := []

/-- How a program is written. -/
structure Manner where
  dialect : Dialect
  /-- The labels that jumps name. -/
  used : NameSet
  /-- The layout of an earlier pass. -/
  known : Option Layout

namespace Piece

/-- Lines at one depth. -/
def linesAt (depth : Nat) (texts : List String) : List PageLine := texts.map ({ depth, text := · })

/-- The label of a node, if a jump names it. -/
def usedLabel? (manner : Manner) (label : Option String) : Option String :=
  label.filter fun name => manner.used.contains name

mutual

/-- The part of the output that a node is. -/
def ofNode (manner : Manner) (spot : Spot) : Node → Piece
  | ⟨kind, children, value, label, params, address⟩ =>
    let label? := usedLabel? manner label
    let labelLines := linesAt spot.depth (label?.bind manner.dialect.labelLine?).toList
    let places := (manner.known.map fun layout => layout.places spot.index spot.switch).getD {}
    let rendered := manner.dialect.render places ⟨kind, children, value, label, params, address⟩
    let opening := labelLines ++ linesAt spot.depth rendered.opening
    let inner : Piece :=
      if rendered.descend then
        ofNodes manner
          { position := spot.position + opening.length
            index := spot.index + 1
            depth := if rendered.indented then spot.depth + 1 else spot.depth
            switch := if kind = .switch then some spot.index else spot.switch }
          children
      else {}
    let lines := opening ++ inner.lines ++ linesAt spot.depth rendered.closing
    { lines
      spans := { start := spot.position, stop := spot.position + lines.length } :: inner.spans
      labels := (label?.map (·, spot.position)).toList ++ inner.labels
      routines :=
        (if kind = .function then [(value, spot.position + labelLines.length)] else [])
          ++ inner.routines }

/-- The part of the output that several nodes are. -/
def ofNodes (manner : Manner) (spot : Spot) : List Node → Piece
  | [] => {}
  | node :: nodes =>
    let first := ofNode manner spot node
    let rest := ofNodes manner
      { spot with
        position := spot.position + first.lines.length
        index := spot.index + first.spans.length }
      nodes
    { lines := first.lines ++ rest.lines
      spans := first.spans ++ rest.spans
      labels := first.labels ++ rest.labels
      routines := first.routines ++ rest.routines }

end

/-- Where the nodes, labels and routines are. What is defined twice is where it was defined last. -/
def layout (piece : Piece) : Layout :=
  { spans := piece.spans.toArray
    labels := Std.ExtTreeMap.ofList piece.labels
    routines := Std.ExtTreeMap.ofList piece.routines }

end Piece

namespace Dialect

/-- One pass over a program. -/
def pass (dialect : Dialect) (program : Program) (known : Option Layout) : Piece :=
  let before := Piece.linesAt 0 (dialect.preamble program)
  let manner : Manner := { dialect, used := program.root.referencedLabels, known }
  let body := Piece.ofNode manner { position := before.length } program.root
  { body with lines := before ++ body.lines ++ Piece.linesAt 0 (dialect.postamble program) }

/-- A program as it is written in the end. -/
def writeProgram (dialect : Dialect) (program : Program) : Piece :=
  let first := dialect.pass program none
  if dialect.numbered then dialect.pass program (some first.layout) else first

/-- The labels that jumps name and that are not defined. -/
def undefinedLabels (program : Program) (written : Piece) : List String :=
  let defined : NameSet := Std.ExtTreeSet.ofList (written.labels.map (·.1))
  program.root.referencedLabels.toList.filter fun label => !defined.contains label

end Dialect

end Lift6502
