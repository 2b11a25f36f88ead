import Lift6502.Dialect.Page
import Lift6502.Machine.Address

/-!
# Where things are on a page

A dialect that jumps to line numbers has to know where the parts of a program are before it can write
them. A layout holds the positions that were found when the program was written before; the nodes are
counted in document order.
-/

namespace Lift6502

/-- The lines of one node. -/
structure Span where
  /-- The position of the first line. -/
  start : Nat
  /-- The position after the last line. -/
  stop : Nat
  deriving DecidableEq

structure Layout where
  spans : Array Span := #[]
  /-- The positions of labels. -/
  labels : NameMap Nat := ∅
  /-- The positions of the first lines of routines. -/
  routines : NameMap Nat := ∅

/-- What is known of line numbers while a node is written. -/
structure Places where
  /-- The first line of the node. -/
  start : Option Nat := none
  /-- The line after the node. -/
  stop : Option Nat := none
  /-- The line after the innermost switch around the node. -/
  switchStop : Option Nat := none
  label : String → Option Nat := fun _ => none
  routine : String → Option Nat := fun _ => none

/-- The line numbers that a layout has for a node and for the switch around it. -/
def Layout.places (layout : Layout) (index : Nat) (switch : Option Nat) : Places :=
  let number (position : Option Nat) : Option Nat := position.map Page.lineNumber
  { start := number (layout.spans[index]?.map (·.start))
    stop := number (layout.spans[index]?.map (·.stop))
    switchStop := number (switch.bind fun index => layout.spans[index]?.map (·.stop))
    label := fun name => number layout.labels[name]?
    routine := fun name => number layout.routines[name]? }

end Lift6502
