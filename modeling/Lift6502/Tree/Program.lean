import Lift6502.Symbol.Entry
import Lift6502.Tree.Node

/-!
# Whole programs

A program is a tree together with what has to be declared for it: its subroutines, the routines of the
ROM that it calls, and its variables.
-/

namespace Lift6502

/-- A place in memory that a program uses. -/
structure Variable where
  name : String
  address : Address
  /-- What the symbol table knows about it. -/
  kind : Option SymbolKind := none
  /-- Whether it is used with an index register. -/
  indexed : Bool := false
  /-- Whether it is used as a pointer. -/
  pointer : Bool := false
  deriving DecidableEq

structure Program where
  root : Node
  /-- Subroutines with a body. -/
  subroutines : AddressMap String := ∅
  /-- Routines of the ROM that are called. -/
  romCalls : AddressMap String := ∅
  variableMap : AddressMap Variable := ∅

namespace Program

/-- The name of the routine in front of the first subroutine. -/
def mainName : String := "MAIN"

/-- Routines that are called but have no body. -/
def externalCalls (program : Program) : NameSet :=
  let defined := program.root.children.map (·.value)
  let calls := program.root.walk.filter fun node =>
    node.kind == .subCall && !defined.contains node.value
  Std.ExtTreeSet.ofList (calls.map (·.value))

/-- All nodes that define a record, in document order. -/
def records (program : Program) : List Node := program.root.walk.filter (·.kind == .structDef)

end Program

end Lift6502
