import Lift6502.Machine.Instruction

/-!
# Addresses that want a name

While reading a listing we gather the addresses that its operands use, sorted by what they are used
for. A routine calls itself when a call in it goes to its own entry; the routine that an instruction
sits in is entered at the nearest entry at or below it.
-/

namespace Lift6502

structure Candidates where
  /-- Targets of subroutine calls. -/
  subroutines : AddressSet := ∅
  /-- Targets of jumps and conditional branches. -/
  jumpLabels : AddressSet := ∅
  /-- Subroutines that call themselves. -/
  recursive : AddressSet := ∅
  /-- Data in the zero page. -/
  zeroPage : AddressSet := ∅
  /-- Data at or above the input and output area. -/
  hardware : AddressSet := ∅
  /-- All other data. -/
  memory : AddressSet := ∅
  /-- Labels that the listing itself defines, the first one of each address. -/
  sourceLabels : AddressMap String := ∅
  deriving DecidableEq

namespace Candidates

/-- The set of the addresses in a list. -/
def setOf (addresses : List Address) : AddressSet := Std.ExtTreeSet.ofList addresses

/-- The greatest entry at or below an address. -/
def enclosingEntry? (entries : List Address) (address : Address) : Option Address :=
  (entries.filter (· ≤ address)).max?

/-- The addresses that ascending instructions use. -/
def collect (instructions : List Instruction) (sourceLabels : AddressMap String) : Candidates :=
  let subroutines := setOf (instructions.filterMap fun i => i.callTarget?)
  let entries := (instructions.head?.map (·.address)).toList ++ subroutines.toList
  let isSelfCall (instruction : Instruction) (target : Address) : Bool :=
    enclosingEntry? entries instruction.address == some target
  let data := instructions.filterMap fun i => i.dataAddress?
  { subroutines
    jumpLabels := setOf (instructions.filterMap fun i => i.jumpTarget?)
    recursive := setOf (instructions.filterMap fun i => i.callTarget?.filter (isSelfCall i))
    zeroPage := setOf (data.filter (· ≤ Address.zeroPageEnd))
    hardware := setOf (data.filter (Address.ioStart ≤ ·))
    memory := setOf (data.filter fun a => Address.zeroPageEnd < a && a < Address.ioStart)
    sourceLabels }

end Candidates

end Lift6502
