import Lift6502.Machine.Instruction
import Lift6502.Symbol.Table
import Lift6502.Tree.Program

/-!
# What a program uses

While routines are built we keep track of the variables and ROM routines that their instructions use,
of the global variables that were announced, and of the templates that were cut out of repeated code.
-/

namespace Lift6502

structure Usage where
  variableMap : AddressMap Variable := ∅
  /-- Global variables that were announced. -/
  announced : AddressSet := ∅
  /-- Templates, in the order in which they were found. -/
  templates : List Node := []
  romCalls : AddressMap String := ∅

namespace Usage

/-- The variable at an address, whether it was used before or not. -/
def variableAt (symbols : SymbolTable) (usage : Usage) (address : Address) : Variable :=
  usage.variableMap[address]?.getD
    { name := symbols.dataName address, address, kind := symbols.kind? address }

/-- Uses the variable at an address, and changes what is known about it. -/
def touch (symbols : SymbolTable) (usage : Usage) (address : Address)
    (change : Variable → Variable := id) : Usage :=
  { usage with
    variableMap := usage.variableMap.insert address (change (usage.variableAt symbols address)) }

/-- Takes note of a call. -/
def noteCall (symbols : SymbolTable) (usage : Usage) (target : Address) : Usage :=
  if symbols.kind? target = some .kernalCall then
    { usage with romCalls := usage.romCalls.insert target (symbols.codeName target) }
  else usage

/-- Takes note of the variables or the ROM routine that an instruction uses. -/
def note (symbols : SymbolTable) (usage : Usage) (instruction : Instruction) : Usage :=
  if instruction.mnemonic = .jsr then
    match instruction.target? with
    | some target => usage.noteCall symbols target
    | none => usage
  else match instruction.operand with
    | .indexed base _ => usage.touch symbols base fun place => { place with indexed := true }
    | .indirectIndexed pointer _ =>
      usage.touch symbols pointer.toUInt16 fun place => { place with pointer := true }
    | .indirect address => usage.touch symbols address
    | .absolute address =>
      if instruction.mnemonic.isControlFlow then usage else usage.touch symbols address
    | _ => usage

end Usage

end Lift6502
