import Lift6502.Machine.Instruction

/-!
# Which instructions name code

A call, a jump or a branch goes to an address only if its operand is that address. An operand of any
other mode leaves open where control goes, also one that holds the address in memory.
-/

namespace Lift6502.Instruction

variable {instruction : Instruction} {target : Address}

theorem callTarget?_eq_some :
    instruction.callTarget? = some target ↔ instruction.mnemonic = .jsr ∧
      instruction.operand = .absolute target := by
  rw [Operation.callTarget?, Operation.target?]
  by_cases hcall : instruction.mnemonic = .jsr
  · rw [hcall]
    cases instruction.operand <;> simp [Mnemonic.isControlFlow]
  · simp [hcall]

theorem jumpTarget?_eq_some :
    instruction.jumpTarget? = some target ↔
      (instruction.mnemonic = .jmp ∨ instruction.mnemonic.isConditionalBranch = true) ∧
        instruction.operand = .absolute target := by
  rw [Operation.jumpTarget?, Operation.target?]
  by_cases hcall : instruction.mnemonic = .jsr
  · simp [hcall, Mnemonic.isConditionalBranch]
  · cases instruction.operand <;> simp [hcall, Mnemonic.isControlFlow, or_comm]

end Lift6502.Instruction
