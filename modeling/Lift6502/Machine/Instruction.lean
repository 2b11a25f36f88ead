import Lift6502.Machine.Mnemonic
import Lift6502.Machine.Operand

/-!
# Instructions

An operation is a mnemonic with its operand; an instruction is an operation at an address. Its length
follows from the mnemonic and the addressing mode, and the next address wraps around at the top of
memory.
-/

namespace Lift6502

structure Operation where
  mnemonic : Mnemonic
  operand : Operand
  deriving DecidableEq

structure Instruction extends Operation where
  address : Address
  deriving DecidableEq

namespace Operation

/-- The number of bytes that the operation occupies. -/
def size (operation : Operation) : UInt16 :=
  if operation.mnemonic.isConditionalBranch then 2
  else if operation.mnemonic == .jmp || operation.mnemonic == .jsr then 3
  else match operation.operand with
    | .implied | .accumulator => 1
    | .immediate _ | .indirectIndexed .. => 2
    | .absolute address | .indexed address _ => if address ≤ Address.zeroPageEnd then 2 else 3
    | .indirect _ | .symbolic _ => 3

/-- The code address that control may go to. -/
def target? (operation : Operation) : Option Address :=
  match operation.operand with
  | .absolute address => if operation.mnemonic.isControlFlow then some address else none
  | _ => none

/-- The code address of a subroutine call. -/
def callTarget? (operation : Operation) : Option Address :=
  if operation.mnemonic == .jsr then operation.target? else none

/-- The code address of a jump or a conditional branch. -/
def jumpTarget? (operation : Operation) : Option Address :=
  if operation.mnemonic == .jsr then none else operation.target?

/-- The data address that is read or written; for an indirect jump, the address of its vector. -/
def dataAddress? (operation : Operation) : Option Address :=
  match operation.operand with
  | .indirect address => some address
  | operand => if operation.mnemonic.isControlFlow then none else operand.address?

def endsBlock (operation : Operation) : Bool := operation.mnemonic.endsBlock

/-- Mnemonic and operand, as a listing writes them. -/
def text (operation : Operation) : String :=
  match operation.operand with
  | .implied => operation.mnemonic.text
  | operand => operation.mnemonic.text ++ " " ++ operand.text

end Operation

namespace Instruction

/-- The address after the last byte of the instruction. -/
def nextAddress (instruction : Instruction) : Address :=
  instruction.address + instruction.toOperation.size

/-- The instruction as a line of a listing. -/
def text (instruction : Instruction) : String :=
  "$" ++ Text.hex4 instruction.address ++ ": " ++ instruction.toOperation.text

end Instruction

end Lift6502
