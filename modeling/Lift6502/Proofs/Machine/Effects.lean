import Lift6502.Machine.Instruction
import Mathlib.Logic.Function.Basic

/-!
# What operations do with their operands

A load, a store, an operation on memory, an operation on the accumulator and a comparison do one
thing with their operand each. It is said here for operands with a number, on registers and memory.
Additions, subtractions and rotations leave the carry out, and of the flags there is only the result
of the last comparison or test.
-/

namespace Lift6502

/-- What operations with an operand read and write. -/
structure Store where
  registers : Register → UInt8
  memory : Address → UInt8
  /-- The result of the last comparison or test. -/
  flags : UInt8

/-- Where a byte is kept. -/
inductive Cell where
  | register (register : Register)
  | memory (address : Address)

namespace Store

def get (store : Store) : Cell → UInt8
  | .register register => store.registers register
  | .memory address => store.memory address

def set (store : Store) (cell : Cell) (value : UInt8) : Store :=
  match cell with
  | .register register => { store with registers := Function.update store.registers register value }
  | .memory address => { store with memory := Function.update store.memory address value }

end Store

namespace Operand

/-- The cell of memory that an operand with a number names. -/
def cellIn? (store : Store) : Operand → Option Cell
  | absolute address => some (.memory address)
  | indexed base index => some (.memory (base + (store.registers index.register).toUInt16))
  | _ => none

/-- The value of an operand with a number. -/
def valueIn? (store : Store) : Operand → Option UInt8
  | immediate value => some value
  | operand => (operand.cellIn? store).map store.get

end Operand

/-- How two bytes are combined. -/
inductive Operator where
  | add | subtract | multiply | divide | and | or | xor
  deriving DecidableEq

namespace Operator

def apply : Operator → UInt8 → UInt8 → UInt8
  | add, left, right => left + right
  | subtract, left, right => left - right
  | multiply, left, right => left * right
  | divide, left, right => left / right
  | and, left, right => left &&& right
  | or, left, right => left ||| right
  | xor, left, right => left ^^^ right

end Operator

/-- What is done with an operand. -/
inductive Action where
  | load (register : Register)
  | store (register : Register)
  /-- The operand is combined with a constant. -/
  | change (operator : Operator) (amount : UInt8)
  /-- The accumulator is combined with the operand. -/
  | combine (operator : Operator)
  /-- A register is combined with the operand, for the flags only. -/
  | test (register : Register) (operator : Operator)
  deriving DecidableEq

namespace Action

/-- What an action on an operand makes of a store. -/
def effect? (operand : Operand) (store : Store) : Action → Option Store
  | load register => (operand.valueIn? store).map (store.set (.register register))
  | .store register => (operand.cellIn? store).map fun cell =>
    store.set cell (store.registers register)
  | change operator amount =>
    (operand.cellIn? store).map fun cell => store.set cell (operator.apply (store.get cell) amount)
  | combine operator =>
    (operand.valueIn? store).map fun value => store.set (.register .a)
      (operator.apply (store.registers .a) value)
  | test register operator =>
    (operand.valueIn? store).map fun value =>
      { store with flags := operator.apply (store.registers register) value }

end Action

/-- What an operation does with its operand. -/
def Mnemonic.action? : Mnemonic → Option Action
  | lda => some (.load .a)
  | ldx => some (.load .x)
  | ldy => some (.load .y)
  | sta => some (.store .a)
  | stx => some (.store .x)
  | sty => some (.store .y)
  | inc => some (.change .add 1)
  | dec => some (.change .subtract 1)
  | asl | rol => some (.change .multiply 2)
  | lsr | ror => some (.change .divide 2)
  | adc => some (.combine .add)
  | sbc => some (.combine .subtract)
  | and => some (.combine .and)
  | ora => some (.combine .or)
  | eor => some (.combine .xor)
  | cmp => some (.test .a .subtract)
  | cpx => some (.test .x .subtract)
  | cpy => some (.test .y .subtract)
  | bit => some (.test .a .and)
  | _ => none

/-- What an operation makes of a store. -/
def Operation.effect? (operation : Operation) (store : Store) : Option Store :=
  operation.mnemonic.action?.bind (·.effect? operation.operand store)

end Lift6502
