import Lift6502.Machine.Address
import Lift6502.Machine.Register
import Lift6502.Text.Digits

/-!
# Operands

An operand keeps its addressing mode. Printing shortens an address below 256 to two digits, except
inside a plain indirection, and prints nothing at all for an implied operand.
-/

namespace Lift6502

inductive Operand where
  /-- No operand at all. -/
  | implied
  /-- The accumulator, `A`. -/
  | accumulator
  /-- A value, `#$hh`. -/
  | immediate (value : UInt8)
  /-- An address, `$hh` or `$hhhh`. -/
  | absolute (address : Address)
  /-- An address plus an index, `$hhhh,X` or `$hhhh,Y`. -/
  | indexed (base : Address) (index : IndexRegister)
  /-- A pointer in the zero page, `($hh),Y` or `($hh,X)`. -/
  | indirectIndexed (pointer : UInt8) (index : IndexRegister)
  /-- The address that is stored at an address, `($hhhh)`. -/
  | indirect (address : Address)
  /-- A label. -/
  | symbolic (label : String)
  deriving DecidableEq

namespace Operand

/-- What is left of an operand without its number or label. -/
inductive Mode where
  | implied | accumulator | immediate | absolute
  | indexed (index : IndexRegister)
  | indirectIndexed (index : IndexRegister)
  | indirect | symbolic
  deriving DecidableEq

def mode : Operand → Mode
  | implied => .implied
  | accumulator => .accumulator
  | immediate _ => .immediate
  | absolute _ => .absolute
  | indexed _ index => .indexed index
  | indirectIndexed _ index => .indirectIndexed index
  | indirect _ => .indirect
  | symbolic _ => .symbolic

/-- The memory address that the operand names. -/
def address? : Operand → Option Address
  | absolute address | indirect address => some address
  | indexed base _ => some base
  | indirectIndexed pointer _ => some pointer.toUInt16
  | _ => none

/-- Whether the machine adds an index to find the address. -/
def isComputed : Operand → Bool
  | indexed .. | indirectIndexed .. => true
  | _ => false

/-- Whether the operand stands for a value that a loop or a test can use. -/
def isValue : Operand → Bool
  | implied | accumulator | indirect _ => false
  | _ => true

/-- The number of an operand whose number may vary between repeated blocks. -/
def number? : Operand → Option Int
  | immediate value => some value.toNat
  | absolute address | indexed address _ => some address.toNat
  | _ => none

def text : Operand → String
  | implied => ""
  | accumulator => "A"
  | immediate value => "#$" ++ Text.hex2 value.toNat
  | absolute address => "$" ++ Text.hexShort address
  | indexed base index => "$" ++ Text.hexShort base ++ "," ++ index.text
  | indirectIndexed pointer .y => "($" ++ Text.hex2 pointer.toNat ++ "),Y"
  | indirectIndexed pointer .x => "($" ++ Text.hex2 pointer.toNat ++ ",X)"
  | indirect address => "($" ++ Text.hex4 address ++ ")"
  | symbolic label => label

end Operand

end Lift6502
