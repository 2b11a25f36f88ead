/-!
# Registers

The three registers that programs name, and the two of them that can index an operand.
-/

namespace Lift6502

inductive Register where
  | a | x | y
  deriving DecidableEq

def Register.text : Register → String
  | .a => "A"
  | .x => "X"
  | .y => "Y"

inductive IndexRegister where
  | x | y
  deriving DecidableEq

def IndexRegister.register : IndexRegister → Register
  | .x => .x
  | .y => .y

def IndexRegister.text (index : IndexRegister) : String := index.register.text

end Lift6502
