import Lift6502.Machine.Instruction

/-!
# Lines of a listing

A line is blank, holds a label alone, or holds an operation with an optional label and address.
Lines that are none of these are skipped, and the reason is kept with them.
-/

namespace Lift6502

inductive Line where
  | blank
  | label (name : String)
  | operation (label : Option String) (address : Option Address) (operation : Operation)
  deriving DecidableEq

/-- Why a line was skipped. -/
inductive LineError where
  /-- It is not of the form `[label:] [address] MNEMONIC [operand]`. -/
  | unrecognized
  /-- Its operand text has no addressing mode. -/
  | operand (text : String)
  /-- It has no address, and no accepted line stands before it. -/
  | missingAddress
  /-- An accepted line already sits at its address. -/
  | duplicateAddress (address : Address)
  deriving DecidableEq

def LineError.message : LineError → String
  | unrecognized => "unrecognized instruction syntax"
  | operand text => "operand `" ++ text ++ "` is not a valid addressing mode"
  | missingAddress => "no address and no previous instruction to infer it from"
  | duplicateAddress address =>
    "address $" ++ Text.hex4 address ++ " already holds an instruction"

/-- A line that did not make it into the program. -/
structure SkippedLine where
  /-- Counted from one. -/
  number : Nat
  text : String
  error : LineError
  deriving DecidableEq

end Lift6502
