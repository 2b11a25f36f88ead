import Lift6502.Flow.Block
import Lift6502.Symbol.Table
import Lift6502.Tree.Comparison

/-!
# Shapes of code

A shape is something that one or more blocks at the front of a list were recognised as. A match says
which blocks it claims, which of their instructions the shape absorbs, and what was found in them.
-/

namespace Lift6502

inductive Shape where
  | countUp | countDown | whileLoop | untilLoop | conditional | conditionalChain | dispatch | record
  | template | unrolled | bitField | globalVariable | pointer | timer | inputHandler | call | jump
  | interrupt | plain
  deriving DecidableEq

def Shape.description : Shape → String
  | countUp => "counted loop (increment)"
  | countDown => "counted loop (decrement)"
  | whileLoop => "while loop"
  | untilLoop => "do-until loop"
  | conditional => "conditional"
  | conditionalChain => "conditional chain"
  | dispatch => "dispatch"
  | record => "record initialisation"
  | template => "repeated code"
  | unrolled => "unrolled loop"
  | bitField => "bit field"
  | globalVariable => "global variable access"
  | pointer => "pointer access"
  | timer => "timer setup"
  | inputHandler => "input handler"
  | call => "subroutine call"
  | jump => "jump"
  | interrupt => "interrupt handler"
  | plain => "plain code"

structure Match where
  shape : Shape
  /-- The claimed blocks. -/
  blocks : List Block
  /-- The register that is counted, tested or dispatched on. -/
  register : Option Register := none
  /-- The first value of a loop, or the tested value. -/
  subject : Option Operand := none
  /-- Bound and step of a loop, or the constants of tests, or the fields of a record. -/
  operands : List Operand := []
  comparison : Option Comparison := none
  /-- Code addresses that the shape refers to. -/
  targets : List Address := []
  /-- The addresses of the instructions that the shape absorbs. -/
  control : AddressSet := ∅
  /-- The address that the node for the shape is placed at. -/
  anchor : Address := (blocks.head?.map Block.start).getD 0

namespace Match

/-- The set of the addresses of some instructions. -/
def addressesOf (instructions : List Instruction) : AddressSet :=
  Std.ExtTreeSet.ofList (instructions.map (·.address))

def absorbs (found : Match) (instruction : Instruction) : Bool :=
  found.control.contains instruction.address

/-- All instructions of the claimed blocks. -/
def instructions (found : Match) : List Instruction := Block.instructionsOf found.blocks

end Match

/-- Looks for a shape at the front of the blocks that are left of a routine. -/
abbrev Detector := SymbolTable → List Block → Option Match

end Lift6502
