import Lift6502.Machine.Instruction

/-!
# Basic blocks

A basic block is a run of instructions that follow each other in memory, of which only the last may
be a jump, a conditional branch or a return. The target of a jump does not start a block of its own.
-/

namespace Lift6502

structure Block where
  instructions : List Instruction
  nonempty : instructions ≠ []
  deriving DecidableEq

namespace Block

def ofInstructions? : List Instruction → Option Block
  | [] => none
  | first :: rest => some { instructions := first :: rest, nonempty := List.cons_ne_nil first rest }

def first (block : Block) : Instruction := block.instructions.head block.nonempty

def last (block : Block) : Instruction := block.instructions.getLast block.nonempty

/-- The address of the first instruction. -/
def start (block : Block) : Address := block.first.address

/-- The address of the last instruction. -/
def finish (block : Block) : Address := block.last.address

/-- The address after the last instruction. -/
def nextAddress (block : Block) : Address := block.last.nextAddress

/-- The jump, branch or return that closes the block. -/
def terminator? (block : Block) : Option Instruction :=
  if block.last.endsBlock then some block.last else none

/-- The instructions before the terminator. -/
def body (block : Block) : List Instruction :=
  if block.last.endsBlock then block.instructions.dropLast else block.instructions

/-- Whether an instruction of the block sits at an address. -/
def contains (block : Block) (address : Address) : Bool :=
  block.instructions.any (·.address == address)

/-- Where control may go from the end of the block. -/
def successors (block : Block) : List Address :=
  let last := block.last
  if last.mnemonic.isReturn then []
  else if last.mnemonic == .jmp then last.target?.toList
  else if last.mnemonic.isConditionalBranch then last.target?.toList ++ [last.nextAddress]
  else [last.nextAddress]

/-- Whether control that runs off the end of one block enters the other. -/
def fallsInto (block next : Block) : Bool := block.nextAddress == next.start

/-- Whether two neighbouring instructions belong to one block. -/
def continues (instruction next : Instruction) : Bool :=
  !instruction.endsBlock && instruction.nextAddress == next.address

/-- Cuts instructions into basic blocks. -/
def partition (instructions : List Instruction) : List Block :=
  (instructions.splitBy continues).filterMap ofInstructions?

/-- The instructions of several blocks, one after the other. -/
def instructionsOf (blocks : List Block) : List Instruction := blocks.flatMap (·.instructions)

end Block

end Lift6502
