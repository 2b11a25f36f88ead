import Lift6502.Shape.Test

/-!
# Loops

A counted loop is one block: an index register is loaded, the loop body follows, the register is
stepped, perhaps compared, and a branch goes back while it differs from the bound. A loop with its test
at the top is a header that leaves by a branch and a body that jumps back; one with its test at the
bottom branches back into its own block.
-/

namespace Lift6502

/-- Cuts off the longest run at the end whose elements all satisfy a test. -/
def splitTrailing {α : Type} (test : α → Bool) (elements : List α) : List α × List α :=
  ((elements.reverse.dropWhile test).reverse, (elements.reverse.takeWhile test).reverse)

/-- The parts of a block that is a counted loop. Before the initialisation other instructions may
stand. -/
structure CountedLoop where
  register : Register
  init : Instruction
  /-- Between the initialisation and the top of the loop. -/
  between : List Instruction
  body : List Instruction
  /-- The steps of the register, right before the comparison. -/
  steps : List Instruction
  /-- What one pass through the loop adds to the register. -/
  step : Int16
  compare : Option Instruction
  branch : Instruction
  /-- The address that the branch goes back to. -/
  top : Address

namespace CountedLoop

/-- What an instruction adds to a register, if it is a step of it. -/
def stepOf? (register : Register) (instruction : Instruction) : Option Int16 :=
  match instruction.mnemonic.step? with
  | some (stepped, delta) => if stepped = register then some (Int16.ofInt delta) else none
  | none => none

/-- What steps of a register add up to, from the last one to the first. The sum has sixteen bits and
wraps around. -/
def sum (register : Register) (steps : List Instruction) : Int16 :=
  (steps.filterMap (stepOf? register)).foldr (· + ·) 0

/-- The value at which the loop ends; zero if nothing is compared. -/
def bound (loop : CountedLoop) : Operand :=
  match loop.compare with
  | some compare => compare.operand
  | none => .immediate 0

/-- The parts of a block that closes like a counted loop, whatever its steps add up to. -/
def parts? (block : Block) : Option CountedLoop := do
  let branch ← block.terminator?
  guard (branch.mnemonic == .bne)
  let top ← branch.target?
  let position ← block.instructions.findIdx? (·.address == top)
  let (front, between) := splitTrailing
    (fun i => !(i.mnemonic == .ldx || i.mnemonic == .ldy)) (block.instructions.take position)
  let init ← front.getLast?
  let register ← init.mnemonic.loads?
  guard (init.operand.isValue && between.all fun i => !i.mnemonic.writes register)
  let passed := (block.instructions.drop position).dropLast
  let compare := passed.getLast?.filter fun i =>
    i.mnemonic.compares? == some register && i.operand.isValue
  let counted := if compare.isSome then passed.dropLast else passed
  let (body, steps) := splitTrailing (fun i => (stepOf? register i).isSome) counted
  return { register, init, between, body, steps, step := sum register steps, compare, branch, top }

/-- Whether the steps move the register and nothing else in the loop writes it. -/
def counts (loop : CountedLoop) : Bool :=
  loop.step != 0 && loop.body.all fun i => !i.mnemonic.writes loop.register

/-- The counted loop that a block is. -/
def ofBlock? (block : Block) : Option CountedLoop := (parts? block).filter counts

/-- The size of a step, as a byte. -/
def stepByte (step : Int16) : UInt8 := UInt8.ofNat step.toInt.natAbs

/-- The instructions that are neither in front of the loop nor in its body. -/
def absorbed (loop : CountedLoop) : List Instruction :=
  loop.init :: loop.steps ++ loop.compare.toList ++ [loop.branch]

/-- The match of a block that is a counted loop. -/
def toMatch (loop : CountedLoop) (block : Block) : Match where
  shape := if 0 < loop.step then .countUp else .countDown
  blocks := [block]
  register := some loop.register
  subject := some loop.init.operand
  operands := [loop.bound, .immediate (stepByte loop.step)]
  comparison := some .ne
  targets := [loop.top]
  control := Match.addressesOf loop.absorbed
  anchor := loop.init.address

end CountedLoop

namespace Test

/-- The match of a loop that its header leaves by a test and that its body goes on with by a jump. A
branch if unequal leaves once the values differ, so the loop runs while they are equal; a branch if
equal leaves once they are equal. -/
def topMatch (test : Test) (header body : Block) (jump : Instruction) : Match where
  shape := if test.onEqual then .untilLoop else .whileLoop
  blocks := [header, body]
  register := some test.register
  subject := some test.compare.operand
  comparison := some .eq
  targets := [header.start, test.target]
  control := Match.addressesOf [test.compare, test.branch, jump]

/-- The match of a block whose test goes back into it. -/
def bottomMatch (test : Test) (block : Block) : Match where
  shape := .untilLoop
  blocks := [block]
  register := some test.register
  subject := some test.compare.operand
  comparison := some test.takenWhen.inverse
  targets := [test.target]
  control := Match.addressesOf [test.compare, test.branch]
  anchor := test.target

end Test

namespace Shape

/-- A counted loop. -/
def detectCounted : Detector := fun _ blocks => do
  let block ← blocks.head?
  let loop ← CountedLoop.ofBlock? block
  return loop.toMatch block

/-- A loop with its test at the top. -/
def detectTopTested : Detector := fun _ blocks =>
  match blocks with
  | header :: body :: _ => do
    let test ← header.test?
    let jump ← body.terminator?
    guard (jump.mnemonic == .jmp && jump.target? == some header.start)
    guard (test.target == jump.nextAddress)
    return test.topMatch header body jump
  | _ => none

/-- A loop with its test at the bottom. -/
def detectBottomTested : Detector := fun _ blocks => do
  let block ← blocks.head?
  let test ← block.test?
  let position ← block.instructions.findIdx? (·.address == test.target)
  guard (position + 1 < block.instructions.length)
  return test.bottomMatch block

/-- A loop that tests at its top or at its bottom. -/
def detectTestedLoop : Detector := fun symbols blocks =>
  detectTopTested symbols blocks <|> detectBottomTested symbols blocks

end Shape

end Lift6502
