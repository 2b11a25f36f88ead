import Lift6502.Shape.Match

/-!
# Tests

A block that ends in a comparison and a branch on equality is a test. One that branches forward is a
conditional, several in a row are a chain, and tests of one register that hold nothing else are a
dispatch.
-/

namespace Lift6502

/-- A comparison and the branch on its outcome that closes a block. -/
structure Test where
  compare : Instruction
  branch : Instruction
  register : Register
  target : Address
  deriving DecidableEq

namespace Test

/-- Whether the branch is taken when the values are equal. -/
def onEqual (test : Test) : Bool := test.branch.mnemonic == .beq

/-- The comparison under which the branch is taken. -/
def takenWhen (test : Test) : Comparison := if test.onEqual then .eq else .ne

/-- The instructions that a shape made of tests absorbs. -/
def control (tests : List Test) : AddressSet :=
  Match.addressesOf (tests.flatMap fun test => [test.compare, test.branch])

/-- The match of blocks that close with tests, one after the other. -/
def chainMatch (first : Test) (more : List Test) (claimed : List Block) : Match where
  shape := if more.isEmpty then .conditional else .conditionalChain
  blocks := claimed
  register := some first.register
  subject := some first.compare.operand
  operands := (first :: more).map (·.compare.operand)
  comparison := some first.takenWhen
  targets := (first :: more).map (·.target)
  control := control (first :: more)

end Test

namespace Block

/-- The test that closes a block. -/
def test? (block : Block) : Option Test := do
  let branch ← block.terminator?
  guard (branch.mnemonic == .beq || branch.mnemonic == .bne)
  let compare ← block.instructions.dropLast.getLast?
  let register ← compare.mnemonic.compares?
  guard compare.operand.isValue
  let target ← branch.target?
  return { compare, branch, register, target }

/-- Whether the second block ends in a jump back to the first. -/
def isLoopHeader : List Block → Bool
  | header :: body :: _ =>
    body.terminator?.any fun jump => jump.mnemonic == .jmp && jump.target? == some header.start
  | _ => false

/-- How many blocks go on with a dispatch: a comparison of the register and a branch if equal, nothing
else, entered from the block before. -/
def dispatchTail (register : Register) (previous : Block) : List Block → Nat
  | [] => 0
  | next :: rest =>
    match next.test? with
    | some test =>
      if next.instructions.length == 2 && test.onEqual && test.register == register
          && previous.fallsInto next then
        dispatchTail register next rest + 1
      else 0
    | none => 0

/-- The number of blocks in the dispatch at the front, or zero. A dispatch has at least two. -/
def dispatchLength : List Block → Nat
  | [] => 0
  | first :: rest =>
    match first.test? with
    | some test =>
      if test.onEqual then
        match dispatchTail test.register first rest with
        | 0 => 0
        | length => length + 1
      else 0
    | none => 0

/-- The forward tests at the front, each entered from the one before. Headers of loops and dispatches
are left alone. -/
def forwardTests (previous : Option Block) : List Block → List Test
  | [] => []
  | block :: rest =>
    match block.test? with
    | some test =>
      if test.target ≤ block.finish || isLoopHeader (block :: rest)
          || 0 < dispatchLength (block :: rest)
          || previous.any (fun previous => !previous.fallsInto block) then []
      else test :: forwardTests (some block) rest
    | none => []

end Block

namespace Shape

/-- A conditional, or a chain of them. -/
def detectConditional : Detector := fun _ blocks =>
  match Block.forwardTests none blocks with
  | [] => none
  | first :: more => some (first.chainMatch more (blocks.take (first :: more).length))

/-- The match of blocks that are tests of one register. -/
def dispatchMatch (claimed : List Block) : Match :=
  let tests := claimed.filterMap Block.test?
  { shape := .dispatch
    blocks := claimed
    register := tests.head?.map (·.register)
    operands := tests.map (·.compare.operand)
    targets := tests.map (·.target)
    control := Test.control tests }

/-- A dispatch on one register. -/
def detectDispatch : Detector := fun _ blocks =>
  match Block.dispatchLength blocks with
  | 0 => none
  | length => some (dispatchMatch (blocks.take length))

/-- A block that is nothing but a call of a named routine, or nothing but a jump. -/
def detectCall : Detector := fun symbols blocks => do
  let block ← blocks.head?
  match block.body, block.instructions with
  | [single], _ =>
    let target ← single.callTarget?
    guard (symbols.name? target).isSome
    return { shape := .call, blocks := [block], targets := [target] }
  | _, [single] =>
    guard (single.mnemonic == .jmp)
    let target ← single.target?
    return { shape := .jump, blocks := [block], targets := [target] }
  | _, _ => none

end Shape

end Lift6502
