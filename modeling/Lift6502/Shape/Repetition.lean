import Lift6502.Shape.Match

/-!
# Repeated code

Blocks of the same shape that follow each other are written once. If every operand that differs moves
by a constant stride they are an unrolled loop, else a template with the operands as parameters.
-/

namespace Lift6502

/-- An operand that differs between repeated blocks. -/
structure Variation where
  /-- The position of the instruction in each block. -/
  position : Nat
  /-- The operand in each block. -/
  values : List Operand
  /-- The difference between neighbouring values, if it is always the same. -/
  stride : Option Int
  deriving DecidableEq

namespace Variation

/-- Whether the operand can be written as its first value plus a multiple of a counter. -/
def isFoldable (variation : Variation) : Bool :=
  variation.stride.isSome && match variation.values.head? with
    | some (.immediate _) | some (.absolute _) => true
    | _ => false

/-- Whether the operand can be a parameter of a template. -/
def isParameter (variation : Variation) : Bool :=
  match variation.values.head? with
  | some (.immediate _) | some (.absolute _) | some (.indexed ..) => true
  | _ => false

/-- The common difference of neighbouring numbers, if it is not zero. -/
def strideOf? : List Int → Option Int
  | first :: second :: rest =>
    let stride := second - first
    if stride ≠ 0 && ((second :: rest).zip rest).all (fun pair => pair.2 - pair.1 == stride) then
      some stride
    else none
  | _ => none

end Variation

namespace Block

/-- Whether two instructions have the same mnemonic and addressing mode. -/
def sameForm (instruction other : Instruction) : Bool :=
  instruction.mnemonic == other.mnemonic && instruction.operand.mode == other.operand.mode

/-- Whether two blocks agree in all but numbers and labels. -/
def sameShape (block other : Block) : Bool :=
  block.instructions.length == other.instructions.length
    && (block.instructions.zip other.instructions).all fun pair => sameForm pair.1 pair.2

/-- How many blocks are shaped like a first one, each entered from the one before. -/
def shapeTail (first previous : Block) : List Block → Nat
  | [] => 0
  | next :: rest =>
    if next.sameShape first && previous.fallsInto next then shapeTail first next rest + 1 else 0

/-- The number of blocks at the front that are shaped like the first one. -/
def shapeLength : List Block → Nat
  | [] => 0
  | first :: rest => if first.body.length < 2 then 0 else shapeTail first first rest + 1

/-- How the operand at one position differs across blocks: not at all, or by a variation. Fails if a
block is too short, or if an operand that names code differs. -/
def variationAt? (blocks : List Block) (position : Nat) (instruction : Instruction) :
    Option (Option Variation) := do
  let values ← blocks.mapM fun block => (block.instructions[position]?).map (·.operand)
  if values.all (· == instruction.operand) then return none
  guard !instruction.mnemonic.isControlFlow
  let stride := (values.mapM Operand.number?).bind Variation.strideOf?
  return some { position, values, stride }

/-- The operands that differ across blocks, in the order of their positions. -/
def variations? : List Block → Option (List Variation)
  | [] => none
  | first :: rest => do
    let found ← first.instructions.zipIdx.mapM fun (instruction, position) =>
      variationAt? (first :: rest) position instruction
    return found.filterMap id

end Block

namespace Shape

/-- Whether control that enters a block can reach its end. -/
def runsThrough (block : Block) : Bool :=
  match block.terminator? with
  | some instruction => instruction.mnemonic.isConditionalBranch
  | none => true

/-- Repeated blocks: an unrolled loop if they can be folded, else a template. -/
def detectRepetition : Detector := fun _ blocks => do
  let length := Block.shapeLength blocks
  guard (2 ≤ length)
  let claimed := blocks.take length
  let varying ← Block.variations? claimed
  let shape ←
    if claimed.all runsThrough && varying.all Variation.isFoldable then some .unrolled
    else if varying.all Variation.isParameter then some .template
    else none
  return { shape, blocks := claimed, operands := [.immediate (UInt8.ofNat (min length 255))] }

end Shape

end Lift6502
