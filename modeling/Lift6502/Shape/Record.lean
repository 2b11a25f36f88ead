import Lift6502.Shape.Match

/-!
# Records

A block of nothing but loads and stores of the accumulator that fills two or more neighbouring places
in main memory initialises a record.
-/

namespace Lift6502.Shape

/-- Whether an instruction may stand in a block that fills a record. -/
def fillsRecord (instruction : Instruction) : Bool :=
  match instruction.mnemonic, instruction.operand with
  | .sta, .absolute _ | .lda, .immediate _ | .lda, .absolute _ => true
  | _, _ => false

/-- The place that a store of the accumulator writes. -/
def storedPlace? (instruction : Instruction) : Option Address :=
  match instruction.mnemonic, instruction.operand with
  | .sta, .absolute address => some address
  | _, _ => none

/-- The fields that the instructions of a block store to. -/
def recordFields (body : List Instruction) : AddressSet :=
  Std.ExtTreeSet.ofList (body.filterMap storedPlace?)

/-- A block that initialises a record. -/
def detectRecord : Detector := fun _ blocks => do
  let block ← blocks.head?
  guard (2 ≤ block.body.length && block.body.all fillsRecord)
  let fields := (recordFields block.body).toList
  let first ← fields.head?
  let last ← fields.getLast?
  guard (2 ≤ fields.length && last < Address.ioStart
    && last.toNat - first.toNat + 1 == fields.length)
  return {
    shape := .record
    blocks := [block]
    subject := some (.absolute first)
    operands := fields.map .absolute }

end Lift6502.Shape
