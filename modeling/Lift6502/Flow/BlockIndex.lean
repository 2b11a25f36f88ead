import Lift6502.Flow.Block

/-!
# Finding blocks by address

Blocks in ascending order are searched by halving. Blocks do not overlap in the addresses of their
instructions, so the only block that can hold an address is the last one that starts at or below it.
-/

namespace Lift6502

/-- How many elements at the front satisfy a test that fails for all elements after them. -/
def partitionPoint {α : Type} (test : α → Bool) (elements : Array α) : Nat :=
  search 0 elements.size (Nat.le_refl _)
where
  search (low high : Nat) (bound : high ≤ elements.size) : Nat :=
    if less : low < high then
      let middle := (low + high) / 2
      if test elements[middle] then search (middle + 1) high bound
      else search low middle (by omega)
    else low
  termination_by high - low

/-- Blocks in ascending order of their addresses. -/
structure BlockIndex where
  blocks : Array Block

namespace BlockIndex

def ofBlocks (blocks : List Block) : BlockIndex := { blocks := blocks.toArray }

/-- The position of the block that starts at an address. -/
def startingAt? (index : BlockIndex) (address : Address) : Option Nat :=
  let position := partitionPoint (fun block => block.start < address) index.blocks
  if (index.blocks[position]?.any fun block => block.start == address) then some position else none

/-- The position of the block that holds an instruction at an address. -/
def containing? (index : BlockIndex) (address : Address) : Option Nat :=
  match partitionPoint (fun block => block.start ≤ address) index.blocks with
  | 0 => none
  | position + 1 =>
    if (index.blocks[position]?.any fun block => block.contains address) then some position else none

/-- Targets of jumps and branches at which no instruction sits. -/
def externalTargets (index : BlockIndex) : AddressSet :=
  let targets := (Block.instructionsOf index.blocks.toList).filterMap fun i => i.jumpTarget?
  Std.ExtTreeSet.ofList (targets.filter fun target => (index.containing? target).isNone)

end BlockIndex

end Lift6502
