import Lift6502.Flow.BlockIndex
import Lift6502.Proofs.Flow.Cuts
import Lift6502.Proofs.Machine.CodeAddresses

/-!
# Finding blocks by halving

Halving keeps a stretch of positions such that everything in front of it passes a test and
everything behind it fails. In code whose addresses ascend the blocks that start at or below an
address stand in front of all others, and only the last of them can hold the address. So halving
finds the block that looking at one block after the other finds, also where instructions overlap in
memory or an address lies in a gap.
-/

namespace Lift6502

/-! ### Halving -/

/-- What halving knows: elements in front of one position pass a test, and elements from another one
on fail it. -/
structure Bracket {α : Type} (test : α → Bool) (elements : Array α) (low high : Nat) : Prop where
  order : low ≤ high
  passed : ∀ position element, elements[position]? = some element → position < low →
    test element = true
  failed : ∀ position element, elements[position]? = some element → high ≤ position →
    test element = false

/-- Whether a test that an element passes is passed by all elements in front of it. -/
def PassesInFront {α : Type} (test : α → Bool) (elements : Array α) : Prop :=
  ∀ (left right : Nat) (element other : α), left ≤ right → elements[left]? = some element →
    elements[right]? = some other →
    test other = true → test element = true

variable {α : Type} {test : α → Bool} {elements : Array α}

theorem bracket_all : Bracket test elements 0 elements.size := by
  refine ⟨Nat.zero_le _, ?_, ?_⟩
  · intro position element _ hlt
    exact absurd hlt (Nat.not_lt_zero position)
  · intro position element hat hle
    rw [Array.getElem?_eq_none hle] at hat
    cases hat

namespace Bracket

variable (hfront : PassesInFront test elements) {low high : Nat}
  (h : Bracket test elements low high)
include hfront h

/-- Where the test is passed, it is passed by everything up to there. -/
theorem raise {middle : Nat} {element : α} (hmiddle : middle < high)
    (hat : elements[middle]? = some element) (hpass : test element = true) :
    Bracket test elements (middle + 1) high := by
  refine ⟨hmiddle, ?_, h.failed⟩
  intro position other hother hlt
  exact hfront position middle other element (Nat.le_of_lt_succ hlt) hother hat hpass

/-- Where the test is failed, it is failed by everything from there on. -/
theorem lower {middle : Nat} {element : α} (hmiddle : low ≤ middle)
    (hat : elements[middle]? = some element) (hfail : test element = false) :
    Bracket test elements low middle := by
  refine ⟨hmiddle, h.passed, ?_⟩
  intro position other hother hle
  cases hpass : test other with
  | false => rfl
  | true =>
    have hpass := hfront middle position element other hle hat hother hpass
    rw [hfail] at hpass
    cases hpass

theorem search (hbound : high ≤ elements.size) :
    Bracket test elements (partitionPoint.search test elements low high hbound)
      (partitionPoint.search test elements low high hbound) := by
  fun_induction partitionPoint.search test elements low high hbound with
  | case1 low high hbound hless middle hpass ih =>
    exact ih (h.raise hfront (by omega) (Array.getElem?_eq_getElem (by omega)) hpass)
  | case2 low high hbound hless middle hfail ih =>
    exact ih (h.lower hfront (by omega) (Array.getElem?_eq_getElem (by omega))
      (Bool.eq_false_iff.mpr hfail))
  | case3 low high hbound hstop =>
    obtain rfl : low = high := Nat.le_antisymm h.order (Nat.le_of_not_lt hstop)
    exact h

end Bracket

/-- Halving tells the elements that pass a test from those that fail it. -/
theorem lt_partitionPoint_iff (hfront : PassesInFront test elements) {position : Nat} {element : α}
    (hat : elements[position]? = some element) : position < partitionPoint test elements ↔
      test element = true := by
  have hend : Bracket test elements (partitionPoint test elements) (partitionPoint test elements) :=
    bracket_all.search hfront (Nat.le_refl _)
  constructor
  · exact hend.passed position element hat
  · intro hpass
    by_contra hnot
    rw [hend.failed position element hat (Nat.le_of_not_lt hnot)] at hpass
    cases hpass

theorem search_le (low high : Nat) (hbound : high ≤ elements.size) (hle : low ≤ high) :
    partitionPoint.search test elements low high hbound ≤ high := by
  fun_induction partitionPoint.search test elements low high hbound with
  | case1 low high hbound hless middle htest ih => exact ih (by omega)
  | case2 low high hbound hless middle htest ih => exact Nat.le_trans (ih (by omega)) (by omega)
  | case3 low high hbound hless => exact hle

theorem partitionPoint_le (test : α → Bool) (elements : Array α) :
    partitionPoint test elements ≤ elements.size :=
  search_le 0 elements.size (Nat.le_refl _) (Nat.zero_le _)

/-! ### Ascending blocks -/

namespace Block

/-- An instruction of a block lies below the blocks that follow. -/
theorem pairwise_lt_start {blocks : List Block} (h : Ascending (instructionsOf blocks)) :
    blocks.Pairwise fun block later => ∀ i ∈ block.instructions, i.address < later.start := by
  induction blocks with
  | nil => exact List.Pairwise.nil
  | cons block rest ih =>
    obtain ⟨-, hrest, hcross⟩ := List.pairwise_append.mp h
    refine List.Pairwise.cons (fun later hlater i hi => ?_) (ih hrest)
    exact hcross i hi later.first
      (mem_instructionsOf.mpr ⟨later, hlater, List.head_mem later.nonempty⟩)

theorem start_le_of_mem {block : Block} (h : Ascending block.instructions) {i : Instruction}
    (hi : i ∈ block.instructions) : block.start ≤ i.address := by
  have hparts := List.cons_head_tail block.nonempty
  rw [← hparts] at h hi
  rcases List.mem_cons.mp hi with rfl | hlater
  · exact UInt16.le_refl _
  · exact UInt16.le_of_lt ((List.pairwise_cons.mp h).1 i hlater)

end Block

/-- Blocks that lie one above the other, each with its instructions in ascending order. -/
structure BlocksAscend (blocks : List Block) : Prop where
  inside : ∀ block ∈ blocks, ∀ i ∈ block.instructions, block.start ≤ i.address
  between : ∀ (left right : Nat) (block later : Block), left < right → blocks[left]? = some block →
    blocks[right]? = some later →
    ∀ i ∈ block.instructions, i.address < later.start

theorem blocksAscend_partition {instructions : List Instruction} (h : Ascending instructions) :
    BlocksAscend (Block.partition instructions) where
  inside block hblock i hi :=
    Block.start_le_of_mem (h.sublist (Block.sublist_of_mem_partition hblock)) hi
  between left right block later hlt hleft hright := by
    rw [← Block.instructionsOf_partition instructions] at h
    obtain ⟨hleftBound, rfl⟩ := List.getElem?_eq_some_iff.mp hleft
    obtain ⟨hrightBound, rfl⟩ := List.getElem?_eq_some_iff.mp hright
    exact List.pairwise_iff_getElem.mp (Block.pairwise_lt_start h) left right hleftBound
      hrightBound hlt

namespace BlocksAscend

variable {blocks : List Block} (h : BlocksAscend blocks)
include h

theorem start_lt {left right : Nat} {block later : Block} (hlt : left < right)
    (hleft : blocks[left]? = some block) (hright : blocks[right]? = some later) :
    block.start < later.start :=
  h.between left right block later hlt hleft hright block.first (List.head_mem block.nonempty)

theorem start_le {left right : Nat} {block later : Block} (hle : left ≤ right)
    (hleft : blocks[left]? = some block) (hright : blocks[right]? = some later) :
    block.start ≤ later.start := by
  rcases Nat.lt_or_eq_of_le hle with hlt | rfl
  · exact UInt16.le_of_lt (h.start_lt hlt hleft hright)
  · rw [Option.some.inj (hleft.symm.trans hright)]
    exact UInt16.le_refl _

/-- A test that holds of starts up to some address is passed in front. -/
theorem passesInFront (test : Address → Bool)
    (htest : ∀ left right, left ≤ right → test right = true → test left = true) :
    PassesInFront (fun block : Block => test block.start) blocks.toArray := by
  intro left right block later hle hleft hright
  rw [List.getElem?_toArray] at hleft hright
  exact htest block.start later.start (h.start_le hle hleft hright)

theorem lt_partitionPoint_le_iff {address : Address} {position : Nat} {block : Block}
    (hat : blocks[position]? = some block) :
    position < partitionPoint (fun block : Block => block.start ≤ address) blocks.toArray ↔
      block.start ≤ address := by
  have hfront :=
    h.passesInFront (fun start => decide (start ≤ address)) fun left right hle htest => by
    exact decide_eq_true (UInt16.le_trans hle (of_decide_eq_true htest))
  rw [lt_partitionPoint_iff hfront (by rwa [List.getElem?_toArray]), decide_eq_true_iff]

theorem lt_partitionPoint_lt_iff {address : Address} {position : Nat} {block : Block}
    (hat : blocks[position]? = some block) :
    position < partitionPoint (fun block : Block => block.start < address) blocks.toArray ↔
      block.start < address := by
  have hfront :=
    h.passesInFront (fun start => decide (start < address)) fun left right hle htest => by
    exact decide_eq_true (UInt16.lt_of_le_of_lt hle (of_decide_eq_true htest))
  rw [lt_partitionPoint_iff hfront (by rwa [List.getElem?_toArray]), decide_eq_true_iff]

theorem containing?_eq_some_iff {address : Address} {position : Nat} :
    (BlockIndex.ofBlocks blocks).containing? address = some position ↔
      ∃ block, blocks[position]? = some block ∧ block.contains address = true := by
  have hlooked : (BlockIndex.ofBlocks blocks).containing? address = some position ↔
      partitionPoint (fun block : Block => block.start ≤ address) blocks.toArray = position + 1 ∧
        ∃ block, blocks[position]? = some block ∧ block.contains address = true := by
    rw [BlockIndex.containing?, BlockIndex.ofBlocks]
    cases partitionPoint (fun block : Block => block.start ≤ address) blocks.toArray with
    | zero => simp
    | succ last =>
      simp only [List.getElem?_toArray, Option.any_eq_true, Option.ite_none_right_eq_some,
        Option.some.injEq, Nat.add_right_cancel_iff]
      grind
  rw [hlooked, and_iff_right_iff_imp]
  rintro ⟨block, hat, hcontains⟩
  obtain ⟨i, hi, rfl⟩ := Block.contains_eq_true.mp hcontains
  have hreached :=
    (h.lt_partitionPoint_le_iff hat).mpr (h.inside block (List.mem_of_getElem? hat) i hi)
  -- A later block that starts no higher would lie above the instruction.
  by_contra hlast
  have hlater : position + 1 < partitionPoint (fun block : Block =>
      block.start ≤ i.address) blocks.toArray := by omega
  have hbound := partitionPoint_le (fun block : Block => block.start ≤ i.address) blocks.toArray
  have hnext := List.getElem?_eq_getElem (Nat.lt_of_lt_of_le hlater hbound)
  have hle := (h.lt_partitionPoint_le_iff hnext).mp hlater
  exact absurd (h.between position (position + 1) block _ (Nat.lt_succ_self _) hat hnext i hi)
    (UInt16.not_lt.mpr hle)

theorem startingAt?_eq_some_iff {address : Address} {position : Nat} :
    (BlockIndex.ofBlocks blocks).startingAt? address = some position ↔
      ∃ block, blocks[position]? = some block ∧ block.start = address := by
  have hlooked : (BlockIndex.ofBlocks blocks).startingAt? address = some position ↔
      partitionPoint (fun block : Block => block.start < address) blocks.toArray = position ∧
        ∃ block, blocks[position]? = some block ∧ block.start = address := by
    rw [BlockIndex.startingAt?, BlockIndex.ofBlocks]
    generalize partitionPoint (fun block : Block => block.start < address) blocks.toArray = point
    simp only [List.getElem?_toArray, Option.any_eq_true, Option.ite_none_right_eq_some,
      Option.some.injEq, beq_iff_eq]
    grind
  rw [hlooked, and_iff_right_iff_imp]
  rintro ⟨block, hat, rfl⟩
  have hnot := mt (h.lt_partitionPoint_lt_iff hat).mp (UInt16.lt_irrefl _)
  by_contra hearlier
  have hlt : partitionPoint (fun other : Block => other.start < block.start) blocks.toArray
      < position := by omega
  obtain ⟨hbound, -⟩ := List.getElem?_eq_some_iff.mp hat
  have hfound := List.getElem?_eq_getElem (Nat.lt_trans hlt hbound)
  exact absurd ((h.lt_partitionPoint_lt_iff hfound).mpr (h.start_lt hlt hfound hat))
    (Nat.lt_irrefl _)

theorem containing?_eq_none_iff {address : Address} :
    (BlockIndex.ofBlocks blocks).containing? address = none ↔
      ∀ i ∈ Block.instructionsOf blocks, i.address ≠ address := by
  rw [Option.eq_none_iff_forall_ne_some]
  constructor
  · intro hnone i hi haddress
    obtain ⟨block, hblock, hinside⟩ := Block.mem_instructionsOf.mp hi
    obtain ⟨position, hat⟩ := List.getElem?_of_mem hblock
    exact hnone position
      (h.containing?_eq_some_iff.mpr ⟨block, hat, haddress ▸ Block.contains_of_mem hinside⟩)
  · intro hfree position hfound
    obtain ⟨block, hat, hcontains⟩ := h.containing?_eq_some_iff.mp hfound
    obtain ⟨i, hi, haddress⟩ := Block.contains_eq_true.mp hcontains
    exact hfree i (Block.mem_instructionsOf.mpr ⟨block, List.mem_of_getElem? hat, hi⟩) haddress

end BlocksAscend

/-! ### Looking at one block after the other -/

/-- What points to all positions that pass a test points to the first one, so that there is no
other. -/
theorem eq_findIdx?_of_iff {list : List α} {found : Option Nat}
    (h : ∀ position, found = some position ↔
      ∃ element, list[position]? = some element ∧ test element = true) :
    found = list.findIdx? test := by
  have hfirst {position : Nat} (hposition : list.findIdx? test = some position) :
      found = some position := by
    obtain ⟨hbound, hpass, -⟩ := List.findIdx?_eq_some_iff_getElem.mp hposition
    exact (h position).mpr ⟨list[position], List.getElem?_eq_getElem hbound, hpass⟩
  cases hscan : list.findIdx? test with
  | some position => exact hfirst hscan
  | none =>
    rw [Option.eq_none_iff_forall_ne_some]
    intro position hposition
    obtain ⟨element, hat, hpass⟩ := (h position).mp hposition
    rw [List.findIdx?_eq_none_iff.mp hscan element (List.mem_of_getElem? hat)] at hpass
    cases hpass

namespace BlockIndex

/-- Targets of jumps that no block contains are external. -/
theorem mem_externalTargets {blocks : List Block} {address : Address} :
    address ∈ (ofBlocks blocks).externalTargets ↔
      (∃ i ∈ Block.instructionsOf blocks, i.jumpTarget? = some address) ∧
      (ofBlocks blocks).containing? address = none := by
  rw [externalTargets, Std.ExtTreeSet.mem_ofList, List.contains_iff_mem, List.mem_filter,
    List.mem_filterMap, Option.isNone_iff_eq_none]
  rfl

/-- In ascending code halving finds what looking at one block after the other finds: the block that
has an instruction at an address, and the block that starts there. The external targets are the
addresses that a jump or a branch names and at which no instruction of the code sits. -/
theorem lookup_agrees_with_scan {code : List Instruction} (hascending : Ascending code)
    (address : Address) :
    let blocks := Block.partition code
    let index := ofBlocks blocks
    (∀ position, index.containing? address = some position ↔
      ∃ block, blocks[position]? = some block ∧ ∃ i ∈ block.instructions, i.address = address) ∧
    (∀ position, index.startingAt? address = some position ↔
      ∃ block, blocks[position]? = some block ∧
      block.instructions.head?.map (·.address) = some address) ∧
    index.containing? address = blocks.findIdx? (fun block => block.instructions.any
      (·.address == address)) ∧
    index.startingAt? address = blocks.findIdx? (fun block => block.instructions.head?.any
      (·.address == address)) ∧
    (address ∈ index.externalTargets ↔
      (∃ i ∈ code, (i.mnemonic = .jmp ∨ i.mnemonic.isConditionalBranch = true) ∧
        i.operand = .absolute address) ∧
        ∀ i ∈ code, i.address ≠ address) := by
  intro blocks index
  have h : BlocksAscend blocks := blocksAscend_partition hascending
  have hcontaining (position : Nat) : index.containing? address = some position ↔
      ∃ block, blocks[position]? = some block ∧ block.contains address = true :=
    h.containing?_eq_some_iff
  have hstarting (position : Nat) : index.startingAt? address = some position ↔
      ∃ block, blocks[position]? = some block ∧ block.start = address := h.startingAt?_eq_some_iff
  have hstart (block : Block) : block.instructions.head?.map (·.address) = some address ↔
      block.start = address := by
    rw [block.head?_address, Option.some.injEq]
  refine ⟨?_, ?_, eq_findIdx?_of_iff hcontaining, ?_, ?_⟩
  · simpa only [Block.contains_eq_true] using hcontaining
  · simpa only [hstart] using hstarting
  · apply eq_findIdx?_of_iff
    simpa [← hstart, Option.any_eq_true] using hstarting
  · have hinstructions : Block.instructionsOf blocks = code := Block.instructionsOf_partition code
    rw [mem_externalTargets, h.containing?_eq_none_iff, hinstructions]
    simp only [Instruction.jumpTarget?_eq_some]

/-- Two instructions that overlap in memory, a branch into a gap behind them, and a jump back. -/
def overlappingCode : List Instruction :=
  [{ address := 0xC000, mnemonic := .lda, operand := .absolute 0x0400 },
   { address := 0xC001, mnemonic := .bne, operand := .absolute 0xC002 },
   { address := 0xC003, mnemonic := .jsr, operand := .absolute 0xFFD2 },
   { address := 0xC006, mnemonic := .jmp, operand := .absolute 0xC001 }]

theorem overlappingCode_found :
    Ascending overlappingCode ∧
      (ofBlocks (Block.partition overlappingCode)).containing? 0xC006 = some 2 ∧
      (ofBlocks (Block.partition overlappingCode)).containing? 0xC002 = none ∧
      (ofBlocks (Block.partition overlappingCode)).startingAt? 0xC001 = some 1 ∧
      (0xC002 : Address) ∈ (ofBlocks (Block.partition overlappingCode)).externalTargets := by
  have hascending : Ascending overlappingCode := by decide
  obtain ⟨-, -, hcontaining, -⟩ := lookup_agrees_with_scan hascending 0xC006
  obtain ⟨-, -, -, hstarting, -⟩ := lookup_agrees_with_scan hascending 0xC001
  obtain ⟨-, -, hgap, -, hexternal⟩ := lookup_agrees_with_scan hascending 0xC002
  refine ⟨hascending, ?_, ?_, ?_,
    hexternal.mpr ⟨⟨_, List.mem_cons_of_mem _ List.mem_cons_self, Or.inr rfl, rfl⟩, by decide⟩⟩
  · rw [hcontaining]
    decide
  · rw [hgap]
    decide
  · rw [hstarting]
    decide

end BlockIndex

end Lift6502
