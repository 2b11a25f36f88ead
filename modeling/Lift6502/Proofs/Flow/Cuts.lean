import Lift6502.Proofs.Flow.Partition

/-!
# Where blocks are cut

A listing can be cut into basic blocks in one way only: nothing is lost, no block runs on past a
jump or across a gap, and no two neighbours could have been one block. Nothing is assumed of the
addresses, which may overlap, repeat or wrap around at the top of memory; where they ascend, so do
the blocks. A single pass that keeps the open group finds these blocks.
-/

namespace Lift6502.Block

/-- Whether blocks are all that instructions are made of, each as long as it can be. -/
structure IsPartition (instructions : List Instruction) (blocks : List Block) : Prop where
  glue : instructionsOf blocks = instructions
  start : ∀ block ∈ blocks, block.instructions.head?.map (·.address) = some block.start
  finish : ∀ block ∈ blocks, block.instructions.getLast?.map (·.address) = some block.finish
  straight : ∀ block ∈ blocks, ∀ i ∈ block.instructions.dropLast, i.endsBlock = false
  consecutive : ∀ block ∈ blocks, block.instructions.IsChain fun i next =>
    next.address = i.nextAddress
  maximal : blocks.IsChain fun block next => block.last.endsBlock = true ∨
    block.nextAddress ≠ next.start

/-- The instructions of a block continue one another if only the last ends a block and no address is
left out. -/
theorem isChain_continues {instructions : List Instruction} :
    instructions.IsChain (fun i next => continues i next = true) ↔
      (∀ i ∈ instructions.dropLast, i.endsBlock = false) ∧
        instructions.IsChain fun i next => next.address = i.nextAddress := by
  induction instructions with
  | nil => simp
  | cons i rest ih =>
    cases rest with
    | nil => simp
    | cons next rest =>
      rw [List.isChain_cons_cons, List.isChain_cons_cons, ih, List.dropLast_cons_cons,
        List.forall_mem_cons]
      simp only [continues, Bool.and_eq_true, Bool.not_eq_true', beq_iff_eq]
      grind

theorem continues_eq_false {block next : Block} :
    continues block.last next.first = false ↔ block.last.endsBlock = true ∨
      block.nextAddress ≠ next.start := by
  simp only [continues, Bool.and_eq_false_iff, Bool.not_eq_false', beq_eq_false_iff_ne]
  rfl

theorem map_instructions_filterMap {groups : List (List Instruction)} (hgroups : [] ∉ groups) :
    (groups.filterMap ofInstructions?).map (·.instructions) = groups := by
  induction groups with
  | nil => rfl
  | cons group groups ih =>
    obtain ⟨hgroup, hrest⟩ := not_or.mp (mt List.mem_cons.mpr hgroups)
    cases group with
    | nil => exact absurd rfl hgroup
    | cons first rest => simp [ofInstructions?, ih hrest]

theorem instructions_injective : Function.Injective Block.instructions := by
  rintro ⟨left, _⟩ ⟨right, _⟩ h
  cases h
  rfl

/-- Blocks are those of a listing if their instructions are the groups that it is split into. -/
theorem partition_eq_iff {instructions : List Instruction} {blocks : List Block} :
    partition instructions = blocks ↔
      instructions.splitBy continues = blocks.map (·.instructions) := by
  rw [← (List.map_injective_iff.mpr instructions_injective).eq_iff, partition,
    map_instructions_filterMap (List.nil_notMem_splitBy _ _)]

theorem head?_address (block : Block) :
    block.instructions.head?.map (·.address) = some block.start :=
  congrArg (Option.map _) (List.head?_eq_some_head block.nonempty)

theorem getLast?_address (block : Block) :
    block.instructions.getLast?.map (·.address) = some block.finish :=
  congrArg (Option.map _) (List.getLast?_eq_some_getLast block.nonempty)

/-- A partition is what splitting gives: groups of instructions that continue one another, apart
from their neighbours. -/
theorem isPartition_iff {instructions : List Instruction} {blocks : List Block} :
    IsPartition instructions blocks ↔ partition instructions = blocks := by
  have hnonempty : [] ∉ blocks.map (·.instructions) := by
    intro hmem
    obtain ⟨block, -, hempty⟩ := List.mem_map.mp hmem
    exact block.nonempty hempty
  have happart : (blocks.map (·.instructions)).IsChain
        (fun group next => ∃ hgroup hnext,
          continues (group.getLast hgroup) (next.head hnext) = false) ↔
      blocks.IsChain fun block next =>
        block.last.endsBlock = true ∨ block.nextAddress ≠ next.start := by
    rw [List.isChain_map]
    refine List.IsChain.iff fun block next => ?_
    rw [← continues_eq_false]
    exact ⟨fun ⟨_, _, h⟩ => h, fun h => ⟨block.nonempty, next.nonempty, h⟩⟩
  -- Splitting is fixed by what it does inside groups and between them, and every block is one
  -- group.
  rw [partition_eq_iff, List.splitBy_eq_iff, happart, List.forall_mem_map]
  simp only [isChain_continues]
  constructor
  · intro h
    exact ⟨h.glue.symm, hnonempty, fun block hblock =>
      ⟨h.straight block hblock, h.consecutive block hblock⟩, h.maximal⟩
  · rintro ⟨hglue, -, hinner, hmaximal⟩
    exact
      { glue := hglue.symm
        start := fun block _ => block.head?_address
        finish := fun block _ => block.getLast?_address
        straight := fun block hblock => (hinner block hblock).1
        consecutive := fun block hblock => (hinner block hblock).2
        maximal := hmaximal }

theorem straight_of_mem_partition {code : List Instruction} {block : Block}
    (hblock : block ∈ partition code) {front after : List Instruction} {next : Instruction}
    (hparts : block.instructions = front ++ next :: after) : ∀ i ∈ front, i.endsBlock = false := by
  have hpartition : IsPartition code (partition code) := isPartition_iff.mpr rfl
  intro i hi
  apply hpartition.straight block hblock
  rw [hparts, List.dropLast_append_of_ne_nil (List.cons_ne_nil next after)]
  exact List.mem_append_left _ hi

/-- Inside a block no instruction but the last ends it, and each is followed by the one at the next
address. -/
theorem neighbours_of_mem_partition {code : List Instruction} {block : Block}
    (hblock : block ∈ partition code) {front after : List Instruction} {i next : Instruction}
    (hparts : block.instructions = front ++ i :: next :: after) :
    i.endsBlock = false ∧ next.address = i.nextAddress := by
  have hpartition : IsPartition code (partition code) := isPartition_iff.mpr rfl
  have hpair : [i, next].IsChain fun i next => next.address = i.nextAddress :=
    List.IsChain.infix (hpartition.consecutive block hblock) ⟨front, after, by simp [hparts]⟩
  refine ⟨straight_of_mem_partition hblock (hparts.trans (List.append_cons front i _)) i (by simp),
    ?_⟩
  simpa using hpair

theorem pairwise_finish_lt_start {blocks : List Block} (h : Ascending (instructionsOf blocks)) :
    blocks.Pairwise fun block later => block.finish < later.start := by
  induction blocks with
  | nil => exact List.Pairwise.nil
  | cons block rest ih =>
    obtain ⟨-, hrest, hcross⟩ := List.pairwise_append.mp h
    refine List.Pairwise.cons (fun later hlater => ?_) (ih hrest)
    exact hcross block.last (List.getLast_mem block.nonempty) later.first
      (mem_instructionsOf.mpr ⟨later, hlater, List.head_mem later.nonempty⟩)

/-! ### One pass over the instructions -/

/-- What is known in the middle of a pass: the blocks that are closed, and the group that is
open. -/
structure Cut where
  closed : List Block := []
  group : List Instruction := []

namespace Cut

/-- Makes the open group a block, if there is one. -/
def close (cut : Cut) : Cut where
  closed := cut.closed ++ (ofInstructions? cut.group).toList

/-- Puts an instruction into the open group, which is closed behind an instruction that ends a
block. -/
def push (cut : Cut) (instruction : Instruction) : Cut :=
  let pushed : Cut := { cut with group := cut.group ++ [instruction] }
  if instruction.endsBlock then pushed.close else pushed

/-- Goes on to an instruction. A gap in front of it closes the open group. -/
def add (cut : Cut) (instruction : Instruction) : Cut :=
  if cut.group.getLast?.any fun previous => previous.nextAddress != instruction.address then
    cut.close.push instruction
  else cut.push instruction

/-- The open group is a chain whose last instruction does not end a block. -/
structure IsOpen (cut : Cut) : Prop where
  chain : cut.group.IsChain fun i next => continues i next = true
  runsOn : ∀ last ∈ cut.group.getLast?, last.endsBlock = false

/-- The blocks of a cut, if some instructions are still to come. -/
def blocksWith (cut : Cut) (rest : List Instruction) : List Block :=
  cut.closed ++ partition (cut.group ++ rest)

end Cut

/-- A chain at whose end a block ends is one block. -/
theorem partition_append {group rest : List Instruction}
    (hchain : group.IsChain fun i next => continues i next = true)
    (happart : ∀ last ∈ group.getLast?, ∀ next ∈ rest.head?, continues last next = false) :
    partition (group ++ rest) = (ofInstructions? group).toList ++ partition rest := by
  rw [partition, List.splitBy_append happart, List.filterMap_append]
  cases group with
  | nil => rfl
  | cons first others =>
    rw [List.splitBy_of_isChain (List.cons_ne_nil first others) hchain]
    rfl

namespace Cut

variable {cut : Cut}

theorem isOpen_of_group_nil (h : cut.group = []) : cut.IsOpen := by
  constructor
  · rw [h]
    exact List.IsChain.nil
  · rw [h]
    simp

theorem blocksWith_close (rest : List Instruction)
    (hchain : cut.group.IsChain fun i next => continues i next = true)
    (happart : ∀ last ∈ cut.group.getLast?, ∀ next ∈ rest.head?, continues last next = false) :
    cut.close.blocksWith rest = cut.blocksWith rest := by
  rw [blocksWith, blocksWith, partition_append hchain happart, ← List.append_assoc]
  rfl

theorem IsOpen.push (h : cut.IsOpen) (instruction : Instruction) (rest : List Instruction)
    (hnext : ∀ last ∈ cut.group.getLast?, last.nextAddress = instruction.address) :
    (cut.push instruction).IsOpen ∧
      (cut.push instruction).blocksWith rest = cut.blocksWith (instruction :: rest) := by
  have hchain : (cut.group ++ [instruction]).IsChain fun i next => continues i next = true := by
    refine List.isChain_append.mpr ⟨h.chain, List.IsChain.singleton instruction, ?_⟩
    rintro last hlast next ⟨⟩
    rw [continues, h.runsOn last hlast, hnext last hlast, beq_self_eq_true]
    rfl
  have hblocks : blocksWith { cut with group := cut.group ++ [instruction] } rest
      = cut.blocksWith (instruction :: rest) := by
    rw [blocksWith, blocksWith, List.append_assoc, List.singleton_append]
  unfold Cut.push
  split
  · rename_i hends
    refine ⟨isOpen_of_group_nil rfl, ?_⟩
    rw [blocksWith_close rest hchain, hblocks]
    intro last hlast next _
    rw [List.getLast?_concat] at hlast
    obtain rfl := Option.some.inj hlast
    rw [continues, hends]
    rfl
  · rename_i hgoesOn
    refine ⟨⟨hchain, fun last hlast => ?_⟩, hblocks⟩
    rw [List.getLast?_concat] at hlast
    obtain rfl := Option.some.inj hlast
    exact Bool.eq_false_iff.mpr hgoesOn

/-- Going on to an instruction keeps the open group a chain, and moves no cut. -/
theorem IsOpen.add (h : cut.IsOpen) (instruction : Instruction) (rest : List Instruction) :
    (cut.add instruction).IsOpen ∧
      (cut.add instruction).blocksWith rest = cut.blocksWith (instruction :: rest) := by
  unfold Cut.add
  split
  · rename_i hgap
    obtain ⟨previous, hprevious, hapart⟩ := (Option.any_eq_true _ _).mp hgap
    have hclosed : cut.close.IsOpen := isOpen_of_group_nil rfl
    obtain ⟨hopen, hblocks⟩ := hclosed.push instruction rest (by simp [close])
    refine ⟨hopen, hblocks.trans (blocksWith_close (instruction :: rest) h.chain ?_)⟩
    rintro last hlast next ⟨⟩
    obtain rfl := Option.some.inj (hprevious.symm.trans hlast)
    rw [continues, beq_eq_false_iff_ne.mpr (bne_iff_ne.mp hapart), Bool.and_false]
  · rename_i hnogap
    refine h.push instruction rest fun last hlast => ?_
    rw [Option.mem_def.mp hlast, Option.any_some, bne_iff_ne, not_not] at hnogap
    exact hnogap

theorem IsOpen.foldl_add (h : cut.IsOpen) (instructions : List Instruction) :
    (instructions.foldl Cut.add cut).IsOpen ∧
      (instructions.foldl Cut.add cut).blocksWith [] = cut.blocksWith instructions := by
  induction instructions generalizing cut with
  | nil => exact ⟨h, rfl⟩
  | cons instruction rest ih =>
    obtain ⟨hopen, hblocks⟩ := h.add instruction rest
    obtain ⟨hend, hall⟩ := ih hopen
    exact ⟨hend, hall.trans hblocks⟩

end Cut

/-- The blocks that a pass over the instructions closes, one after the other. -/
def collect (instructions : List Instruction) : List Block :=
  (instructions.foldl Cut.add {}).close.closed

theorem collect_eq_partition (instructions : List Instruction) :
    collect instructions = partition instructions := by
  obtain ⟨hopen, hblocks⟩ := (Cut.isOpen_of_group_nil rfl : Cut.IsOpen {}).foldl_add instructions
  have hclosed := Cut.blocksWith_close [] hopen.chain (by simp)
  rw [hblocks] at hclosed
  exact (List.append_nil _).symm.trans hclosed

/-- The blocks of a listing are its only partition, a single pass over the instructions closes them
one after the other, and those of ascending instructions lie one above the other. -/
theorem partition_unique (instructions : List Instruction) :
    (∀ blocks, IsPartition instructions blocks ↔ blocks = partition instructions) ∧
      collect instructions = partition instructions ∧
      (Ascending instructions →
        (partition instructions).Pairwise fun block later => block.finish < later.start) := by
  refine ⟨?_, collect_eq_partition instructions, ?_⟩
  · intro blocks
    rw [isPartition_iff, eq_comm]
  · intro h
    rw [← instructionsOf_partition instructions] at h
    exact pairwise_finish_lt_start h

/-- A branch in the middle, a gap behind it, and code that nothing runs into. -/
def brokenRun : List Instruction :=
  [{ address := 0xC000, mnemonic := .nop, operand := .implied },
   { address := 0xC001, mnemonic := .bne, operand := .absolute 0xC000 },
   { address := 0xC003, mnemonic := .inx, operand := .implied },
   { address := 0xC010, mnemonic := .rts, operand := .implied },
   { address := 0xC011, mnemonic := .nop, operand := .implied }]

theorem brokenRun_blocks_ascend :
    Ascending brokenRun ∧
      (partition brokenRun).map (fun block => (block.start, block.finish))
        = [(0xC000, 0xC001), (0xC003, 0xC003), (0xC010, 0xC010), (0xC011, 0xC011)] ∧
      (partition brokenRun).Pairwise fun block later => block.finish < later.start := by
  have hascending : Ascending brokenRun := by decide
  exact ⟨hascending, by decide, (partition_unique brokenRun).2.2 hascending⟩

end Lift6502.Block
