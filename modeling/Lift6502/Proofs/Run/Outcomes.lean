import Lift6502.Decompile
import Lift6502.Proofs.Flow.Lookup
import Lift6502.Proofs.Listing.Canonical
import Lift6502.Proofs.Routine.Spans
import Lift6502.Proofs.Routine.StepOverflows
import Mathlib.Data.List.Range
import Mathlib.Data.List.Sort

/-!
# How runs end

A run is refused if its listing holds no instruction, or more than it may. Nothing else stops it:
where there are instructions there are blocks, the tree of a program is always one that a dialect
can write, and no step reaches for a place that is not there. For the last of these the steps behind
the listing are written with checked accesses, from the single pass that cuts it into blocks and the
spans of the routines to the block that a jump leads to, and they always come to the end.

Only one sum is kept in fewer bits than it can need, that of the steps of a counted loop. A run
wraps it around. Code that checks its sums is stopped there, by a block of at least 32770
instructions, and otherwise ends like the run.
-/

namespace Lift6502

/-! ### Spans by position -/

namespace Routine

variable {symbols : SymbolTable} {blocks : List Block}

/-- Whether a routine starts at the block at a position. -/
def opensAt (symbols : SymbolTable) (blocks : List Block) (position : Nat) : Bool :=
  position == 0 || blocks[position]?.any fun block => symbols.subroutines.contains block.start

theorem mem_starts_iff {position : Nat} :
    position ∈ (spans symbols blocks).map (·.1) ↔ position < blocks.length ∧
      opensAt symbols blocks position = true := by
  have hopens {span : Nat × Nat} (hspan : span ∈ spans symbols blocks) (hfrom : span.1 ≤ position)
      (hto : position < span.2) :
      position = span.1 ↔ opensAt symbols blocks position = true := by
    have hlt : position < blocks.length := exists_mem_spans_iff.mp ⟨span, hspan, hfrom, hto⟩
    have hblock := List.getElem?_eq_getElem hlt
    rw [start_iff_of_mem_spans hspan hfrom hto hblock, opensAt, hblock, Bool.or_eq_true, beq_iff_eq]
    rfl
  constructor
  · intro hstart
    obtain ⟨span, hspan, rfl⟩ := List.mem_map.mp hstart
    have hlt := lt_of_mem_spans hspan
    exact ⟨exists_mem_spans_iff.mp ⟨span, hspan, Nat.le_refl _, hlt⟩,
      (hopens hspan (Nat.le_refl _) hlt).mp rfl⟩
  · rintro ⟨hlt, hopen⟩
    obtain ⟨span, hspan, hfrom, hto⟩ := exists_mem_spans_iff.mpr hlt
    rw [(hopens hspan hfrom hto).mpr hopen]
    exact List.mem_map_of_mem hspan

theorem pairwise_starts : ((spans symbols blocks).map (·.1)).Pairwise (· < ·) := by
  rw [← List.isChain_iff_pairwise, List.isChain_map]
  refine List.IsChain.imp_of_mem_imp (fun span next hspan _ hnext => ?_)
    (isChain_spansFrom (divide symbols blocks) 0)
  have hlt := lt_of_mem_spans hspan
  rwa [hnext] at hlt

/-- Routines start where they are opened. -/
theorem starts_eq_filter :
    (spans symbols blocks).map (·.1)
      = (List.range blocks.length).filter (opensAt symbols blocks) := by
  refine List.Pairwise.eq_of_mem_iff pairwise_starts (List.pairwise_lt_range.filter _)
    fun position => ?_
  rw [mem_starts_iff, List.mem_filter, List.mem_range]

/-- A routine stops where the next one starts, and the last one behind all blocks. -/
theorem zip_starts {α : Type} (groups : List (List α)) (start : Nat) :
    ((spansFrom start groups).map (·.1)).zip
        (((spansFrom start groups).map (·.1)).tail ++ [start + groups.flatten.length])
      = spansFrom start groups := by
  induction groups generalizing start with
  | nil => rfl
  | cons group groups ih =>
    have hrest := ih (start + group.length)
    rw [List.flatten_cons, List.length_append, ← Nat.add_assoc, spansFrom]
    cases groups with
    | nil => rfl
    | cons next groups => exact congrArg ((start, start + group.length) :: ·) hrest

end Routine

/-! ### Programs by position -/

namespace Program

/-- The routines with one more at an entry, given what its blocks were built into. -/
def Routines.extend (symbols : SymbolTable) (routines : Routines) (entry : Address)
    (built : Usage × List Node) : Routines :=
  if symbols.subroutines.contains entry then
    { usage := built.1
      functions := routines.functions ++ [routineNode symbols entry built.2]
      subroutines := routines.subroutines.insert entry (symbols.codeName entry) }
  else
    { routines with
      usage := built.1
      functions := routines.functions ++ [routineNode symbols entry built.2] }

theorem add_eq_extend (symbols : SymbolTable) (routines : Routines) (first : Block)
    (rest : List Block) :
    routines.add symbols (first :: rest)
      = routines.extend symbols first.start (Routine.build symbols routines.usage
        (first :: rest)) := by
  unfold Routines.add Routines.extend routineNode
  simp only
  split <;> rfl

/-- The program that some routines make up. -/
def ofRoutines (symbols : SymbolTable) (blocks : List Block) (routines : Routines) : Program :=
  let root : Node :=
    { kind := .program, children := routines.functions ++ routines.usage.templates }
  { root := (root.placeLabels (labelTargets symbols blocks)).1
    subroutines := routines.subroutines
    romCalls := routines.usage.romCalls
    variableMap := routines.usage.variableMap }

end Program

namespace Positional

open Checked Program

variable (symbols : SymbolTable) (blocks : List Block)

def opensAt (position : Nat) : Checked Bool :=
  if position = 0 then return true
  else do
    let block ← get blocks position
    return symbols.subroutines.contains block.start

def spans : Checked (List (Nat × Nat)) := do
  let starts ← filter (opensAt symbols blocks) (List.range blocks.length)
  return starts.zip (starts.tail ++ [blocks.length])

def addRoutine (mode : OnOverflow) (routines : Routines) (span : Nat × Nat) : Checked Routines := do
  let segment ← slice blocks span.1 span.2
  let first ← get segment 0
  let built ← build symbols mode segment routines.usage 0
  return routines.extend symbols first.start built

def program (mode : OnOverflow) : Checked Program := do
  let spans ← spans symbols blocks
  let routines ← spans.foldlM (addRoutine symbols blocks mode) {}
  return ofRoutines symbols blocks routines

theorem opensAt_eq_value {position : Nat} (h : position < blocks.length) :
    opensAt symbols blocks position = value (Routine.opensAt symbols blocks position) := by
  obtain ⟨block, hblock⟩ : ∃ block, blocks[position]? = some block :=
    ⟨_, List.getElem?_eq_getElem h⟩
  rw [opensAt, Routine.opensAt, get_eq_value hblock, hblock]
  split
  · rename_i hzero
    rw [hzero]
    rfl
  · rename_i hlater
    rw [beq_eq_false_iff_ne.mpr hlater]
    rfl

theorem spans_eq_value : spans symbols blocks = value (Routine.spans symbols blocks) := by
  have hstarts : filter (opensAt symbols blocks) (List.range blocks.length)
      = value ((Routine.spans symbols blocks).map (·.1)) := by
    rw [Routine.starts_eq_filter]
    exact filter_eq_value fun position hposition => opensAt_eq_value symbols blocks
      (List.mem_range.mp hposition)
  have hzip := Routine.zip_starts (Routine.divide symbols blocks) 0
  rw [flatten_divide, Nat.zero_add] at hzip
  rw [spans, hstarts, value_bind, pure_eq_value]
  exact congrArg value hzip

theorem addRoutine_eq_stopIf (mode : OnOverflow) {span : Nat × Nat}
    (hspan : span ∈ Routine.spans symbols blocks) (routines : Routines) :
    addRoutine symbols blocks mode routines span
      = stopIf (mode.stops ((Routine.shapes symbols (blocks.extract span.1 span.2)).any
          Match.overflows))
        (value (routines.add symbols (blocks.extract span.1 span.2))) := by
  have hslice : slice blocks span.1 span.2 = value (blocks.extract span.1 span.2) := by
    rw [slice_eq_value (Nat.le_of_lt (Routine.lt_of_mem_spans hspan))
      (Routine.le_length_of_mem_spans hspan), List.extract_eq_take_drop, List.drop_take]
  obtain ⟨first, rest, hsegment, -⟩ := exists_cons_of_mem_splitBy (Routine.extract_mem_divide hspan)
  have hbuild := build_eq_stopIf symbols mode [] routines.usage (first :: rest)
  rw [List.nil_append, List.length_nil] at hbuild
  rw [addRoutine, hslice, value_bind, hsegment, get_eq_value List.getElem?_cons_zero, value_bind,
    hbuild, stopIf_bind, value_bind, add_eq_extend]
  rfl

theorem program_eq_stopIf (mode : OnOverflow)
    (hascending : Ascending (Block.instructionsOf blocks)) :
    program symbols blocks mode
      = stopIf (mode.stops (blocks.any Block.overflows))
        (value (Program.build symbols blocks)) := by
  have hroutines : (Routine.spans symbols blocks).foldlM (addRoutine symbols blocks mode) {}
      = stopIf (mode.stops (blocks.any Block.overflows))
          (value ((Routine.divide symbols blocks).foldl (Routines.add symbols) {})) := by
    rw [foldlM_eq_stopIf fun span hspan routines =>
        addRoutine_eq_stopIf symbols blocks mode hspan routines,
      ← Routine.any_overflows_divide symbols hascending, stops_any, ← Routine.map_extract_spans,
      List.foldl_map, List.any_map]
    rfl
  rw [program, spans_eq_value, value_bind, hroutines, stopIf_bind]
  rfl

/-! ### Blocks by address -/

def containing (address : Address) : Checked (Option Nat) :=
  match partitionPoint (fun block => block.start ≤ address) blocks.toArray with
  | 0 => return none
  | position + 1 => do
    let block ← get blocks position
    return if block.contains address then some position else none

def externalTargets : Checked AddressSet := do
  let targets := (Block.instructionsOf blocks).filterMap fun i => i.jumpTarget?
  let outside ← filter (fun target => do return (← containing blocks target).isNone) targets
  return Std.ExtTreeSet.ofList outside

theorem containing_eq_value (address : Address) :
    containing blocks address = value ((BlockIndex.ofBlocks blocks).containing? address) := by
  have hle :
      partitionPoint (fun block : Block => block.start ≤ address) blocks.toArray ≤ blocks.length :=
    partitionPoint_le _ blocks.toArray
  unfold containing BlockIndex.containing? BlockIndex.ofBlocks
  cases hpoint : partitionPoint (fun block : Block => block.start ≤ address) blocks.toArray with
  | zero => rfl
  | succ position =>
    rw [hpoint] at hle
    obtain ⟨block, hblock⟩ : ∃ block, blocks[position]? = some block :=
      ⟨_, List.getElem?_eq_getElem hle⟩
    simp only [get_eq_value hblock, value_bind, List.getElem?_toArray, hblock]
    rfl

theorem externalTargets_eq_value :
    externalTargets blocks = value (BlockIndex.ofBlocks blocks).externalTargets := by
  have houtside : filter (fun target => do return (← containing blocks target).isNone)
      ((Block.instructionsOf blocks).filterMap fun i => i.jumpTarget?)
        = value (((Block.instructionsOf blocks).filterMap fun i => i.jumpTarget?).filter
          fun target => ((BlockIndex.ofBlocks blocks).containing? target).isNone) := by
    apply filter_eq_value
    intro target _
    rw [containing_eq_value]
    rfl
  rw [externalTargets, houtside]
  rfl

/-! ### Whole runs by position -/

def ofListing (mode : OnOverflow) (target : Target) (sources : Sources) (listing : Listing) :
    Checked Run :=
  let warnings := listing.skipped.map .skippedLine
  let symbols := SymbolTable.resolve listing.candidates sources
  let blocks := Block.collect listing.instructions
  if blocks.isEmpty then return { warnings, result := .error (.failed .blocks "no basic blocks") }
  else do
    let external ← externalTargets blocks
    let warnings := warnings ++ external.toList.map .externalTarget
    let program ← program symbols blocks mode
    return match program.render target with
    | .error error => { warnings, result := .error (.failed .emit error.message) }
    | .ok rendering =>
      { warnings := warnings ++ rendering.undefinedLabels.map .undefinedLabel
        result :=
          .ok { text := rendering.text, symbols, program, blocks, skipped := listing.skipped } }

def run (mode : OnOverflow) (options : Options) (sources : Sources) (text : String) : Checked Run :=
  let listing := Listing.read text
  let count := listing.instructions.length
  let refused (error : RunError) : Run :=
    { warnings := listing.skipped.map .skippedLine, result := .error error }
  if count = 0 then return refused (.failed .parse "no instructions in listing")
  else if options.maxInstructions < count then
    return refused (.tooManyInstructions count options.maxInstructions)
  else ofListing mode options.target sources listing

theorem ofListing_eq_stopIf (mode : OnOverflow) (target : Target) (sources : Sources)
    {listing : Listing} (hascending : Ascending listing.instructions) :
    ofListing mode target sources listing
      = stopIf (mode.stops ((Block.partition listing.instructions).any Block.overflows))
          (value (Run.ofListing target sources listing)) := by
  have hblocks : Ascending (Block.instructionsOf (Block.partition listing.instructions)) := by
    rwa [Block.instructionsOf_partition]
  unfold ofListing Run.ofListing
  simp only [Block.collect_eq_partition, externalTargets_eq_value,
    program_eq_stopIf _ _ mode hblocks, value_bind, stopIf_bind, pure_eq_value]
  split
  · rename_i hempty
    rw [List.isEmpty_iff.mp hempty]
    cases mode <;> rfl
  · rfl

/-- Whether a run comes to a block whose steps overflow. -/
def reachesOverflow (options : Options) (listing : Listing) : Bool :=
  0 < listing.instructions.length && listing.instructions.length ≤ options.maxInstructions
    && (Block.partition listing.instructions).any Block.overflows

theorem run_eq_stopIf (mode : OnOverflow) (options : Options) (sources : Sources) (text : String) :
    run mode options sources text
      = stopIf (mode.stops (reachesOverflow options (Listing.read text)))
          (value (Run.ofText options sources text)) := by
  have hlisting := ofListing_eq_stopIf mode options.target sources (Listing.ascending_read text)
  unfold run Run.ofText reachesOverflow
  generalize Listing.read text = listing at hlisting ⊢
  simp only [pure_eq_value]
  split
  · rename_i hnone
    rw [hnone]
    cases mode <;> rfl
  · rename_i hsome
    rw [decide_eq_true (Nat.pos_of_ne_zero hsome), Bool.true_and]
    split
    · rename_i hmany
      rw [decide_eq_false (Nat.not_le.mpr hmany)]
      cases mode <;> rfl
    · rename_i hfew
      rw [decide_eq_true (Nat.le_of_not_lt hfew), Bool.true_and]
      exact hlisting

end Positional

theorem Block.le_length_of_any_overflows {instructions : List Instruction}
    (h : (partition instructions).any Block.overflows = true) : 32770 ≤ instructions.length := by
  obtain ⟨block, hblock, hoverflows⟩ := List.any_eq_true.mp h
  exact (le_length_of_overflows hoverflows).trans (sublist_of_mem_partition hblock).length_le

/-! ### Outcomes -/

theorem Block.partition_ne_nil {instructions : List Instruction} (h : instructions ≠ []) :
    partition instructions ≠ [] := by
  intro hempty
  apply h
  rw [← instructionsOf_partition instructions, hempty]
  rfl

theorem Program.exists_render_build (symbols : SymbolTable) (blocks : List Block)
    (target : Target) : ∃ rendering, (build symbols blocks).render target = .ok rendering := by
  unfold render
  rw [if_neg (not_not.mpr (isTree_build symbols blocks).kind)]
  cases target.dialect? <;> exact ⟨_, rfl⟩

namespace Run

/-- The ways in which a run on a number of instructions ends. -/
inductive Ends (options : Options) (count : Nat) : Except RunError Decompiled → Prop
  | empty (hnone : count = 0) :
    Ends options count (.error (.failed .parse "no instructions in listing"))
  | tooMany (hsome : 0 < count) (hmany : options.maxInstructions < count) :
    Ends options count (.error (.tooManyInstructions count options.maxInstructions))
  | written {decompiled : Decompiled} {rendering : Rendering} (hsome : 0 < count)
    (hfew : count ≤ options.maxInstructions)
    (hroot : decompiled.program.root.kind = .program)
    (hrendering : decompiled.program.render options.target = .ok rendering)
    (htext : decompiled.text = rendering.text) : Ends options count (.ok decompiled)

theorem ends_ofListing {options : Options} (sources : Sources) {listing : Listing}
    (hsome : 0 < listing.instructions.length)
    (hfew : listing.instructions.length ≤ options.maxInstructions) :
    Ends options listing.instructions.length (ofListing options.target sources listing).result := by
  have hblocks : (Block.partition listing.instructions).isEmpty = false :=
    List.isEmpty_eq_false_iff.mpr (Block.partition_ne_nil (List.ne_nil_of_length_pos hsome))
  unfold ofListing
  generalize SymbolTable.resolve listing.candidates sources = symbols
  obtain ⟨rendering, hrendering⟩ :=
    Program.exists_render_build symbols (Block.partition listing.instructions) options.target
  simp only [hblocks, hrendering]
  exact .written hsome hfew (Program.isTree_build symbols _).kind hrendering rfl

theorem ends_ofText (options : Options) (sources : Sources) (text : String) :
    Ends options (Listing.read text).instructions.length (ofText options sources text).result := by
  unfold ofText
  generalize Listing.read text = listing
  simp only
  split
  · rename_i hnone
    exact .empty hnone
  · rename_i hsome
    split
    · rename_i hmany
      exact .tooMany (Nat.pos_of_ne_zero hsome) hmany
    · rename_i hfew
      exact ends_ofListing sources (Nat.pos_of_ne_zero hsome) (Nat.le_of_not_lt hfew)

/-- A step up, at a distance from address 2. -/
def stepUp (distance : Nat) : Instruction :=
  { address := UInt16.ofNat (2 + distance), mnemonic := .inx, operand := .implied }

/-- A load, some steps up and a branch back to the first of them. -/
def steppedCode (steps : Nat) : List Instruction :=
  { address := 0, mnemonic := .ldx, operand := .immediate 0 } ::
    ((List.range steps).map stepUp ++
      [{ address := UInt16.ofNat (2 + steps), mnemonic := .bne, operand := .absolute 2 }])

theorem ascending_steppedCode {steps : Nat} (h : steps ≤ 65533) :
    Ascending (steppedCode steps) := by
  have hlt {low high : Nat} (hlow : low < high) (hhigh : high ≤ 65535) :
      UInt16.ofNat low < UInt16.ofNat high := by
    rw [UInt16.lt_iff_toNat_lt, UInt16.toNat_ofNat', UInt16.toNat_ofNat']
    omega
  have hsteps : ∀ i ∈ (List.range steps).map stepUp, ∃ k < steps, i = stepUp k := by
    intro i hi
    obtain ⟨k, hk, rfl⟩ := List.mem_map.mp hi
    exact ⟨k, List.mem_range.mp hk, rfl⟩
  refine List.pairwise_cons.mpr ⟨?_, List.pairwise_append.mpr ⟨?_, List.pairwise_singleton _ _, ?_⟩⟩
  · refine List.forall_mem_append.mpr ⟨fun i hi => ?_, List.forall_mem_singleton.mpr ?_⟩
    · obtain ⟨k, hk, rfl⟩ := hsteps i hi
      exact hlt (Nat.lt_of_lt_of_le Nat.two_pos (Nat.le_add_right 2 k)) (by omega)
    · exact hlt (Nat.lt_of_lt_of_le Nat.two_pos (Nat.le_add_right 2 steps)) (by omega)
  · refine List.pairwise_map.mpr (List.pairwise_lt_range.imp_of_mem ?_)
    intro low high _ hhigh hless
    have := List.mem_range.mp hhigh
    exact hlt (Nat.add_lt_add_left hless 2) (by omega)
  · intro i hi branch hbranch
    obtain ⟨k, hk, rfl⟩ := hsteps i hi
    rw [List.mem_singleton.mp hbranch]
    exact hlt (Nat.add_lt_add_left hk 2) (by omega)

theorem isChain_steppedCode (steps : Nat) :
    (steppedCode (steps + 1)).IsChain fun i next => Block.continues i next = true := by
  have hnext (k : Nat) : (UInt16.ofNat (2 + k) + 1 == UInt16.ofNat (2 + (k + 1))) = true := by
    rw [beq_iff_eq, ← Nat.add_assoc, UInt16.ofNat_add (2 + k) 1]
    rfl
  rw [steppedCode, List.isChain_cons, List.isChain_append, List.isChain_map]
  refine ⟨?_, ?_, List.isChain_singleton _, ?_⟩
  · rw [List.range_succ_eq_map]
    rintro next ⟨⟩
    rfl
  · exact (List.isChain_range_succ _ _).mpr fun k _ => hnext k
  · rw [List.range_succ, List.map_append, List.map_singleton, List.getLast?_concat]
    rintro last ⟨⟩ next ⟨⟩
    exact hnext steps

theorem isLegible_steppedCode (steps : Nat) : ∀ i ∈ steppedCode steps, i.toOperation.IsLegible := by
  have hletters {mnemonic : Mnemonic} (h : (mnemonic.text.toList.length == 3 &&
      mnemonic.text.toList.all Char.isAlpha && Mnemonic.read mnemonic.text == mnemonic) = true) :
      mnemonic.IsLegible := by
    simp only [Bool.and_eq_true, beq_iff_eq, List.all_eq_true] at h
    exact ⟨h.1.1, h.1.2, h.2⟩
  have hload : Mnemonic.IsLegible .ldx := hletters (by decide +kernel)
  have hstep : Mnemonic.IsLegible .inx := hletters (by decide +kernel)
  have hbranch : Mnemonic.IsLegible .bne := hletters (by decide +kernel)
  refine List.forall_mem_cons.mpr ⟨⟨hload, trivial⟩, List.forall_mem_append.mpr ⟨?_, ?_⟩⟩
  · exact List.forall_mem_map.mpr fun k _ => ⟨hstep, trivial⟩
  · exact List.forall_mem_singleton.mpr ⟨hbranch, trivial⟩

/-- The code is one block. -/
theorem overflows_steppedCode (steps : Nat) :
    (Block.partition (steppedCode (steps + 1))).any Block.overflows
      = decide (32768 ≤ steps + 1) := by
  have hnext : ∀ last ∈ (steppedCode (steps + 1)).getLast?, ∀ next ∈ ([] : List Instruction).head?,
      Block.continues last next = false := by simp
  have hpartition := Block.partition_append (isChain_steppedCode steps) hnext
  rw [List.append_nil] at hpartition
  have hblock (block : Block) (hinstructions : block.instructions = steppedCode (steps + 1)) :
      block.overflows = decide (32768 ≤ ((List.range (steps + 1)).map stepUp).length) := by
    refine Block.overflows_of_steps 2 hinstructions rfl rfl (by decide)
      (List.forall_mem_map.mpr fun _ _ => rfl) ?_ rfl rfl
    rw [List.range_succ_eq_map]
    rfl
  rw [hpartition, show Block.partition [] = [] from rfl, List.append_nil]
  change ([_] : List Block).any _ = _
  rw [List.any_cons, List.any_nil, Bool.or_false, hblock _ rfl, List.length_map, List.length_range]

end Run

end Lift6502
