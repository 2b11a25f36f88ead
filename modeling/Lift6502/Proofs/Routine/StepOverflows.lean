import Lift6502.Proofs.Routine.Positions
import Lift6502.Proofs.Routine.Repetitions
import Mathlib.Data.List.Perm.Subperm
import Mathlib.Data.List.TakeWhile

/-!
# Which blocks have steps that overflow

Steps that overflow are more than half of memory can hold, so that a block with such steps is the
only one of its kind. A match that claims several blocks has none of them behind its first block:
what stands there ends in a jump, branches forward, is a test and nothing else, or is as long as the
first block. So all of a program is added up without an overflow exactly if no block of it
overflows.
-/

namespace Lift6502

theorem Ascending.length_le {instructions : List Instruction} (h : Ascending instructions) :
    instructions.length ≤ 65536 := by
  have hnodup : ((instructions.map (·.address)).map UInt16.toNat).Nodup :=
    h.nodup_addresses.map fun _ _ => UInt16.toNat_inj.mp
  have hsubset : (instructions.map (·.address)).map UInt16.toNat ⊆ List.range 65536 := by
    intro number hnumber
    obtain ⟨address, -, rfl⟩ := List.mem_map.mp hnumber
    exact List.mem_range.mpr address.toNat_lt
  simpa using (List.Nodup.subperm hnodup hsubset).length_le

namespace Block

variable {block : Block}

theorem exists_closes_of_overflows (h : block.overflows = true) :
    ∃ loop : CountedLoop, loop.Closes block ∧
      CountedLoop.overflows loop.register loop.steps = true := by
  obtain ⟨loop, hparts, hoverflows⟩ := (Option.any_eq_true _ _).mp h
  exact ⟨loop, CountedLoop.closes_of_parts? hparts, hoverflows⟩

/-- Besides its steps there are an initialisation and a branch. -/
theorem le_length_of_overflows (h : block.overflows = true) :
    32770 ≤ block.instructions.length := by
  obtain ⟨loop, hcloses, hoverflows⟩ := exists_closes_of_overflows h
  have hsteps := CountedLoop.le_length_of_overflows hoverflows
  obtain ⟨front, hparts⟩ := hcloses.parts
  rw [hparts]
  simp only [CountedLoop.lap, List.length_append, List.length_cons, List.length_nil]
  omega

theorem le_finish (hascending : Ascending block.instructions) {i : Instruction}
    (hi : i ∈ block.instructions) : i.address ≤ block.finish := by
  rw [← block.dropLast_append_last] at hascending hi
  rcases List.mem_append.mp hi with hfront | hlast
  · exact UInt16.le_of_lt
      ((List.pairwise_append.mp hascending).2.2 i hfront block.last (List.mem_singleton_self _))
  · rw [List.mem_singleton.mp hlast]
    exact UInt16.le_refl _

/-- A counted loop goes back into its block. -/
theorem top_le_finish {loop : CountedLoop} (h : loop.Closes block)
    (hascending : Ascending block.instructions) : loop.top ≤ block.finish := by
  obtain ⟨front, hparts⟩ := h.parts
  obtain ⟨entry, hentry, htop⟩ := Option.map_eq_some_iff.mp h.top
  rw [← htop]
  refine le_finish hascending ?_
  rw [hparts]
  exact List.mem_append_right _ (List.mem_cons_of_mem _
    (List.mem_append_right _ (List.mem_of_mem_head? hentry)))

theorem overflows_eq_false_of_forward {test : Test} (htest : block.test? = some test)
    (hforward : block.finish < test.target) (hascending : Ascending block.instructions) :
    block.overflows = false := by
  rw [Bool.eq_false_iff]
  intro hoverflows
  obtain ⟨loop, hcloses, -⟩ := exists_closes_of_overflows hoverflows
  have hclosed := test?_closes htest
  have hbranch := Option.some.inj (hclosed.terminator.symm.trans hcloses.branch.1)
  have htarget := hclosed.target
  rw [hbranch, hcloses.branch.2.2] at htarget
  rw [← Option.some.inj htarget] at hforward
  exact UInt16.not_le.mpr hforward (top_le_finish hcloses hascending)

/-- The tests of conditionals branch forward. -/
theorem forwardTests_forward (previous : Option Block) (blocks : List Block) :
    ∀ block ∈ blocks.take (forwardTests previous blocks).length,
      ∃ test, block.test? = some test ∧ block.finish < test.target := by
  induction blocks generalizing previous with
  | nil => simp
  | cons block rest ih =>
    rw [forwardTests]
    split
    · rename_i test htest
      split
      · simp
      · rename_i hgoesOn
        simp only [Bool.or_eq_true, not_or, decide_eq_true_eq] at hgoesOn
        exact List.forall_mem_cons.mpr
          ⟨⟨test, htest, UInt16.not_le.mp hgoesOn.1.1.1⟩, ih (some block)⟩
    · simp

/-- A load, steps up and a branch back to the first of them make a loop of all these steps. -/
theorem overflows_of_steps (top : Address) {init branch : Instruction} {steps : List Instruction}
    (hblock : block.instructions = init :: (steps ++ [branch])) (hinit : init.mnemonic = .ldx)
    (hvalue : init.operand.isValue = true) (hbelow : init.address ≠ top)
    (hsteps : ∀ i ∈ steps, i.mnemonic = .inx) (htop : steps.head?.map (·.address) = some top)
    (hbranch : branch.mnemonic = .bne) (htarget : branch.target? = some top) :
    block.overflows = decide (32768 ≤ steps.length) := by
  obtain ⟨first, hfirst, rfl⟩ := Option.map_eq_some_iff.mp htop
  have hterminator : block.terminator? = some branch := by
    have hconcat : block.instructions = (init :: steps) ++ [branch] := hblock
    have hlast : block.last = branch := by simp [Block.last, hconcat]
    rw [terminator?_eq_some, hlast, Operation.endsBlock, hbranch]
    exact ⟨rfl, rfl⟩
  have hposition : block.instructions.findIdx? (·.address == first.address) = some 1 := by
    obtain ⟨later, rfl⟩ := List.head?_eq_some_iff.mp hfirst
    simp [hblock, List.findIdx?_cons, hbelow]
  have hbefore : splitTrailing (fun i => !(i.mnemonic == .ldx || i.mnemonic == .ldy))
      (block.instructions.take 1) = ([init], []) := by
    simp [hblock, splitTrailing, hinit]
  have hpassed : (block.instructions.drop 1).dropLast = steps := by
    rw [hblock, List.drop_one, List.tail_cons, List.dropLast_concat]
  have hcompare : steps.getLast?.filter
      (fun i => i.mnemonic.compares? == some .x && i.operand.isValue) = none := by
    rw [Option.filter_eq_none_iff]
    intro i hi
    rw [hsteps i (List.mem_of_getLast? hi)]
    exact Bool.false_ne_true
  have hup : ∀ i ∈ steps, CountedLoop.stepOf? .x i = some 1 := by
    intro i hi
    rw [CountedLoop.stepOf?, hsteps i hi]
    rfl
  have hsplit : splitTrailing (fun i => (CountedLoop.stepOf? .x i).isSome) steps = ([], steps) := by
    have hall : ∀ i ∈ steps.reverse, (CountedLoop.stepOf? .x i).isSome = true := by
      intro i hi
      rw [hup i (List.mem_reverse.mp hi)]
      rfl
    rw [splitTrailing, List.dropWhile_eq_nil_iff.mpr hall, List.takeWhile_eq_self_iff.mpr hall,
      List.reverse_reverse]
    rfl
  obtain ⟨loop, hloop, hregister, hsame⟩ : ∃ loop, CountedLoop.parts? block = some loop ∧
      loop.register = .x ∧ loop.steps = steps := by
    simp only [CountedLoop.parts?, Option.bind_eq_bind, Option.bind_eq_some_iff,
      Option.guard_eq_some', Option.pure_def, Option.some.injEq]
    refine ⟨_, ⟨branch, hterminator, (), by rw [hbranch]; rfl, first.address, htarget, 1, hposition,
      init, by rw [hbefore]; rfl, .x, by rw [hinit]; rfl, (), by rw [hbefore, hvalue]; rfl, rfl⟩,
      rfl, ?_⟩
    simp only [hpassed, hcompare, Option.isSome_none, Bool.false_eq_true, if_false, hsplit]
  rw [Block.overflows, hloop, Option.any_some, hregister, hsame,
    CountedLoop.overflows_of_forall_up hup]

end Block

namespace Match

variable {found : Match}

theorem overflows_of_blocks {block : Block} {rest : List Block} (h : found.blocks = block :: rest)
    (hrest : ∀ other ∈ rest, other.overflows = false) :
    found.blocks.any Block.overflows = found.overflows := by
  rw [Match.overflows, h, List.any_cons, List.head?_cons, Option.any_some,
    List.any_eq_false.mpr fun other hother => Bool.eq_false_iff.mp (hrest other hother),
    Bool.or_false]

/-- Blocks that are alike cannot all overflow: there are not so many addresses. -/
theorem Repeats.overflows_eq_false {first : Block} {rest : List Block} {varying : List Variation}
    (h : found.Repeats first rest varying) (hascending : Ascending found.instructions) :
    ∀ other ∈ rest, other.overflows = false := by
  intro other hother
  rw [Bool.eq_false_iff]
  intro hoverflows
  have hlong := Block.le_length_of_overflows hoverflows
  have hlength : other.instructions.length = first.instructions.length := by
    have hmnemonics := congrArg List.length
      (h.alike other (h.blocks ▸ List.mem_cons_of_mem first hother)).mnemonics
    rwa [List.length_map, List.length_map] at hmnemonics
  have hboth : (first.instructions ++ other.instructions).Sublist found.instructions := by
    rw [instructions, h.blocks]
    exact (List.Sublist.refl _).append (List.sublist_flatten_of_mem (List.mem_map_of_mem hother))
  have hle := (hascending.sublist hboth).length_le
  rw [List.length_append] at hle
  omega

end Match

namespace Shape

variable {symbols : SymbolTable} {blocks : List Block} {found : Match}

theorem overflows_of_detectTopTested (h : detectTopTested symbols blocks = some found) :
    found.blocks.any Block.overflows = found.overflows := by
  obtain ⟨header, body, _, _, jump, -, -, hjump, hmnemonic, -, -, rfl⟩ :=
    detectTopTested_eq_some_iff.mp h
  refine Match.overflows_of_blocks rfl (List.forall_mem_singleton.mpr ?_)
  rw [Bool.eq_false_iff]
  intro hoverflows
  obtain ⟨loop, hcloses, -⟩ := Block.exists_closes_of_overflows hoverflows
  rw [Option.some.inj (hjump.symm.trans hcloses.branch.1), hcloses.branch.2.1] at hmnemonic
  cases hmnemonic

theorem overflows_of_detectConditional (h : detectConditional symbols blocks = some found)
    (hascending : Ascending found.instructions) :
    found.blocks.any Block.overflows = found.overflows := by
  have hnonempty := (detectConditional_promises h).1.nonempty
  obtain ⟨first, more, hforward, rfl⟩ := detectConditional_eq_some_iff.mp h
  obtain ⟨block, rest, hblocks⟩ := List.exists_cons_of_ne_nil hnonempty
  refine Match.overflows_of_blocks hblocks fun other hother => ?_
  have hmem : other ∈ blocks.take (first :: more).length := by
    rw [show blocks.take (first :: more).length = block :: rest from hblocks]
    exact List.mem_cons_of_mem block hother
  have hordered : Ascending other.instructions :=
    hascending.sublist (List.sublist_flatten_of_mem (List.mem_map_of_mem hmem))
  rw [← hforward] at hmem
  obtain ⟨test, htest, hbelow⟩ := Block.forwardTests_forward none blocks other hmem
  exact Block.overflows_eq_false_of_forward htest hbelow hordered

theorem overflows_of_detectDispatch (h : detectDispatch symbols blocks = some found) :
    found.blocks.any Block.overflows = found.overflows := by
  obtain ⟨hfits, hsound⟩ := detectDispatch_promises h
  rw [Match.Sound, detectDispatch_shape h] at hsound
  obtain ⟨block, rest, hblocks⟩ := List.exists_cons_of_ne_nil hfits.nonempty
  refine Match.overflows_of_blocks hblocks fun other hother => ?_
  have hlength := hsound.2 other (hblocks ▸ hother)
  rw [Bool.eq_false_iff]
  intro hoverflows
  have hlong := Block.le_length_of_overflows hoverflows
  omega

theorem overflows_of_detectRepetition (h : detectRepetition symbols blocks = some found)
    (hascending : Ascending found.instructions) :
    found.blocks.any Block.overflows = found.overflows := by
  obtain ⟨first, rest, varying, hrepeats⟩ := repeats_of_detectRepetition h
  exact Match.overflows_of_blocks hrepeats.blocks (hrepeats.overflows_eq_false hascending)

/-- Behind the first block that a match claims no block overflows. -/
theorem FoundBy.any_overflows (h : FoundBy symbols blocks found)
    (hascending : Ascending found.instructions) :
    found.blocks.any Block.overflows = found.overflows := by
  rcases h.single_or_several with ⟨block, hblock⟩ | htop | hconditional | hdispatch | hrepetition
  · exact Match.overflows_of_blocks hblock (List.forall_mem_nil _)
  · exact overflows_of_detectTopTested htop
  · exact overflows_of_detectConditional hconditional hascending
  · exact overflows_of_detectDispatch hdispatch
  · exact overflows_of_detectRepetition hrepetition hascending

end Shape

namespace Routine

variable {symbols : SymbolTable} {blocks : List Block}

theorem any_overflows_of_mem_shapes (hascending : Ascending (Block.instructionsOf blocks))
    {found : Match} (h : found ∈ shapes symbols blocks) :
    found.blocks.any Block.overflows = found.overflows := by
  have hordered := ascending_of_mem_shapes hascending h
  obtain ⟨block, rest, rfl⟩ := exists_recognise_of_mem_shapes h
  rcases Shape.recognise_cases symbols (block :: rest) with hfound | hplain
  · exact hfound.any_overflows hordered
  · rw [hplain]
    exact Match.overflows_of_blocks rfl (List.forall_mem_nil _)

/-- Some match of a routine overflows exactly if one of its blocks does. -/
theorem any_overflows_shapes (symbols : SymbolTable)
    (hascending : Ascending (Block.instructionsOf blocks)) :
    (shapes symbols blocks).any Match.overflows = blocks.any Block.overflows := by
  rw [← flatMap_blocks_shapes symbols blocks, List.any_flatMap, flatMap_blocks_shapes]
  rw [Bool.eq_iff_iff, List.any_eq_true, List.any_eq_true]
  refine exists_congr fun found => and_congr_right fun hfound => ?_
  rw [any_overflows_of_mem_shapes hascending hfound]

/-- Some match of a program overflows exactly if one of its blocks does. -/
theorem any_overflows_divide (symbols : SymbolTable)
    (hascending : Ascending (Block.instructionsOf blocks)) :
    ((divide symbols blocks).any fun segment => (shapes symbols segment).any Match.overflows)
      = blocks.any Block.overflows := by
  have hsegments : ∀ segment ∈ divide symbols blocks,
      (shapes symbols segment).any Match.overflows = segment.any Block.overflows := by
    intro segment hsegment
    apply any_overflows_shapes
    apply Block.ascending_instructionsOf_of_sublist hascending
    rw [← Program.flatten_divide symbols blocks]
    exact List.sublist_flatten_of_mem hsegment
  rw [← Program.flatten_divide symbols blocks, List.any_flatten, Program.flatten_divide,
    Bool.eq_iff_iff, List.any_eq_true, List.any_eq_true]
  refine exists_congr fun segment => and_congr_right fun hsegment => ?_
  rw [hsegments segment hsegment]

end Routine

end Lift6502
