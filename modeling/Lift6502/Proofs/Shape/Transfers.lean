import Lift6502.Proofs.Shape.Variations

/-!
# Calls and returns in shapes

A shape absorbs loads, steps, comparisons, branches and jumps, but no call and no return. Of the
shapes that write repeated blocks once, an unrolled loop has no return in it at all.
-/

namespace Lift6502

/-- Whether a mnemonic calls a subroutine or returns from one. -/
def Mnemonic.isTransfer (mnemonic : Mnemonic) : Bool := mnemonic == .jsr || mnemonic.isReturn

namespace Mnemonic

theorem isTransfer_of_loads? {mnemonic : Mnemonic} {register : Register}
    (h : mnemonic.loads? = some register) : mnemonic.isTransfer = false := by
  cases mnemonic <;> first | rfl | cases h

theorem isTransfer_of_compares? {mnemonic : Mnemonic} {register : Register}
    (h : mnemonic.compares? = some register) : mnemonic.isTransfer = false := by
  cases mnemonic <;> first | rfl | cases h

theorem isTransfer_of_step? {mnemonic : Mnemonic} {step : Register × Int}
    (h : mnemonic.step? = some step) : mnemonic.isTransfer = false := by
  cases mnemonic <;> first | rfl | cases h

end Mnemonic

theorem Test.Closes.isTransfer {test : Test} {block : Block} (h : test.Closes block) :
    test.compare.mnemonic.isTransfer = false ∧ test.branch.mnemonic.isTransfer = false := by
  refine ⟨Mnemonic.isTransfer_of_compares? h.compare, ?_⟩
  rcases h.branch with hbranch | hbranch
  · rw [hbranch]
    rfl
  · rw [hbranch]
    rfl

/-- What a counted loop absorbs are loads, steps, comparisons and branches. -/
theorem CountedLoop.IsIn.isTransfer_of_absorbed {block : Block} {loop : CountedLoop}
    (h : loop.IsIn block) : ∀ i ∈ loop.absorbed, i.mnemonic.isTransfer = false := by
  intro i hi
  simp only [absorbed, List.mem_append, List.mem_cons, List.not_mem_nil, or_false,
    Option.mem_toList] at hi
  rcases hi with ((rfl | hstep) | hcompare) | rfl
  · exact Mnemonic.isTransfer_of_loads? h.loads
  · obtain ⟨delta, hdelta⟩ := h.steps i hstep
    unfold stepOf? at hdelta
    split at hdelta
    · exact Mnemonic.isTransfer_of_step? ‹_›
    · cases hdelta
  · exact Mnemonic.isTransfer_of_compares? (h.compare i hcompare)
  · rw [h.branch.2.1]
    rfl

/-! ### Matches -/

/-- What a match does to calls and returns: it absorbs none of them, and where it repeats blocks
these are alike. -/
structure Match.Transparent (found : Match) : Prop where
  spared : ∃ absorbed, found.control = addressesOf absorbed ∧
    ∀ i ∈ absorbed, i ∈ found.instructions ∧ i.mnemonic.isTransfer = false
  repeated : found.shape = .unrolled ∨ found.shape = .template → found.Repeated

namespace Match

variable {found : Match}

theorem transparent_of_control_empty (hcontrol : found.control = ∅)
    (hrepeated : found.shape = .unrolled ∨ found.shape = .template → found.Repeated) :
    found.Transparent := by
  refine ⟨⟨[], ?_, List.forall_mem_nil _⟩, hrepeated⟩
  rw [hcontrol]
  rfl

theorem Tested.transparent (h : found.Tested)
    (hsingle : ¬ (found.shape = .unrolled ∨ found.shape = .template)) : found.Transparent := by
  refine ⟨⟨_, h.control, fun i hi => ?_⟩, fun hshape => absurd hshape hsingle⟩
  obtain ⟨test, htest, hi⟩ := List.mem_flatMap.mp hi
  obtain ⟨block, hblock, hclosed⟩ := List.mem_filterMap.mp htest
  have hcloses := Block.test?_closes hclosed
  rcases List.mem_pair.mp hi with rfl | rfl
  · exact ⟨Block.mem_instructionsOf.mpr ⟨block, hblock, hcloses.compare_mem⟩, hcloses.isTransfer.1⟩
  · exact ⟨Block.mem_instructionsOf.mpr ⟨block, hblock, hcloses.branch_mem⟩, hcloses.isTransfer.2⟩

/-- In ascending code an instruction that a match absorbs is neither a call nor a return. -/
theorem Transparent.isTransfer_of_absorbs (h : found.Transparent)
    (hascending : Ascending found.instructions) {instruction : Instruction}
    (hmem : instruction ∈ found.instructions) (habsorbs : found.absorbs instruction = true) :
    instruction.mnemonic.isTransfer = false := by
  obtain ⟨absorbed, hcontrol, hall⟩ := h.spared
  rw [absorbs, Std.ExtTreeSet.contains_iff_mem, hcontrol, mem_addressesOf] at habsorbs
  obtain ⟨i, hi, haddress⟩ := habsorbs
  obtain ⟨hinside, htransfer⟩ := hall i hi
  rw [← hascending.eq_of_address_eq hinside hmem haddress]
  exact htransfer

end Match

namespace Shape

variable {symbols : SymbolTable} {blocks : List Block} {found : Match}

theorem detectCounted_transparent (h : detectCounted symbols blocks = some found) :
    found.Transparent := by
  obtain ⟨block, rest, loop, -, hloop, rfl⟩ := detectCounted_eq_some_iff.mp h
  have hisIn := CountedLoop.isIn_of_ofBlock? hloop
  refine ⟨⟨_, rfl, fun i hi => ⟨?_, hisIn.isTransfer_of_absorbed i hi⟩⟩, ?_⟩
  · exact Block.mem_instructionsOf.mpr
      ⟨block, List.mem_singleton_self block, hisIn.mem_of_absorbed i hi⟩
  · by_cases hstep : 0 < loop.step <;> simp [CountedLoop.toMatch, hstep]

theorem detectTopTested_transparent (h : detectTopTested symbols blocks = some found) :
    found.Transparent := by
  obtain ⟨header, body, rest, test, jump, -, htest, hjump, hmnemonic, -, -, rfl⟩ :=
    detectTopTested_eq_some_iff.mp h
  have hcloses := Block.test?_closes htest
  have hheader {i : Instruction} (hi : i ∈ header.instructions) :
      i ∈ Block.instructionsOf [header, body] :=
    Block.mem_instructionsOf.mpr ⟨header, List.mem_cons_self, hi⟩
  refine ⟨⟨_, rfl, fun i hi => ?_⟩, ?_⟩
  · simp only [List.mem_cons, List.not_mem_nil, or_false] at hi
    rcases hi with rfl | rfl | rfl
    · exact ⟨hheader hcloses.compare_mem, hcloses.isTransfer.1⟩
    · exact ⟨hheader hcloses.branch_mem, hcloses.isTransfer.2⟩
    · refine ⟨Block.mem_instructionsOf.mpr
        ⟨body, List.mem_cons_of_mem _ List.mem_cons_self, Block.terminator?_mem hjump⟩, ?_⟩
      rw [hmnemonic]
      rfl
  · by_cases hequal : test.onEqual = true <;> simp [Test.topMatch, hequal]

theorem detectBottomTested_transparent (h : detectBottomTested symbols blocks = some found) :
    found.Transparent := by
  obtain ⟨block, rest, test, position, -, htest, -, -, rfl⟩ := detectBottomTested_eq_some_iff.mp h
  have hcloses := Block.test?_closes htest
  have hmem {i : Instruction} (hi : i ∈ block.instructions) : i ∈ Block.instructionsOf [block] :=
    Block.mem_instructionsOf.mpr ⟨block, List.mem_singleton_self block, hi⟩
  refine ⟨⟨_, rfl, fun i hi => ?_⟩, by simp [Test.bottomMatch]⟩
  rcases List.mem_pair.mp hi with rfl | rfl
  · exact ⟨hmem hcloses.compare_mem, hcloses.isTransfer.1⟩
  · exact ⟨hmem hcloses.branch_mem, hcloses.isTransfer.2⟩

theorem detectRepetition_transparent (h : detectRepetition symbols blocks = some found) :
    found.Transparent := by
  obtain ⟨-, varying, shape, hvarying, hfolds, rfl⟩ := exists_of_detectRepetition h
  have hnonempty : blocks.take (Block.shapeLength blocks) ≠ [] := by
    intro hnil
    rw [hnil] at hvarying
    cases hvarying
  obtain ⟨first, rest, hblocks, halike⟩ := Block.exists_take_shapeLength hnonempty
  rw [← hblocks] at halike
  refine Match.transparent_of_control_empty rfl fun _ =>
    ⟨⟨first, rest, hblocks, halike⟩, ⟨varying, hvarying⟩, ?_⟩
  cases hfolds with
  | unrolled hthrough => exact fun _ => hthrough
  | template =>
    intro hshape
    cases hshape

/-- A match that absorbs nothing, of a shape in which nothing is repeated. -/
private theorem transparent_of_shape (shape : Shape)
    (hsingle : ¬ (shape = .unrolled ∨ shape = .template)) (hshape : found.shape = shape)
    (hcontrol : found.control = ∅) : found.Transparent := by
  refine Match.transparent_of_control_empty hcontrol fun hrepeated => ?_
  rw [hshape] at hrepeated
  exact absurd hrepeated hsingle

/-- The shapes of tests are told by their detectors. -/
theorem detectConditional_shape (h : detectConditional symbols blocks = some found) :
    found.shape = .conditional ∨ found.shape = .conditionalChain := by
  obtain ⟨first, more, -, rfl⟩ := detectConditional_eq_some_iff.mp h
  exact ite_eq_or_eq (more.isEmpty = true) conditional conditionalChain

theorem detectConditional_tested (h : detectConditional symbols blocks = some found) :
    found.Tested := by
  have hsound := (detectConditional_promises h).2
  rcases detectConditional_shape h with hshape | hshape <;> rwa [Match.Sound, hshape] at hsound

theorem detectDispatch_shape (h : detectDispatch symbols blocks = some found) :
    found.shape = .dispatch := by
  obtain ⟨-, rfl⟩ := detectDispatch_eq_some_iff.mp h
  rfl

theorem detectDispatch_tested (h : detectDispatch symbols blocks = some found) : found.Tested := by
  have hsound := (detectDispatch_promises h).2
  rw [Match.Sound, detectDispatch_shape h] at hsound
  exact hsound.1

/-- Whatever a detector finds leaves calls and returns alone. -/
theorem FoundBy.transparent (h : FoundBy symbols blocks found) : found.Transparent := by
  cases h with
  | counted h => exact detectCounted_transparent h
  | topTested h => exact detectTopTested_transparent h
  | bottomTested h => exact detectBottomTested_transparent h
  | conditional h =>
    apply (detectConditional_tested h).transparent
    rcases detectConditional_shape h with hshape | hshape <;> rw [hshape] <;> decide
  | dispatch h =>
    apply (detectDispatch_tested h).transparent
    rw [detectDispatch_shape h]
    decide
  | call h =>
    obtain ⟨_, _, shape, _, -, hcalls, rfl⟩ := exists_of_detectCall h
    refine transparent_of_shape shape ?_ rfl rfl
    cases hcalls <;> decide
  | record h =>
    obtain ⟨_, _, _, _, -, -, rfl⟩ := exists_of_detectRecord h
    exact transparent_of_shape .record (by decide) rfl rfl
  | repetition h => exact detectRepetition_transparent h
  | @trait shape _ hshape h =>
    obtain ⟨_, _, _, -, -, rfl⟩ := detectTrait_eq_some_iff.mp h
    refine transparent_of_shape shape ?_ rfl rfl
    rintro (rfl | rfl) <;> cases hshape

/-- Whatever is recognised leaves calls and returns alone. -/
theorem recognise_transparent (symbols : SymbolTable) (blocks : List Block) :
    (recognise symbols blocks).Transparent := by
  rcases recognise_cases symbols blocks with hfound | hplain
  · exact hfound.transparent
  · rw [hplain]
    exact transparent_of_shape .plain (by decide) rfl rfl

end Shape

end Lift6502
