import Lift6502.Proofs.Flow.Partition
import Lift6502.Proofs.Shape.Detections

/-!
# What the detectors promise

The code for a shape trusts its detector: that the claimed blocks stand at the front, that the node
has an instruction to stand at, and for each shape a little more, such as that every block of a
chain closes with a test. Everything later modules know about a match is stated here once, for each
detector and then for whatever was recognised.
-/

namespace Lift6502

/-! ### Blocks that close with a test -/

/-- A test stands at the end of a block. -/
structure Test.Closes (test : Test) (block : Block) : Prop where
  instructions : ∃ front, block.instructions = front ++ [test.compare, test.branch]
  terminator : block.terminator? = some test.branch
  branch : test.branch.mnemonic = .beq ∨ test.branch.mnemonic = .bne
  compare : test.compare.mnemonic.compares? = some test.register
  value : test.compare.operand.isValue = true
  target : test.branch.target? = some test.target

namespace Block

theorem dropLast_append_last (block : Block) :
    block.instructions.dropLast ++ [block.last] = block.instructions :=
  List.dropLast_append_getLast block.nonempty

theorem terminator?_eq_some {block : Block} {instruction : Instruction} :
    block.terminator? = some instruction ↔ block.last.endsBlock = true ∧
      block.last = instruction := by
  rw [terminator?]
  split <;> simp [*]

theorem terminator?_mem {block : Block} {instruction : Instruction}
    (h : block.terminator? = some instruction) : instruction ∈ block.instructions := by
  obtain ⟨_, rfl⟩ := terminator?_eq_some.mp h
  exact List.getLast_mem block.nonempty

theorem body_append_terminator? (block : Block) :
    block.body ++ block.terminator?.toList = block.instructions := by
  rw [body, terminator?]
  split
  · exact dropLast_append_last block
  · exact List.append_nil _

theorem start_mem (block : Block) : ∃ i ∈ block.instructions, i.address = block.start :=
  ⟨block.first, List.head_mem block.nonempty, rfl⟩

theorem test?_closes {block : Block} {test : Test} (h : block.test? = some test) :
    test.Closes block := by
  simp only [test?, Option.bind_eq_bind, Option.bind_eq_some_iff, Option.guard_eq_some',
    Option.pure_def, Option.some.injEq] at h
  obtain ⟨branch, hbranch, _, hmnemonic, compare, hcompare, register, hregister, _, hvalue, target,
      htarget, rfl⟩ := h
  refine ⟨⟨block.instructions.dropLast.dropLast, ?_⟩, hbranch, by simpa using hmnemonic, hregister,
    hvalue, htarget⟩
  have hfront : block.instructions.dropLast.dropLast ++ [compare] = block.instructions.dropLast :=
    List.dropLast_append_getLast? compare hcompare
  rw [List.append_cons, hfront, ← (terminator?_eq_some.mp hbranch).2, dropLast_append_last]

end Block

namespace Test.Closes

variable {test : Test} {block : Block}

theorem compare_mem (h : test.Closes block) : test.compare ∈ block.instructions := by
  obtain ⟨front, hfront⟩ := h.instructions
  simp [hfront]

theorem branch_mem (h : test.Closes block) : test.branch ∈ block.instructions :=
  Block.terminator?_mem h.terminator

theorem branch_endsBlock (h : test.Closes block) : test.branch.endsBlock = true := by
  rcases h.branch with hbranch | hbranch <;> simp [Operation.endsBlock, hbranch, Mnemonic.endsBlock,
    Mnemonic.isConditionalBranch]

theorem compare_not_endsBlock (h : test.Closes block) : test.compare.endsBlock = false := by
  have hcompare := h.compare
  rw [Operation.endsBlock]
  generalize test.compare.mnemonic = mnemonic at hcompare
  cases mnemonic <;> first | rfl | cases hcompare

theorem eq_pair (h : test.Closes block) (hlength : block.instructions.length = 2) :
    block.instructions = [test.compare, test.branch] := by
  obtain ⟨front, hfront⟩ := h.instructions
  have : front = [] := by
    rw [hfront] at hlength
    simpa using hlength
  simpa [this] using hfront

end Test.Closes

/-! ### Runs of tests -/

namespace Block

/-- The forward tests at the front are the tests of as many blocks. -/
theorem map_test?_take_forwardTests (previous : Option Block) (blocks : List Block) :
    (blocks.take (forwardTests previous blocks).length).map test?
      = (forwardTests previous blocks).map some := by
  induction blocks generalizing previous with
  | nil => rfl
  | cons block rest ih =>
    rw [forwardTests]
    split
    · rename_i test htest
      split
      · rfl
      · simp [htest, ih]
    · rfl

/-- The tests that go on with a dispatch compare its register, branch if equal, and stand alone. -/
theorem dispatchTail_tests (register : Register) (previous : Block) (blocks : List Block) :
    ∀ block ∈ blocks.take (dispatchTail register previous blocks),
      block.instructions.length = 2 ∧ ∃ test, block.test? = some test ∧ test.onEqual = true ∧
      test.register = register := by
  induction blocks generalizing previous with
  | nil => simp
  | cons next rest ih =>
    rw [dispatchTail]
    split
    · rename_i test htest
      split
      · rename_i hnext
        simp only [Bool.and_eq_true, beq_iff_eq] at hnext
        obtain ⟨⟨⟨hlength, honEqual⟩, hregister⟩, -⟩ := hnext
        rw [List.take_succ_cons, List.forall_mem_cons]
        exact ⟨⟨hlength, test, htest, honEqual, hregister⟩, ih next⟩
      · simp
    · simp

theorem dispatchLength_tests {blocks : List Block} {length : Nat}
    (h : dispatchLength blocks = length + 1) :
    ∃ first rest test, blocks = first :: rest ∧ first.test? = some test ∧ test.onEqual = true ∧
      ∀ block ∈ rest.take length, block.instructions.length = 2 ∧
        ∃ other, block.test? = some other ∧ other.onEqual = true ∧
        other.register = test.register := by
  cases blocks with
  | nil => cases h
  | cons first rest =>
    rw [dispatchLength] at h
    split at h
    · rename_i test htest
      split at h
      · rename_i honEqual
        split at h
        · cases h
        · obtain rfl : dispatchTail test.register first rest = length := by omega
          exact ⟨first, rest, test, rfl, htest, honEqual,
            dispatchTail_tests test.register first rest⟩
      · cases h
    · cases h

end Block

/-! ### Counted loops -/

theorem splitTrailing_append {α : Type} (test : α → Bool) (elements : List α) :
    (splitTrailing test elements).1 ++ (splitTrailing test elements).2 = elements := by
  rw [splitTrailing, ← List.reverse_append, List.takeWhile_append_dropWhile, List.reverse_reverse]

/-- Taking the last element off if it passes a test, and putting it back. -/
theorem passing_last_append {α : Type} (test : α → Bool) (elements : List α) :
    (if (elements.getLast?.filter test).isSome then elements.dropLast else elements)
      ++ (elements.getLast?.filter test).toList
      = elements := by
  cases hlast : elements.getLast?.filter test with
  | none => simp
  | some last =>
    have hfound := (Option.filter_eq_some_iff.mp hlast).1
    simpa using List.dropLast_append_getLast? last hfound

theorem Block.drop_dropLast_append_last {block : Block} {position : Nat}
    (h : position < block.instructions.length) :
    (block.instructions.drop position).dropLast ++ [block.last]
      = block.instructions.drop position := by
  have hne : block.instructions.drop position ≠ [] := by
    intro hnil
    have hle := List.drop_eq_nil_iff.mp hnil
    omega
  have hlast : (block.instructions.drop position).getLast hne = block.last := List.getLast_drop hne
  rw [← hlast]
  exact List.dropLast_append_getLast hne

theorem not_of_getLast?_splitTrailing {α : Type} {test : α → Bool} {elements : List α} {last : α}
    (h : (splitTrailing test elements).1.getLast? = some last) : test last = false := by
  rw [splitTrailing, List.getLast?_reverse] at h
  have hhead := List.head?_dropWhile_not test elements.reverse
  rw [h] at hhead
  exact hhead

namespace CountedLoop

/-- The instructions from the top of the loop to its branch. -/
def lap (loop : CountedLoop) : List Instruction :=
  loop.body ++ loop.steps ++ loop.compare.toList

/-- A block closes like a counted loop, with the parts that a loop names. -/
structure Closes (loop : CountedLoop) (block : Block) : Prop where
  parts : ∃ front,
    block.instructions = front ++ loop.init :: (loop.between ++ (loop.lap ++ [loop.branch]))
  loads : loop.init.mnemonic.loads? = some loop.register
  index : loop.register = .x ∨ loop.register = .y
  between : ∀ i ∈ loop.between, i.mnemonic.writes loop.register = false
  steps : ∀ i ∈ loop.steps, ∃ delta, stepOf? loop.register i = some delta
  step : loop.step = sum loop.register loop.steps
  compare : ∀ i, loop.compare = some i → i.mnemonic.compares? = some loop.register
  branch : block.terminator? = some loop.branch ∧ loop.branch.mnemonic = .bne ∧
    loop.branch.target? = some loop.top
  top : (loop.lap ++ [loop.branch]).head?.map (·.address) = some loop.top

/-- A block is a counted loop with the parts that a loop names. -/
structure IsIn (loop : CountedLoop) (block : Block) : Prop extends loop.Closes block where
  body : ∀ i ∈ loop.body, i.mnemonic.writes loop.register = false
  moves : loop.step ≠ 0

variable {block : Block} {loop : CountedLoop}

theorem closes_of_parts? (h : parts? block = some loop) : loop.Closes block := by
  simp only [parts?, Option.bind_eq_bind, Option.bind_eq_some_iff, Option.guard_eq_some',
    Option.pure_def, Option.some.injEq, Bool.and_eq_true, List.all_eq_true, Bool.not_eq_true',
    beq_iff_eq] at h
  obtain ⟨branch, hbranch, _, hbne, top, htarget, position, hposition, init, hinit,
      register, hloads,
    _, ⟨_, hbetween⟩, rfl⟩ := h
  obtain ⟨hlt, htop, _⟩ := List.findIdx?_eq_some_iff_getElem.mp hposition
  have hpassed := Block.drop_dropLast_append_last hlt
  rw [(Block.terminator?_eq_some.mp hbranch).2] at hpassed
  refine ⟨?_, hloads, ?_, hbetween, ?_, rfl, ?_, ⟨hbranch, hbne, htarget⟩, ?_⟩
  · have hbefore := splitTrailing_append (fun i => !(i.mnemonic == .ldx || i.mnemonic == .ldy))
      (block.instructions.take position)
    generalize splitTrailing (fun i => !(i.mnemonic == .ldx || i.mnemonic == .ldy))
      (block.instructions.take position) = before at hinit hbefore ⊢
    refine ⟨before.1.dropLast, ?_⟩
    rw [lap, splitTrailing_append, passing_last_append, hpassed, List.append_cons,
      List.dropLast_append_getLast? init hinit, ← List.append_assoc, hbefore, List.take_append_drop]
  · -- The search for the initialisation stops at a load of an index register.
    have hindex : init.mnemonic = .ldx ∨ init.mnemonic = .ldy := by
      simpa [or_iff_not_imp_left] using not_of_getLast?_splitTrailing hinit
    rcases hindex with hindex | hindex
    · rw [hindex] at hloads
      exact Or.inl (Option.some.inj hloads).symm
    · rw [hindex] at hloads
      exact Or.inr (Option.some.inj hloads).symm
  · intro i hi
    exact Option.isSome_iff_exists.mp
      (List.all_eq_true.mp List.all_takeWhile i (List.mem_reverse.mp hi))
  · intro i hi
    obtain ⟨_, hcompare⟩ := Option.filter_eq_some_iff.mp hi
    simp only [Bool.and_eq_true, beq_iff_eq] at hcompare
    exact hcompare.1
  · rw [lap, splitTrailing_append, passing_last_append, hpassed, List.head?_drop,
      List.getElem?_eq_getElem hlt, Option.map_some, beq_iff_eq.mp htop]

theorem isIn_of_ofBlock? (h : ofBlock? block = some loop) : loop.IsIn block := by
  obtain ⟨hparts, hcounts⟩ := Option.filter_eq_some_iff.mp h
  simp only [counts, Bool.and_eq_true, bne_iff_ne, List.all_eq_true, Bool.not_eq_true'] at hcounts
  exact ⟨closes_of_parts? hparts, hcounts.2, hcounts.1⟩

theorem Closes.mem_of_absorbed (h : loop.Closes block) :
    ∀ i ∈ loop.absorbed, i ∈ block.instructions := by
  obtain ⟨front, hparts⟩ := h.parts
  intro i hi
  rw [hparts]
  simp only [absorbed, lap, List.mem_append, List.mem_cons] at hi ⊢
  tauto

end CountedLoop

/-! ### Records -/

theorem pairwise_toList (fields : AddressSet) : fields.toList.Pairwise (· < ·) := by
  refine List.Pairwise.imp ?_ Std.ExtTreeSet.ordered_toList
  intro left right hlt
  exact compareOfLessAndEq_eq_lt.mp hlt

theorem head?_toList_le {fields : AddressSet} {first address : Address}
    (hfirst : fields.toList.head? = some first) (hmem : address ∈ fields.toList) :
    first ≤ address := by
  have hordered := pairwise_toList fields
  obtain ⟨rest, hfields⟩ := List.head?_eq_some_iff.mp hfirst
  rw [hfields] at hordered hmem
  rcases List.mem_cons.mp hmem with rfl | hrest
  · exact UInt16.le_refl _
  · exact UInt16.le_of_lt (List.rel_of_pairwise_cons hordered hrest)

namespace Shape

theorem storedPlace?_mem_recordFields {body : List Instruction} {i : Instruction}
    {address : Address} (hi : i ∈ body) (haddress : storedPlace? i = some address) :
    address ∈ (recordFields body).toList := by
  rw [Std.ExtTreeSet.mem_toList, recordFields, Std.ExtTreeSet.mem_ofList, List.contains_iff_mem]
  exact List.mem_filterMap.mpr ⟨i, hi, haddress⟩

/-- The stores of a block go nowhere below an address. -/
def StoresFrom (base : Address) (block : Block) : Prop :=
  ∀ i ∈ block.body, ∀ address, storedPlace? i = some address → base ≤ address

end Shape

/-! ### Matches -/

/-- What every match promises: it claims blocks at the front, its node stands at one of their
instructions, and it absorbs nothing but instructions of them. -/
structure Match.Fits (found : Match) (blocks : List Block) : Prop where
  isPrefix : found.blocks <+: blocks
  nonempty : found.blocks ≠ []
  anchored : ∃ i ∈ found.instructions, i.address = found.anchor
  absorbed : ∀ address ∈ found.control, ∃ i ∈ found.instructions, i.address = address

/-- Every claimed block closes with a test, and exactly the comparisons and branches of these are
absorbed. -/
structure Match.Tested (found : Match) : Prop where
  tests : ∀ block ∈ found.blocks, ∃ test, block.test? = some test
  control : found.control = Test.control (found.blocks.filterMap Block.test?)

/-- What the match of each shape promises beyond that. -/
def Match.Sound (found : Match) : Prop :=
  match found.shape with
  | .countUp | .countDown => True
  | .whileLoop => ∃ header body, found.blocks = [header, body]
  | .untilLoop => (∃ header body, found.blocks = [header, body]) ∨ ∃ block, found.blocks = [block]
  | .conditional | .conditionalChain => found.Tested
  | .dispatch => found.Tested ∧ ∀ block ∈ found.blocks.tail, block.instructions.length = 2
  | .record =>
    found.control = ∅ ∧ ∃ block base, found.blocks = [block] ∧
      found.subject = some (.absolute base) ∧
      Shape.StoresFrom base block
  | _ => found.control = ∅

namespace Match

theorem mem_addressesOf {instructions : List Instruction} {address : Address} :
    address ∈ addressesOf instructions ↔ ∃ i ∈ instructions, i.address = address := by
  rw [addressesOf, Std.ExtTreeSet.mem_ofList, List.contains_iff_mem, List.mem_map]

theorem absorbed_of_control_empty {found : Match} (h : found.control = ∅) :
    ∀ address ∈ found.control, ∃ i ∈ found.instructions, i.address = address := by
  intro address haddress
  rw [h] at haddress
  exact absurd haddress Std.ExtTreeSet.not_mem_empty

theorem absorbed_of_subset {found : Match} {instructions : List Instruction}
    (h : found.control = addressesOf instructions)
    (hsubset : ∀ i ∈ instructions, i ∈ found.instructions) :
    ∀ address ∈ found.control, ∃ i ∈ found.instructions, i.address = address := by
  intro address haddress
  rw [h, mem_addressesOf] at haddress
  obtain ⟨i, hi, rfl⟩ := haddress
  exact ⟨i, hsubset i hi, rfl⟩

theorem Fits.head?_blocks {found : Match} {blocks : List Block} (h : found.Fits blocks) :
    found.blocks.head? = blocks.head? := by
  obtain ⟨rest, hrest⟩ := h.isPrefix
  rw [← hrest, List.head?_append_of_ne_nil _ h.nonempty]

theorem Tested.absorbed {found : Match} (h : found.Tested) :
    ∀ address ∈ found.control, ∃ i ∈ found.instructions, i.address = address := by
  apply absorbed_of_subset h.control
  intro i hi
  obtain ⟨test, htest, hi⟩ := List.mem_flatMap.mp hi
  obtain ⟨block, hblock, hclosed⟩ := List.mem_filterMap.mp htest
  have hcloses := Block.test?_closes hclosed
  apply Block.mem_instructionsOf.mpr
  refine ⟨block, hblock, ?_⟩
  simp only [List.mem_cons, List.not_mem_nil, or_false] at hi
  rcases hi with rfl | rfl
  · exact hcloses.compare_mem
  · exact hcloses.branch_mem

end Match

/-- A match of blocks at the front that stands where its first block starts. -/
private theorem fits_of_anchor_start {found : Match} {blocks : List Block}
    (hclaimed : found.blocks <+: blocks) (hnonempty : found.blocks ≠ [])
    (hanchor : found.anchor = (found.blocks.head?.map Block.start).getD 0)
    (habsorbed : ∀ address ∈ found.control, ∃ i ∈ found.instructions, i.address = address) :
    found.Fits blocks := by
  refine ⟨hclaimed, hnonempty, ?_, habsorbed⟩
  obtain ⟨first, rest, hfound⟩ := List.exists_cons_of_ne_nil hnonempty
  obtain ⟨i, hi, haddress⟩ := first.start_mem
  refine ⟨i, Block.mem_instructionsOf.mpr ⟨first, by simp [hfound], hi⟩, ?_⟩
  rw [hanchor, haddress, hfound]
  rfl

private theorem tested_of_map_test? (found : Match) {tests : List Test}
    (h : found.blocks.map Block.test? = tests.map some)
    (hcontrol : found.control = Test.control tests) : found.Tested := by
  have hfilter : found.blocks.filterMap Block.test? = tests := by
    have := congrArg (List.filterMap id) h
    simpa [List.filterMap_map] using this
  refine ⟨fun block hblock => ?_, by rw [hfilter, hcontrol]⟩
  have hmem : block.test? ∈ tests.map some := h ▸ List.mem_map_of_mem hblock
  obtain ⟨test, _, htest⟩ := List.mem_map.mp hmem
  exact ⟨test, htest.symm⟩

namespace Shape

variable {symbols : SymbolTable} {blocks : List Block} {found : Match}

theorem detectCounted_promises (h : detectCounted symbols blocks = some found) :
    found.Fits blocks ∧ found.Sound := by
  obtain ⟨block, rest, loop, rfl, hloop, rfl⟩ := detectCounted_eq_some_iff.mp h
  have hmem : ∀ i ∈ loop.absorbed, i ∈ Block.instructionsOf [block] := by
    intro i hi
    apply Block.mem_instructionsOf.mpr
    exact ⟨block, List.mem_singleton_self block,
      (CountedLoop.isIn_of_ofBlock? hloop).mem_of_absorbed i hi⟩
  refine ⟨⟨List.prefix_append [block] rest, List.cons_ne_nil block [], ?_, ?_⟩, ?_⟩
  · exact ⟨loop.init, hmem _ (by simp [CountedLoop.absorbed]), rfl⟩
  · exact Match.absorbed_of_subset rfl hmem
  · by_cases hstep : 0 < loop.step <;> simp [Match.Sound, CountedLoop.toMatch, hstep]

theorem detectTopTested_promises (h : detectTopTested symbols blocks = some found) :
    found.Fits blocks ∧ found.Sound := by
  obtain ⟨header, body, rest, test, jump, rfl, htest, hjump, -, -, -, rfl⟩ :=
    detectTopTested_eq_some_iff.mp h
  have hcloses := Block.test?_closes htest
  refine ⟨fits_of_anchor_start (List.prefix_append [header, body] rest)
    (List.cons_ne_nil _ _) rfl ?_, ?_⟩
  · apply Match.absorbed_of_subset rfl
    intro i hi
    simp only [List.mem_cons, List.not_mem_nil, or_false] at hi
    rcases hi with rfl | rfl | rfl
    · exact Block.mem_instructionsOf.mpr ⟨header, List.mem_cons_self, hcloses.compare_mem⟩
    · exact Block.mem_instructionsOf.mpr ⟨header, List.mem_cons_self, hcloses.branch_mem⟩
    · exact Block.mem_instructionsOf.mpr
        ⟨body, List.mem_cons_of_mem _ List.mem_cons_self, Block.terminator?_mem hjump⟩
  · by_cases hequal : test.onEqual = true <;> simp [Match.Sound, Test.topMatch, hequal]

theorem detectBottomTested_promises (h : detectBottomTested symbols blocks = some found) :
    found.Fits blocks ∧ found.Sound := by
  obtain ⟨block, rest, test, position, rfl, htest, hposition, -, rfl⟩ :=
    detectBottomTested_eq_some_iff.mp h
  obtain ⟨htop, haddress, _⟩ := List.findIdx?_eq_some_iff_getElem.mp hposition
  have hcloses := Block.test?_closes htest
  have hmem {i : Instruction} (hi : i ∈ block.instructions) : i ∈ Block.instructionsOf [block] :=
    Block.mem_instructionsOf.mpr ⟨block, List.mem_singleton_self block, hi⟩
  refine ⟨⟨List.prefix_append [block] rest, List.cons_ne_nil block [], ?_, ?_⟩,
    Or.inr ⟨block, rfl⟩⟩
  · exact ⟨block.instructions[position], hmem (List.getElem_mem htop), beq_iff_eq.mp haddress⟩
  · apply Match.absorbed_of_subset rfl
    intro i hi
    rcases List.mem_pair.mp hi with rfl | rfl
    · exact hmem hcloses.compare_mem
    · exact hmem hcloses.branch_mem

theorem detectTestedLoop_promises (h : detectTestedLoop symbols blocks = some found) :
    found.Fits blocks ∧ found.Sound := by
  rcases detectTestedLoop_eq_some_iff.mp h with htop | ⟨-, hbottom⟩
  · exact detectTopTested_promises htop
  · exact detectBottomTested_promises hbottom

theorem detectConditional_promises (h : detectConditional symbols blocks = some found) :
    found.Fits blocks ∧ found.Sound := by
  obtain ⟨first, more, hforward, rfl⟩ := detectConditional_eq_some_iff.mp h
  have htests := Block.map_test?_take_forwardTests none blocks
  rw [hforward] at htests
  have hnonempty : blocks.take (first :: more).length ≠ [] := by
    intro hnil
    rw [hnil] at htests
    cases htests
  have htested := tested_of_map_test? (first.chainMatch more _) htests rfl
  refine ⟨fits_of_anchor_start (List.take_prefix _ _) hnonempty rfl htested.absorbed, ?_⟩
  cases more <;> exact htested

theorem detectDispatch_promises (h : detectDispatch symbols blocks = some found) :
    found.Fits blocks ∧ found.Sound := by
  obtain ⟨hzero, rfl⟩ := detectDispatch_eq_some_iff.mp h
  obtain ⟨length, hlength⟩ := Nat.exists_eq_succ_of_ne_zero hzero
  obtain ⟨first, rest, test, rfl, htest, -, hothers⟩ := Block.dispatchLength_tests hlength
  rw [hlength, List.take_succ_cons]
  have htested : (dispatchMatch (first :: rest.take length)).Tested := by
    refine ⟨List.forall_mem_cons.mpr ⟨⟨test, htest⟩, fun block hblock => ?_⟩, rfl⟩
    obtain ⟨-, other, hother, -⟩ := hothers block hblock
    exact ⟨other, hother⟩
  refine ⟨fits_of_anchor_start ?_ (List.cons_ne_nil _ _) rfl htested.absorbed,
    htested, fun block hblock => (hothers block hblock).1⟩
  exact List.prefix_cons_iff.mpr (Or.inr ⟨_, rfl, List.take_prefix _ _⟩)

/-- A match of one whole block that absorbs nothing. -/
private theorem fits_of_single {block : Block} {rest : List Block}
    (hclaimed : found.blocks = [block]) (hanchor : found.anchor = block.start)
    (hcontrol : found.control = ∅) : found.Fits (block :: rest) := by
  refine fits_of_anchor_start ?_ ?_ ?_ (Match.absorbed_of_control_empty hcontrol)
  · rw [hclaimed]
    exact List.prefix_append [block] rest
  · rw [hclaimed]
    exact List.cons_ne_nil block []
  · rw [hclaimed, hanchor]
    rfl

theorem detectCall_promises (h : detectCall symbols blocks = some found) :
    found.Fits blocks ∧ found.Sound := by
  obtain ⟨block, rest, shape, target, rfl, hcalls, rfl⟩ := exists_of_detectCall h
  refine ⟨fits_of_single rfl rfl rfl, ?_⟩
  cases hcalls <;> rfl

theorem detectRecord_promises (h : detectRecord symbols blocks = some found) :
    found.Fits blocks ∧ found.Sound := by
  obtain ⟨block, rest, first, last, rfl, hfills, rfl⟩ := exists_of_detectRecord h
  refine ⟨fits_of_single rfl rfl rfl, rfl, block, first, rfl, rfl, ?_⟩
  intro i hi address haddress
  exact head?_toList_le hfills.head (storedPlace?_mem_recordFields hi haddress)

theorem detectTrait_promises {shape : Shape} {test : Instruction → Bool}
    (hshape : shape.isTrait = true) (h : detectTrait shape test symbols blocks = some found) :
    found.Fits blocks ∧ found.Sound := by
  obtain ⟨block, rest, hit, rfl, -, rfl⟩ := detectTrait_eq_some_iff.mp h
  refine ⟨fits_of_single rfl rfl rfl, ?_⟩
  cases shape <;> first | rfl | cases hshape

theorem detectRepetition_promises (h : detectRepetition symbols blocks = some found) :
    found.Fits blocks ∧ found.Sound := by
  obtain ⟨-, varying, shape, hvarying, hfolds, rfl⟩ := exists_of_detectRepetition h
  have hnonempty : blocks.take (Block.shapeLength blocks) ≠ [] := by
    intro hnil
    rw [hnil] at hvarying
    cases hvarying
  refine ⟨fits_of_anchor_start (List.take_prefix _ _) hnonempty rfl
    (Match.absorbed_of_control_empty rfl), ?_⟩
  cases hfolds <;> rfl

/-- Whatever a detector finds keeps the promises of its shape. -/
theorem FoundBy.promises (h : FoundBy symbols blocks found) : found.Fits blocks ∧ found.Sound := by
  cases h with
  | counted h => exact detectCounted_promises h
  | topTested h => exact detectTopTested_promises h
  | bottomTested h => exact detectBottomTested_promises h
  | conditional h => exact detectConditional_promises h
  | dispatch h => exact detectDispatch_promises h
  | call h => exact detectCall_promises h
  | record h => exact detectRecord_promises h
  | repetition h => exact detectRepetition_promises h
  | trait hshape h => exact detectTrait_promises hshape h

/-- Whatever is recognised at the front of some blocks keeps the promises of its shape. -/
theorem recognise_promises (symbols : SymbolTable) (block : Block) (rest : List Block) :
    (recognise symbols (block :: rest)).Fits (block :: rest) ∧
      (recognise symbols (block :: rest)).Sound := by
  rcases recognise_cases symbols (block :: rest) with hfound | hplain
  · exact hfound.promises
  · rw [hplain]
    exact ⟨fits_of_single rfl rfl rfl, rfl⟩

end Shape

end Lift6502
