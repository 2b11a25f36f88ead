import Lift6502.Proofs.Shape.Positions

/-!
# Which blocks a match joins

Four detectors claim several blocks. Chains of conditionals, dispatches and repeated code check that
each block runs into the next one. A loop with its test at the top looks at two jumps only, the one
out of the header and the one back to it, so a gap in memory between header and body goes unnoticed.
That is the only way in which blocks are joined that do not follow one another.
-/

namespace Lift6502

namespace Block

/-- Whether control that runs off the end of each block but the last enters the next one. -/
def Joined (blocks : List Block) : Prop :=
  blocks.IsChain fun block next => block.nextAddress = next.start

theorem joined_of_length_le_one {blocks : List Block} (h : blocks.length ≤ 1) : Joined blocks := by
  match blocks, h with
  | [], _ => exact List.IsChain.nil
  | [block], _ => exact List.IsChain.singleton block

theorem joined_pair {block next : Block} :
    Joined [block, next] ↔ block.nextAddress = next.start := by
  simp [Joined]

theorem fallsInto_eq_true {block next : Block} :
    block.fallsInto next = true ↔ block.nextAddress = next.start :=
  beq_iff_eq

/-- A run in which each block is entered from the one before is joined. -/
theorem joined_cons_take_runLength {goesOn : Block → Block → Bool}
    (h : ∀ previous next, goesOn previous next = true → previous.fallsInto next = true)
    (previous : Block) (blocks : List Block) :
    Joined (previous :: blocks.take (Positional.runLength goesOn previous blocks)) := by
  induction blocks generalizing previous with
  | nil => exact List.IsChain.singleton previous
  | cons next rest ih =>
    rw [Positional.runLength]
    split
    · rename_i hnext
      exact List.IsChain.cons_cons (fallsInto_eq_true.mp (h previous next hnext)) (ih next)
    · exact List.IsChain.singleton previous

theorem joined_take_dispatchLength (blocks : List Block) :
    Joined (blocks.take (dispatchLength blocks)) := by
  cases blocks with
  | nil => exact List.IsChain.nil
  | cons first rest =>
    rw [dispatchLength]
    split
    · rename_i test _
      have henters :
          ∀ previous next, Positional.continuesDispatch test.register previous next = true →
          previous.fallsInto next = true := by
        intro previous next hnext
        obtain ⟨_, _, hnext⟩ := Option.any_eq_true _ _ |>.mp hnext
        exact (Bool.and_eq_true_iff.mp hnext).2
      have hrun := joined_cons_take_runLength henters first rest
      rw [← Positional.dispatchTail_eq_runLength] at hrun
      split
      · split
        · exact List.IsChain.nil
        · exact hrun
      · exact List.IsChain.nil
    · exact List.IsChain.nil

theorem joined_take_shapeLength (blocks : List Block) :
    Joined (blocks.take (shapeLength blocks)) := by
  cases blocks with
  | nil => exact List.IsChain.nil
  | cons first rest =>
    have henters : ∀ previous next, Positional.continuesShape first previous next = true →
        previous.fallsInto next = true :=
      fun previous next hnext => (Bool.and_eq_true_iff.mp hnext).2
    have hrun := joined_cons_take_runLength henters first rest
    rw [← Positional.shapeTail_eq_runLength] at hrun
    rw [shapeLength]
    split
    · exact List.IsChain.nil
    · exact hrun

/-- The tests behind a block go on only where it runs into them. -/
theorem joined_cons_take_forwardTests (previous : Block) (blocks : List Block) :
    Joined (previous :: blocks.take (forwardTests (some previous) blocks).length) := by
  induction blocks generalizing previous with
  | nil => exact List.IsChain.singleton previous
  | cons block rest ih =>
    rw [forwardTests]
    split
    · split
      · exact List.IsChain.singleton previous
      · rename_i hgoesOn
        simp only [Bool.or_eq_true, not_or, Option.any_some, Bool.not_eq_true', Bool.not_eq_false]
          at hgoesOn
        exact List.IsChain.cons_cons (fallsInto_eq_true.mp hgoesOn.2) (ih block)
    · exact List.IsChain.singleton previous

theorem joined_take_forwardTests (blocks : List Block) :
    Joined (blocks.take (forwardTests none blocks).length) := by
  cases blocks with
  | nil => exact List.IsChain.nil
  | cons block rest =>
    rw [forwardTests]
    split
    · split
      · exact List.IsChain.nil
      · exact joined_cons_take_forwardTests block rest
    · exact List.IsChain.nil

end Block

namespace Shape

variable {symbols : SymbolTable} {blocks : List Block} {found : Match}

/-! ### Loops with their test at the top -/

/-- Whether two blocks are taken for a loop with its test at the top: one leaves behind the jump
with which the other goes back to it. -/
def LoopsBack (header body : Block) : Prop :=
  ∃ test jump, header.test? = some test ∧ body.terminator? = some jump ∧ jump.mnemonic = .jmp ∧
    jump.target? = some header.start ∧ test.target = jump.nextAddress

/-- Whether the blocks at the front are taken for a loop with its test at the top although its
header does not run into its body. A header that is a counted loop by itself is taken for that. -/
def LoopsAcrossGap (blocks : List Block) : Prop :=
  ∃ header body rest, blocks = header :: body :: rest ∧ CountedLoop.ofBlock? header = none ∧
    LoopsBack header body ∧ header.nextAddress ≠ body.start

theorem blocks_of_detectTopTested (h : detectTopTested symbols blocks = some found) :
    ∃ header body rest, blocks = header :: body :: rest ∧ LoopsBack header body ∧
      found.blocks = [header, body] := by
  obtain ⟨header, body, rest, test, jump, hblocks, htest, hjump, hmnemonic, hback, hleaves, rfl⟩ :=
    detectTopTested_eq_some_iff.mp h
  exact ⟨header, body, rest, hblocks, ⟨test, jump, htest, hjump, hmnemonic, hback, hleaves⟩, rfl⟩

theorem LoopsBack.exists_detectTopTested {header body : Block} (h : LoopsBack header body)
    (symbols : SymbolTable) (rest : List Block) :
    ∃ found, detectTopTested symbols (header :: body :: rest) = some found ∧
      found.blocks = [header, body] := by
  obtain ⟨test, jump, htest, hjump, hmnemonic, hback, hleaves⟩ := h
  exact ⟨_, detectTopTested_eq_some_iff.mpr
    ⟨header, body, rest, test, jump, rfl, htest, hjump, hmnemonic, hback, hleaves, rfl⟩, rfl⟩

theorem detectCounted_eq_none_iff {header : Block} {rest : List Block} :
    detectCounted symbols (header :: rest) = none ↔ CountedLoop.ofBlock? header = none := by
  cases hloop : CountedLoop.ofBlock? header <;> simp [detectCounted, hloop]

/-! ### The other detectors -/

theorem joined_of_detectConditional (h : detectConditional symbols blocks = some found) :
    Block.Joined found.blocks := by
  obtain ⟨first, more, hforward, rfl⟩ := detectConditional_eq_some_iff.mp h
  have hjoined := Block.joined_take_forwardTests blocks
  rwa [hforward] at hjoined

theorem joined_of_detectDispatch (h : detectDispatch symbols blocks = some found) :
    Block.Joined found.blocks := by
  obtain ⟨-, rfl⟩ := detectDispatch_eq_some_iff.mp h
  exact Block.joined_take_dispatchLength blocks

theorem joined_of_detectRepetition (h : detectRepetition symbols blocks = some found) :
    Block.Joined found.blocks := by
  obtain ⟨-, _, _, -, -, rfl⟩ := exists_of_detectRepetition h
  exact Block.joined_take_shapeLength blocks

/-- Only the test at the top of a loop joins blocks without looking whether one runs into the
other. -/
theorem FoundBy.joined_or_topTested (h : FoundBy symbols blocks found) :
    Block.Joined found.blocks ∨ detectTopTested symbols blocks = some found := by
  rcases h.single_or_several with ⟨block, hblock⟩ | htop | hconditional | hdispatch | hrepetition
  · rw [hblock]
    exact Or.inl (List.IsChain.singleton block)
  · exact Or.inr htop
  · exact Or.inl (joined_of_detectConditional hconditional)
  · exact Or.inl (joined_of_detectDispatch hdispatch)
  · exact Or.inl (joined_of_detectRepetition hrepetition)

/-! ### Whatever is recognised -/

theorem recognise_of_detectCounted (h : detectCounted symbols blocks = some found) :
    recognise symbols blocks = found := by
  simp [recognise, detectors, h]

theorem recognise_of_detectTopTested (hcounted : detectCounted symbols blocks = none)
    (h : detectTopTested symbols blocks = some found) : recognise symbols blocks = found := by
  simp [recognise, detectors, hcounted, detectTestedLoop, h]

/-- What is recognised joins blocks that run into one another, unless it is a loop across a gap. -/
theorem recognised_joined_iff (symbols : SymbolTable) (blocks : List Block) :
    Block.Joined (recognise symbols blocks).blocks ↔ ¬ LoopsAcrossGap blocks := by
  constructor
  · rintro hjoined ⟨header, body, rest, rfl, hcounted, hloops, hgap⟩
    obtain ⟨found, hfound, hblocks⟩ := hloops.exists_detectTopTested symbols rest
    rw [recognise_of_detectTopTested (detectCounted_eq_none_iff.mpr hcounted) hfound, hblocks,
      Block.joined_pair] at hjoined
    exact hgap hjoined
  · intro hgap
    cases hcounted : detectCounted symbols blocks with
    | some found =>
      obtain ⟨block, _, _, -, -, hmatch⟩ := detectCounted_eq_some_iff.mp hcounted
      rw [recognise_of_detectCounted hcounted, ← hmatch]
      exact List.IsChain.singleton block
    | none =>
      rcases recognise_cases symbols blocks with hfound | hplain
      · rcases hfound.joined_or_topTested with hjoined | htop
        · exact hjoined
        · obtain ⟨header, body, rest, rfl, hloops, hblocks⟩ := blocks_of_detectTopTested htop
          rw [hblocks, Block.joined_pair]
          by_contra hapart
          exact hgap
            ⟨header, body, rest, rfl, detectCounted_eq_none_iff.mp hcounted, hloops, hapart⟩
      · rw [hplain]
        exact Block.joined_of_length_le_one (List.length_take_le 1 blocks)

/-- A test, a gap, and a jump back to the test that the test leaves to. -/
def gappedLoop : List Instruction :=
  [{ address := 0xC000, mnemonic := .cmp, operand := .immediate 1 },
   { address := 0xC002, mnemonic := .bne, operand := .absolute 0xC013 },
   { address := 0xC010, mnemonic := .jmp, operand := .absolute 0xC000 },
   { address := 0xC013, mnemonic := .rts, operand := .implied }]

theorem gappedLoop_not_joined :
    (recognise {} (Block.partition gappedLoop)).blocks.map
      (fun block => (block.start, block.nextAddress))
        = [(0xC000, 0xC004), (0xC010, 0xC013)] ∧
      ¬ Block.Joined (recognise {} (Block.partition gappedLoop)).blocks := by
  have hblocks : (recognise {} (Block.partition gappedLoop)).blocks.map
      (fun block => (block.start, block.nextAddress))
      = [(0xC000, 0xC004), (0xC010, 0xC013)] := by decide +kernel
  refine ⟨hblocks, ?_⟩
  unfold Block.Joined
  decide +kernel

end Shape

end Lift6502
