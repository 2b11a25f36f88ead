import Lift6502.Shape.Recognise
import Mathlib.Data.Option.Basic

/-!
# What the detectors find

Each detector finds one kind of match, under conditions of its own. Both are said here once for
every detector. All that later modules know of a match comes from these statements, so that a
detector that changes its conditions changes its statement here and the lemmas that use it.
-/

namespace Lift6502.Shape

variable {symbols : SymbolTable} {blocks : List Block} {found : Match}

/-! ### Loops -/

theorem detectCounted_eq_some_iff :
    detectCounted symbols blocks = some found ↔
      ∃ block rest loop, blocks = block :: rest ∧ CountedLoop.ofBlock? block = some loop ∧
        loop.toMatch block = found := by
  simp only [detectCounted, Option.bind_eq_bind, Option.bind_eq_some_iff, List.head?_eq_some_iff,
    Option.pure_def, Option.some.injEq, exists_and_left, exists_and_right]

theorem detectTopTested_eq_some_iff :
    detectTopTested symbols blocks = some found ↔
      ∃ header body rest test jump, blocks = header :: body :: rest ∧ header.test? = some test ∧
        body.terminator? = some jump ∧ jump.mnemonic = .jmp ∧ jump.target? = some header.start ∧
        test.target = jump.nextAddress ∧ test.topMatch header body jump = found := by
  match blocks with
  | [] | [_] => simp [detectTopTested]
  | header :: body :: rest =>
    simp only [detectTopTested, Option.bind_eq_bind, Option.bind_eq_some_iff, Option.guard_eq_some',
      Option.pure_def, Option.some.injEq, Bool.and_eq_true, beq_iff_eq, List.cons.injEq]
    grind

theorem detectBottomTested_eq_some_iff :
    detectBottomTested symbols blocks = some found ↔
      ∃ block rest test position, blocks = block :: rest ∧ block.test? = some test ∧
        block.instructions.findIdx? (·.address == test.target) = some position ∧
        position + 1 < block.instructions.length ∧ test.bottomMatch block = found := by
  simp only [detectBottomTested, Option.bind_eq_bind, Option.bind_eq_some_iff,
    List.head?_eq_some_iff, Option.guard_eq_some', Option.pure_def, Option.some.injEq,
    exists_and_left, exists_and_right, exists_const]

theorem detectTestedLoop_eq_some_iff :
    detectTestedLoop symbols blocks = some found ↔
      detectTopTested symbols blocks = some found ∨
        detectTopTested symbols blocks = none ∧ detectBottomTested symbols blocks = some found := by
  rw [detectTestedLoop, Option.orElse_eq_orElse, Option.orElse_eq_or, Option.or_eq_some_iff]

/-! ### Tests -/

theorem detectConditional_eq_some_iff :
    detectConditional symbols blocks = some found ↔
      ∃ first more, Block.forwardTests none blocks = first :: more ∧
        first.chainMatch more (blocks.take (first :: more).length) = found := by
  unfold detectConditional
  split
  · rename_i hnil
    simp [hnil]
  · rename_i first more hforward
    rw [Option.some.injEq, hforward]
    constructor
    · exact fun h => ⟨first, more, rfl, h⟩
    · rintro ⟨first, more, ⟨⟩, h⟩
      exact h

theorem detectDispatch_eq_some_iff :
    detectDispatch symbols blocks = some found ↔
      Block.dispatchLength blocks ≠ 0 ∧
        dispatchMatch (blocks.take (Block.dispatchLength blocks)) = found := by
  unfold detectDispatch
  split
  · rename_i hzero
    simp [hzero]
  · rename_i hlength
    rw [Option.some.injEq, and_iff_right hlength]

/-- Whether a block is nothing but a call of a named routine, or nothing but a jump. -/
inductive Calls (symbols : SymbolTable) (block : Block) : Shape → Address → Prop
  | call {call : Instruction} {target : Address} (hbody : block.body = [call])
    (htarget : call.callTarget? = some target) (hnamed : (symbols.name? target).isSome) :
    Calls symbols block .call target
  | jump {jump : Instruction} {target : Address} (halone : block.instructions = [jump])
    (hmnemonic : jump.mnemonic = .jmp) (htarget : jump.target? = some target) :
    Calls symbols block .jump target

theorem exists_of_detectCall (h : detectCall symbols blocks = some found) :
    ∃ block rest shape target, blocks = block :: rest ∧ Calls symbols block shape target ∧
      found = { shape, blocks := [block], targets := [target] } := by
  simp only [detectCall, Option.bind_eq_bind, Option.bind_eq_some_iff, List.head?_eq_some_iff] at h
  obtain ⟨block, ⟨rest, hblocks⟩, h⟩ := h
  split at h
  · rename_i call hbody
    simp only [Option.bind_eq_some_iff, Option.guard_eq_some', Option.pure_def, Option.some.injEq]
      at h
    obtain ⟨target, htarget, _, hnamed, rfl⟩ := h
    exact ⟨block, rest, .call, target, hblocks, .call hbody htarget hnamed, rfl⟩
  · rename_i jump halone _
    simp only [Option.bind_eq_some_iff, Option.guard_eq_some', Option.pure_def, Option.some.injEq,
      beq_iff_eq] at h
    obtain ⟨_, hmnemonic, target, htarget, rfl⟩ := h
    exact ⟨block, rest, .jump, target, hblocks, .jump halone hmnemonic htarget, rfl⟩
  · cases h

/-! ### Whole blocks -/

/-- Whether a block of loads and stores fills the places from a first one to a last one. -/
structure FillsBetween (block : Block) (first last : Address) : Prop where
  length : 2 ≤ block.body.length
  body : ∀ i ∈ block.body, fillsRecord i = true
  head : (recordFields block.body).toList.head? = some first
  getLast : (recordFields block.body).toList.getLast? = some last
  many : 2 ≤ (recordFields block.body).toList.length
  below : last < Address.ioStart
  dense : last.toNat - first.toNat + 1 = (recordFields block.body).toList.length

theorem exists_of_detectRecord (h : detectRecord symbols blocks = some found) :
    ∃ block rest first last, blocks = block :: rest ∧ FillsBetween block first last ∧
      found = {
        shape := .record
        blocks := [block]
        subject := some (.absolute first)
        operands := (recordFields block.body).toList.map .absolute } := by
  simp only [detectRecord, Option.bind_eq_bind, Option.bind_eq_some_iff, Option.guard_eq_some',
    Option.pure_def, Option.some.injEq, Bool.and_eq_true, decide_eq_true_eq, List.all_eq_true,
    beq_iff_eq] at h
  obtain ⟨block, hblock, _, ⟨hlength, hbody⟩, first, hfirst, last, hlast, _,
    ⟨⟨hmany, hbelow⟩, hdense⟩, rfl⟩ := h
  obtain ⟨rest, hblocks⟩ := List.head?_eq_some_iff.mp hblock
  exact ⟨block, rest, first, last, hblocks, ⟨hlength, hbody, hfirst, hlast, hmany, hbelow, hdense⟩,
    rfl⟩

theorem detectTrait_eq_some_iff {shape : Shape} {test : Instruction → Bool} :
    detectTrait shape test symbols blocks = some found ↔
      ∃ block rest hit, blocks = block :: rest ∧ block.instructions.find? test = some hit ∧
        { shape, blocks := [block], subject := some hit.operand } = found := by
  simp only [detectTrait, Option.bind_eq_bind, Option.bind_eq_some_iff, List.head?_eq_some_iff,
    Option.pure_def, Option.some.injEq, exists_and_left, exists_and_right]

/-- Whether blocks and the operands that vary among them are written as an unrolled loop, or as a
template. -/
inductive Folds (claimed : List Block) (varying : List Variation) : Shape → Prop
  | unrolled (hthrough : ∀ block ∈ claimed, runsThrough block = true)
    (hfoldable : ∀ variation ∈ varying, variation.isFoldable = true) :
    Folds claimed varying .unrolled
  | template (hparameter : ∀ variation ∈ varying, variation.isParameter = true) :
    Folds claimed varying .template

theorem exists_of_detectRepetition (h : detectRepetition symbols blocks = some found) :
    2 ≤ Block.shapeLength blocks ∧
      ∃ varying shape, Block.variations? (blocks.take (Block.shapeLength blocks)) = some varying ∧
        Folds (blocks.take (Block.shapeLength blocks)) varying shape ∧
        found = {
          shape
          blocks := blocks.take (Block.shapeLength blocks)
          operands := [.immediate (UInt8.ofNat (min (Block.shapeLength blocks) 255))] } := by
  simp only [detectRepetition, Option.bind_eq_bind, Option.bind_eq_some_iff, Option.guard_eq_some',
    Option.pure_def] at h
  obtain ⟨_, hlength, varying, hvarying, h⟩ := h
  refine ⟨hlength, varying, ?_⟩
  split at h
  · rename_i hfolds
    rw [Bool.and_eq_true, List.all_eq_true, List.all_eq_true] at hfolds
    exact ⟨.unrolled, hvarying, .unrolled hfolds.1 hfolds.2, (Option.some.inj h).symm⟩
  · split at h
    · rename_i hparameters
      rw [List.all_eq_true] at hparameters
      exact ⟨.template, hvarying, .template hparameters, (Option.some.inj h).symm⟩
    · cases h

/-! ### All detectors -/

/-- Whether a shape is told by a single instruction. -/
def isTrait : Shape → Bool
  | .bitField | .globalVariable | .pointer | .timer | .inputHandler | .interrupt => true
  | _ => false

/-- What a match at the front of some blocks was found by. -/
inductive FoundBy (symbols : SymbolTable) (blocks : List Block) (found : Match) : Prop
  | counted (h : detectCounted symbols blocks = some found)
  | topTested (h : detectTopTested symbols blocks = some found)
  | bottomTested (h : detectBottomTested symbols blocks = some found)
  | conditional (h : detectConditional symbols blocks = some found)
  | dispatch (h : detectDispatch symbols blocks = some found)
  | call (h : detectCall symbols blocks = some found)
  | record (h : detectRecord symbols blocks = some found)
  | repetition (h : detectRepetition symbols blocks = some found)
  | trait {shape : Shape} {test : Instruction → Bool} (hshape : shape.isTrait = true)
    (h : detectTrait shape test symbols blocks = some found)

theorem foundBy_of_mem_detectors {detect : Detector} (hdetect : detect ∈ detectors)
    (h : detect symbols blocks = some found) : FoundBy symbols blocks found := by
  simp only [detectors, List.mem_cons, List.not_mem_nil, or_false] at hdetect
  rcases hdetect with rfl | rfl | rfl | rfl | rfl | rfl | rfl | rfl | rfl | rfl | rfl | rfl | rfl
  · exact .counted h
  · rcases detectTestedLoop_eq_some_iff.mp h with htop | ⟨-, hbottom⟩
    · exact .topTested htop
    · exact .bottomTested hbottom
  · exact .conditional h
  · exact .dispatch h
  · exact .call h
  · exact .record h
  · exact .repetition h
  all_goals exact .trait rfl h

/-- Only four detectors claim more than one block. -/
theorem FoundBy.single_or_several (h : FoundBy symbols blocks found) :
    (∃ block, found.blocks = [block]) ∨ detectTopTested symbols blocks = some found ∨
      detectConditional symbols blocks = some found ∨ detectDispatch symbols blocks = some found ∨
      detectRepetition symbols blocks = some found := by
  cases h with
  | topTested h => exact Or.inr (Or.inl h)
  | conditional h => exact Or.inr (Or.inr (Or.inl h))
  | dispatch h => exact Or.inr (Or.inr (Or.inr (Or.inl h)))
  | repetition h => exact Or.inr (Or.inr (Or.inr (Or.inr h)))
  | counted h =>
    obtain ⟨block, _, _, -, -, rfl⟩ := detectCounted_eq_some_iff.mp h
    exact Or.inl ⟨block, rfl⟩
  | bottomTested h =>
    obtain ⟨block, _, _, _, -, -, -, -, rfl⟩ := detectBottomTested_eq_some_iff.mp h
    exact Or.inl ⟨block, rfl⟩
  | call h =>
    obtain ⟨block, _, _, _, -, -, rfl⟩ := exists_of_detectCall h
    exact Or.inl ⟨block, rfl⟩
  | record h =>
    obtain ⟨block, _, _, _, -, -, rfl⟩ := exists_of_detectRecord h
    exact Or.inl ⟨block, rfl⟩
  | trait _ h =>
    obtain ⟨block, _, _, -, -, rfl⟩ := detectTrait_eq_some_iff.mp h
    exact Or.inl ⟨block, rfl⟩

/-- A detector found what was recognised, or it is plain code. -/
theorem recognise_cases (symbols : SymbolTable) (blocks : List Block) :
    FoundBy symbols blocks (recognise symbols blocks) ∨
      recognise symbols blocks = { shape := .plain, blocks := blocks.take 1 } := by
  unfold recognise
  cases hfound : detectors.findSome? fun detect => detect symbols blocks with
  | none => exact Or.inr rfl
  | some found =>
    obtain ⟨detect, hdetect, h⟩ := List.exists_of_findSome?_eq_some hfound
    exact Or.inl (foundBy_of_mem_detectors hdetect h)

end Lift6502.Shape
