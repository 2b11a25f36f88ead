import Lift6502.Proofs.Shape.LoopPositions

/-!
# Detectors by position

The other detectors by position, and with them the recognition of whatever stands at the front. Runs
of blocks are measured by counting up, each block judged with the one before it. As for loops no
access fails, and the same is found. Since counted loops are looked for first, steps that overflow
stop the recognition whatever the block would be taken for.
-/

namespace Lift6502.Positional

open Checked

/-! ### Runs of blocks -/

/-- How many blocks behind a position go on with what stands there, each judged with the block
before it. -/
def runFrom (goesOn : Block → Block → Checked Bool) (blocks : List Block) (position : Nat) :
    Checked Nat :=
  if position + 1 < blocks.length then do
    let previous ← get blocks position
    let next ← get blocks (position + 1)
    let isNext ← goesOn previous next
    if isNext then do
      let others ← runFrom goesOn blocks (position + 1)
      return others + 1
    else return 0
  else return 0
termination_by blocks.length - position

def runLength (goesOn : Block → Block → Bool) (previous : Block) : List Block → Nat
  | [] => 0
  | next :: rest => if goesOn previous next then runLength goesOn next rest + 1 else 0

theorem runFrom_eq_value {goesOn : Block → Block → Checked Bool} {holds : Block → Block → Bool}
    (h : ∀ previous next, goesOn previous next = value (holds previous next)) {blocks : List Block}
    {position : Nat} {previous : Block} {rest : List Block}
    (hblocks : blocks.drop position = previous :: rest) :
    runFrom goesOn blocks position = value (runLength holds previous rest) := by
  have hlength := congrArg List.length hblocks
  rw [List.length_drop] at hlength
  induction rest generalizing position previous with
  | nil =>
    have hend : ¬ position + 1 < blocks.length := by
      simp only [List.length_cons, List.length_nil] at hlength
      omega
    rw [runFrom, if_neg hend]
    rfl
  | cons next rest ih =>
    have hmore : position + 1 < blocks.length := by
      simp only [List.length_cons] at hlength
      omega
    have hfirst : blocks[position]? = some previous := by
      rw [← List.head?_drop, hblocks]
      rfl
    have hrest : blocks.drop (position + 1) = next :: rest := by
      rw [← List.tail_drop, hblocks]
      rfl
    have hnext : blocks[position + 1]? = some next := by
      rw [← List.head?_drop, hrest]
      rfl
    rw [runFrom, if_pos hmore, get_eq_value hfirst, value_bind, get_eq_value hnext, value_bind, h,
      value_bind, runLength]
    split
    · rw [ih hrest (by rw [← List.length_drop, hrest])]
      rfl
    · rfl

theorem runLength_le_length (goesOn : Block → Block → Bool) (previous : Block)
    (blocks : List Block) : runLength goesOn previous blocks ≤ blocks.length := by
  induction blocks generalizing previous with
  | nil => exact Nat.le_refl 0
  | cons next rest ih =>
    have hrest := ih next
    rw [runLength, List.length_cons]
    split <;> omega

/-- Whether a block goes on with a dispatch on a register. -/
def dispatchesOn (register : Register) (previous next : Block) : Checked Bool := do
  let found ← attempt (test next)
  return found.any fun test =>
    next.instructions.length == 2 && test.onEqual && test.register == register &&
      previous.fallsInto next

def continuesDispatch (register : Register) (previous next : Block) : Bool :=
  next.test?.any fun test =>
    next.instructions.length == 2 && test.onEqual && test.register == register &&
      previous.fallsInto next

def continuesShape (first previous next : Block) : Bool :=
  next.sameShape first && previous.fallsInto next

def dispatchLength (blocks : List Block) : Checked Nat := do
  let found ← attempt (offer blocks.head? >>= test)
  match found with
  | some test =>
    if test.onEqual then do
      let others ← runFrom (dispatchesOn test.register) blocks 0
      return if others + 1 < 2 then 0 else others + 1
    else return 0
  | none => return 0

def shapeLength (blocks : List Block) : Checked Nat :=
  match blocks.head? with
  | some first => do
    let body ← body first
    if body.length < 2 then return 0
    else do
      let others ← runFrom (fun previous next => return continuesShape first previous next) blocks 0
      return others + 1
  | none => return 0

theorem dispatchTail_eq_runLength (register : Register) (previous : Block) (blocks : List Block) :
    Block.dispatchTail register previous blocks
      = runLength (continuesDispatch register) previous blocks := by
  induction blocks generalizing previous with
  | nil => rfl
  | cons next rest ih =>
    rw [Block.dispatchTail, runLength, continuesDispatch]
    cases next.test? with
    | none => rfl
    | some test => simp only [ih, Option.any_some]

theorem dispatchesOn_eq_value (register : Register) (previous next : Block) :
    dispatchesOn register previous next = value (continuesDispatch register previous next) := by
  rw [dispatchesOn, test_eq_offer, attempt_offer]
  rfl

theorem dispatchLength_eq_value (blocks : List Block) :
    dispatchLength blocks = value (Block.dispatchLength blocks) := by
  cases blocks with
  | nil => rfl
  | cons first rest =>
    have hfirst : (offer (first :: rest).head? >>= test) = offer first.test? := test_eq_offer first
    rw [dispatchLength, hfirst, attempt_offer, value_bind, Block.dispatchLength]
    cases first.test? with
    | none => rfl
    | some test =>
      have hrun := runFrom_eq_value (dispatchesOn_eq_value test.register)
        (List.drop_zero (l := first :: rest))
      rw [← dispatchTail_eq_runLength] at hrun
      simp only [hrun, value_bind]
      cases Block.dispatchTail test.register first rest <;> split <;> rfl

theorem shapeTail_eq_runLength (first previous : Block) (blocks : List Block) :
    Block.shapeTail first previous blocks = runLength (continuesShape first) previous blocks := by
  induction blocks generalizing previous with
  | nil => rfl
  | cons next rest ih =>
    rw [Block.shapeTail, runLength, ih]
    rfl

theorem shapeLength_eq_value (blocks : List Block) :
    shapeLength blocks = value (Block.shapeLength blocks) := by
  cases blocks with
  | nil => rfl
  | cons first rest =>
    have hgoesOn (previous next : Block) :
        (return continuesShape first previous next : Checked Bool)
        = value (continuesShape first previous next) := rfl
    have hrun := runFrom_eq_value hgoesOn (List.drop_zero (l := first :: rest))
    rw [← shapeTail_eq_runLength] at hrun
    rw [shapeLength, Block.shapeLength]
    simp only [List.head?_cons, body_eq_value, hrun, value_bind]
    split <;> rfl

/-! ### Tests that branch forward -/

/-- Whether the block at a position is entered from the one before it, if there is one. -/
def entered (blocks : List Block) (block : Block) : Nat → Checked Bool
  | 0 => return true
  | position + 1 => do
    let previous ← get blocks position
    return previous.fallsInto block

def forwardTests (blocks : List Block) (position : Nat) : Checked (List Test) :=
  if position < blocks.length then do
    let rest ← slice blocks position blocks.length
    let block ← get rest 0
    let found ← attempt (test block)
    match found with
    | some test => do
      let length ← dispatchLength rest
      let isEntered ← entered blocks block position
      if test.target ≤ block.finish || Block.isLoopHeader rest || 0 < length || !isEntered
        then return []
      else do
        let others ← forwardTests blocks (position + 1)
        return test :: others
    | none => return []
  else return []
termination_by blocks.length - position

def detectConditional : Detector := fun _ blocks => do
  let tests ← forwardTests blocks 0
  let first ← offer tests.head?
  let claimed ← slice blocks 0 tests.length
  return {
    shape := if tests.length = 1 then .conditional else .conditionalChain
    blocks := claimed
    register := some first.register
    subject := some first.compare.operand
    operands := tests.map (·.compare.operand)
    comparison := some first.takenWhen
    targets := tests.map (·.target)
    control := Test.control tests }

def detectDispatch : Detector := fun _ blocks => do
  let length ← dispatchLength blocks
  require (length != 0)
  let claimed ← slice blocks 0 length
  let found ← claimed.mapM fun block => attempt (test block)
  let tests := found.filterMap id
  return {
    shape := .dispatch
    blocks := claimed
    register := tests.head?.map (·.register)
    operands := tests.map (·.compare.operand)
    targets := tests.map (·.target)
    control := Test.control tests }

theorem entered_eq_value (front : List Block) (block : Block) (rest : List Block) :
    entered (front ++ block :: rest) block front.length
      = value (!front.getLast?.any fun previous => !previous.fallsInto block) := by
  rcases List.eq_nil_or_concat front with rfl | ⟨front, previous, rfl⟩
  · rfl
  · have hprevious : (front ++ [previous] ++ block :: rest)[front.length]? = some previous := by
      simp
    rw [List.concat_eq_append, List.length_append, List.length_singleton, entered,
      get_eq_value hprevious, List.getLast?_concat]
    simp

theorem forwardTests_eq_value (front rest : List Block) :
    forwardTests (front ++ rest) front.length = value (Block.forwardTests front.getLast? rest) := by
  induction rest generalizing front with
  | nil =>
    rw [forwardTests, if_neg (by simp)]
    rfl
  | cons block rest ih =>
    have hlt : front.length < (front ++ block :: rest).length := by simp
    have hnext := ih (front ++ [block])
    rw [List.append_assoc, List.singleton_append, List.length_append, List.length_singleton,
      List.getLast?_concat] at hnext
    rw [forwardTests, if_pos hlt, slice_length (Nat.le_of_lt hlt), List.drop_left, value_bind,
      get_eq_value List.getElem?_cons_zero, value_bind, test_eq_offer, attempt_offer, value_bind,
      Block.forwardTests]
    cases block.test? with
    | none => rfl
    | some test =>
      simp only [dispatchLength_eq_value, value_bind, entered_eq_value, hnext, Bool.not_not]
      split <;> rfl

theorem length_forwardTests_le (previous : Option Block) (blocks : List Block) :
    (Block.forwardTests previous blocks).length ≤ blocks.length := by
  have htests := congrArg List.length (Block.map_test?_take_forwardTests previous blocks)
  rw [List.length_map, List.length_map, List.length_take] at htests
  omega

theorem dispatchLength_le_length (blocks : List Block) :
    Block.dispatchLength blocks ≤ blocks.length := by
  cases blocks with
  | nil => exact Nat.le_refl 0
  | cons first rest =>
    rw [Block.dispatchLength, List.length_cons]
    cases first.test? with
    | none => exact Nat.zero_le _
    | some test =>
      have hrest := runLength_le_length (continuesDispatch test.register) first rest
      rw [← dispatchTail_eq_runLength] at hrest
      dsimp only
      split
      · split <;> omega
      · exact Nat.zero_le _

section

variable (symbols : SymbolTable) (blocks : List Block)

theorem detectConditional_eq_offer :
    detectConditional symbols blocks = offer (Shape.detectConditional symbols blocks) := by
  have htests := forwardTests_eq_value [] blocks
  have hlength := length_forwardTests_le none blocks
  rw [List.nil_append, List.length_nil, List.getLast?_nil] at htests
  rw [detectConditional, htests, value_bind, Shape.detectConditional]
  cases hforward : Block.forwardTests none blocks with
  | nil => rfl
  | cons first more =>
    rw [hforward] at hlength
    rw [slice_zero hlength]
    cases more <;> rfl

theorem detectDispatch_eq_offer :
    detectDispatch symbols blocks = offer (Shape.detectDispatch symbols blocks) := by
  have hlength := dispatchLength_le_length blocks
  rw [detectDispatch, dispatchLength_eq_value, value_bind, Shape.detectDispatch]
  cases hrun : Block.dispatchLength blocks with
  | zero => rfl
  | succ length =>
    rw [hrun] at hlength
    have hfound : ((blocks.take (length + 1)).mapM fun block => attempt (test block))
        = value ((blocks.take (length + 1)).map Block.test?) := by
      apply mapM_eq_value
      intro block _
      rw [test_eq_offer, attempt_offer]
    rw [slice_zero hlength]
    simp only [require, value_bind, hfound, List.filterMap_map]
    rfl

end

/-! ### Records -/

def detectRecord : Detector := fun _ blocks => do
  let block ← offer blocks.head?
  let body ← body block
  require (2 ≤ body.length && body.all Shape.fillsRecord)
  let fields := (Shape.recordFields body).toList
  let first ← offer fields.head?
  let last ← offer fields.getLast?
  let distance ← minus last.toNat first.toNat
  require (2 ≤ fields.length && last < Address.ioStart && distance + 1 == fields.length)
  return {
    shape := .record
    blocks := [block]
    subject := some (.absolute first)
    operands := fields.map .absolute }

theorem detectRecord_eq_offer (symbols : SymbolTable) (blocks : List Block) :
    detectRecord symbols blocks = offer (Shape.detectRecord symbols blocks) := by
  refine offer_bind fun block _ => ?_
  rw [body_eq_value, value_bind]
  refine require_bind fun _ => ?_
  refine offer_bind fun first hfirst => ?_
  refine offer_bind fun last hlast => ?_
  have hle : first.toNat ≤ last.toNat := head?_toList_le hfirst (List.mem_of_getLast? hlast)
  rw [minus_eq_value hle, value_bind]
  exact require_bind fun _ => rfl

/-! ### Repeated code -/

def stride (numbers : List Int) : Checked (Option Int) := do
  let second ← get numbers 1
  let first ← get numbers 0
  let isConstant := (numbers.zip numbers.tail).all fun pair => pair.2 - pair.1 == second - first
  return if second - first ≠ 0 && isConstant then some (second - first) else none

def strideAcross (values : List Operand) : Checked (Option Int) :=
  match values.mapM Operand.number? with
  | some numbers => stride numbers
  | none => return none

def variationAt (blocks : List Block) (position : Nat) (instruction : Instruction) :
    Checked (Option Variation) := do
  let values ← offer (blocks.mapM fun block => (block.instructions[position]?).map (·.operand))
  if values.all (· == instruction.operand) then return none
  else do
    require !instruction.mnemonic.isControlFlow
    let stride ← strideAcross values
    return some { position, values, stride }

def variations (blocks : List Block) : Checked (List Variation) := do
  let first ← offer blocks.head?
  let found ← first.instructions.zipIdx.mapM fun entry => variationAt blocks entry.2 entry.1
  return found.filterMap id

def isParameter (variation : Variation) : Checked Bool := do
  let first ← get variation.values 0
  return match first with
    | .immediate _ | .absolute _ | .indexed .. => true
    | _ => false

def detectRepetition : Detector := fun _ blocks => do
  let length ← shapeLength blocks
  require (2 ≤ length)
  let claimed ← slice blocks 0 length
  let varying ← variations claimed
  let parameters ← varying.mapM isParameter
  let shape ← offer (
    if claimed.all Shape.runsThrough && varying.all Variation.isFoldable then some .unrolled
    else if parameters.all id then some .template
    else none)
  return { shape, blocks := claimed, operands := [.immediate (UInt8.ofNat (min length 255))] }

theorem stride_eq_value (first second : Int) (rest : List Int) :
    stride (first :: second :: rest) = value (Variation.strideOf? (first :: second :: rest)) := by
  have hfirst : (first :: second :: rest)[0]? = some first := rfl
  have hsecond : (first :: second :: rest)[1]? = some second := rfl
  rw [stride, get_eq_value hsecond, value_bind, get_eq_value hfirst, value_bind,
    Variation.strideOf?]
  simp only [List.tail_cons, List.zip_cons_cons, List.all_cons, beq_self_eq_true (second - first),
    Bool.true_and]
  rfl

theorem strideAcross_eq_value (first second : Operand) (rest : List Operand) :
    strideAcross (first :: second :: rest)
      = value (((first :: second :: rest).mapM Operand.number?).bind Variation.strideOf?) := by
  rw [strideAcross]
  cases hnumbers : (first :: second :: rest).mapM Operand.number? with
  | none => rfl
  | some numbers =>
    simp only [List.mapM_cons, Option.bind_eq_bind, Option.bind_eq_some_iff, Option.pure_def,
      Option.some.injEq] at hnumbers
    obtain ⟨number, _, _, ⟨other, _, others, _, rfl⟩, rfl⟩ := hnumbers
    exact stride_eq_value number other others

/-- If the operands of repeated blocks differ from that of the first block, then there are two
blocks or more. -/
theorem variationAt_eq_offer {first : Block} {rest : List Block} {position : Nat}
    {instruction : Instruction} (hfirst : first.instructions[position]? = some instruction) :
    variationAt (first :: rest) position instruction
      = offer (Block.variationAt? (first :: rest) position instruction) := by
  refine offer_bind fun values hvalues => ?_
  split
  · rfl
  · rename_i hdiffer
    refine require_bind fun _ => ?_
    simp only [List.mapM_cons, hfirst, Option.map_some, Option.bind_eq_bind, Option.bind_some,
      Option.bind_eq_some_iff, Option.pure_def, Option.some.injEq] at hvalues
    obtain ⟨others, _, rfl⟩ := hvalues
    cases others with
    | nil => simp at hdiffer
    | cons second others =>
      rw [strideAcross_eq_value]
      rfl

theorem variations_eq_offer (blocks : List Block) :
    variations blocks = offer (Block.variations? blocks) := by
  cases blocks with
  | nil => rfl
  | cons first rest =>
    have hfound :
        (first.instructions.zipIdx.mapM fun entry => variationAt (first :: rest) entry.2 entry.1)
        = offer (first.instructions.zipIdx.mapM fun entry =>
          Block.variationAt? (first :: rest) entry.2 entry.1) := by
      apply mapM_offer
      intro entry hentry
      exact variationAt_eq_offer (List.mk_mem_zipIdx_iff_getElem?.mp hentry)
    rw [variations, List.head?_cons, offer, value_bind, hfound]
    exact offer_bind fun found _ => rfl

theorem map_eq_of_mapM {α β : Type} {pick : α → Option β} {elements : List α} {picked : List β}
    (h : elements.mapM pick = some picked) : elements.map pick = picked.map some := by
  induction elements generalizing picked with
  | nil =>
    obtain rfl := Option.some.inj h
    rfl
  | cons element elements ih =>
    simp only [List.mapM_cons, Option.bind_eq_bind, Option.bind_eq_some_iff, Option.pure_def,
      Option.some.injEq] at h
    obtain ⟨first, hfirst, others, hothers, rfl⟩ := h
    rw [List.map_cons, List.map_cons, hfirst, ih hothers]

/-- Every block has its value of an operand that differs. -/
theorem length_values {blocks : List Block} {varying : List Variation}
    (h : Block.variations? blocks = some varying) {variation : Variation}
    (hmem : variation ∈ varying) : variation.values.length = blocks.length := by
  cases blocks with
  | nil => cases h
  | cons first rest =>
    simp only [Block.variations?, Option.bind_eq_bind, Option.bind_eq_some_iff, Option.pure_def,
      Option.some.injEq] at h
    obtain ⟨found, hfound, rfl⟩ := h
    obtain ⟨_, hvariation, rfl⟩ := List.mem_filterMap.mp hmem
    have hpicked := List.mem_map_of_mem (f := some) hvariation
    rw [← map_eq_of_mapM hfound] at hpicked
    obtain ⟨entry, _, hentry⟩ := List.mem_map.mp hpicked
    simp only [Block.variationAt?, Option.bind_eq_bind, Option.bind_eq_some_iff] at hentry
    obtain ⟨values, hvalues, hentry⟩ := hentry
    split at hentry
    · cases hentry
    · simp only [Option.bind_eq_some_iff, Option.pure_def, Option.some.injEq] at hentry
      obtain ⟨_, _, rfl⟩ := hentry
      have hlength := congrArg List.length (map_eq_of_mapM hvalues)
      rw [List.length_map, List.length_map] at hlength
      exact hlength.symm

theorem isParameter_eq_value {variation : Variation} (h : 0 < variation.values.length) :
    isParameter variation = value variation.isParameter := by
  obtain ⟨first, rest, hvalues⟩ := List.exists_cons_of_length_pos h
  rw [isParameter, Variation.isParameter, hvalues, get_eq_value List.getElem?_cons_zero]
  cases first <;> rfl

theorem shapeLength_le_length (blocks : List Block) : Block.shapeLength blocks ≤ blocks.length := by
  cases blocks with
  | nil => exact Nat.le_refl 0
  | cons first rest =>
    have hrest := runLength_le_length (continuesShape first) first rest
    rw [Block.shapeLength, List.length_cons, shapeTail_eq_runLength]
    split <;> omega

theorem detectRepetition_eq_offer (symbols : SymbolTable) (blocks : List Block) :
    detectRepetition symbols blocks = offer (Shape.detectRepetition symbols blocks) := by
  have hlength := shapeLength_le_length blocks
  rw [detectRepetition, shapeLength_eq_value, value_bind]
  refine require_decide_bind fun htwo => ?_
  rw [slice_zero hlength, value_bind, variations_eq_offer]
  refine offer_bind fun varying hvarying => ?_
  have hparameters : varying.mapM isParameter = value (varying.map Variation.isParameter) := by
    apply mapM_eq_value
    intro variation hvariation
    apply isParameter_eq_value
    rw [length_values hvarying hvariation, List.length_take_of_le hlength]
    omega
  rw [hparameters, value_bind, List.all_map]
  split
  · rfl
  · rw [Function.id_comp]
    cases varying.all Variation.isParameter <;> rfl

/-! ### All detectors -/

/-- A detector that reaches into nothing by position. -/
def direct (detect : Lift6502.Detector) : Detector :=
  fun symbols blocks => offer (detect symbols blocks)

/-- The detectors that are asked after that of counted loops. -/
def laterDetectors : List Detector :=
  [detectTestedLoop, detectConditional, detectDispatch, direct Shape.detectCall, detectRecord,
   detectRepetition, direct Shape.detectBitField, direct Shape.detectGlobalVariable,
   direct Shape.detectPointer, direct Shape.detectTimer, direct Shape.detectInputHandler,
   direct Shape.detectInterrupt]

def detectors (mode : OnOverflow) : List Detector := detectCounted mode :: laterDetectors

/-- A detector finds the same by positions and by taking lists apart, and makes no access out of
range. -/
def Agrees (checked : Detector) (detect : Lift6502.Detector) : Prop :=
  ∀ symbols blocks, checked symbols blocks = offer (detect symbols blocks)

theorem agrees_direct (detect : Lift6502.Detector) : Agrees (direct detect) detect := fun _ _ => rfl

theorem agrees_laterDetectors : List.Forall₂ Agrees laterDetectors Shape.detectors.tail := by
  repeat' apply List.Forall₂.cons
  · exact detectTestedLoop_eq_offer
  · exact detectConditional_eq_offer
  · exact detectDispatch_eq_offer
  · exact agrees_direct Shape.detectCall
  · exact detectRecord_eq_offer
  · exact detectRepetition_eq_offer
  · exact agrees_direct Shape.detectBitField
  · exact agrees_direct Shape.detectGlobalVariable
  · exact agrees_direct Shape.detectPointer
  · exact agrees_direct Shape.detectTimer
  · exact agrees_direct Shape.detectInputHandler
  · exact agrees_direct Shape.detectInterrupt
  · exact List.Forall₂.nil

theorem agrees_detectors : List.Forall₂ Agrees (detectors .wrap) Shape.detectors :=
  List.Forall₂.cons (fun symbols blocks => detectCounted_eq_stopIf symbols blocks .wrap)
    agrees_laterDetectors

def firstClaim (symbols : SymbolTable) (blocks : List Block) :
    List Detector → Checked (Option Match)
  | [] => return none
  | detect :: others => do
    let found ← attempt (detect symbols blocks)
    match found with
    | some found => return some found
    | none => firstClaim symbols blocks others

def recognise (mode : OnOverflow) (symbols : SymbolTable) (blocks : List Block) :
    Checked Match := do
  let found ← firstClaim symbols blocks (detectors mode)
  return found.getD { shape := .plain, blocks := blocks.take 1 }

theorem firstClaim_eq_value (symbols : SymbolTable) (blocks : List Block) {checked : List Detector}
    {detectors : List Lift6502.Detector} (h : List.Forall₂ Agrees checked detectors) :
    firstClaim symbols blocks checked
      = value (detectors.findSome? fun detect => detect symbols blocks) := by
  induction h with
  | nil => rfl
  | cons hagrees _ ih =>
    rw [firstClaim, hagrees, attempt_offer, value_bind, List.findSome?_cons]
    split
    · rename_i found hfound
      rw [hfound]
      rfl
    · rename_i hnone
      rw [hnone]
      exact ih

theorem recognise_eq_stopIf (mode : OnOverflow) (symbols : SymbolTable) (blocks : List Block) :
    recognise mode symbols blocks
      = stopIf (mode.stops (blocks.head?.any Block.overflows))
          (value (Shape.recognise symbols blocks)) := by
  have hclaims : firstClaim symbols blocks (direct Shape.detectCounted :: laterDetectors)
      = value (Shape.detectors.findSome? fun detect => detect symbols blocks) :=
    firstClaim_eq_value symbols blocks
      (List.Forall₂.cons (agrees_direct Shape.detectCounted) agrees_laterDetectors)
  rw [firstClaim, direct] at hclaims
  rw [recognise, detectors, firstClaim, detectCounted_eq_stopIf, attempt_stopIf,
    stopIf_bind, hclaims, stopIf_bind]
  rfl

end Lift6502.Positional
