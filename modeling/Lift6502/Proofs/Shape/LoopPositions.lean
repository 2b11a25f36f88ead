import Lift6502.Proofs.Shape.Checked
import Lift6502.Proofs.Shape.Recognition
import Lift6502.Proofs.Shape.StepSums

/-!
# Loops by position

The detectors of loops once more, for blocks and instructions that are reached by their positions,
as in an array. Parts of a block are slices between two positions, and the steps of a counted loop
are found and added up by counting down from its branch. Every access is checked, and so are the
sums where that is asked for. No access fails, whatever the blocks are, and what is found is what
the detectors find that take lists apart. Where sums are checked, only steps that overflow stop the
detection.
-/

namespace Lift6502.Positional

open Checked

abbrev Detector := SymbolTable → List Block → Checked Match

/-! ### Blocks and their tests -/

def last (block : Block) : Checked Instruction := do
  let position ← minus block.instructions.length 1
  get block.instructions position

def terminator (block : Block) : Checked Instruction := do
  let last ← last block
  require last.endsBlock
  return last

def body (block : Block) : Checked (List Instruction) := do
  let last ← last block
  if last.endsBlock then do
    let stop ← minus block.instructions.length 1
    slice block.instructions 0 stop
  else return block.instructions

def penultimate {α : Type} (elements : List α) : Checked α :=
  if 2 ≤ elements.length then get elements (elements.length - 2) else declined

def test (block : Block) : Checked Test := do
  let branch ← terminator block
  require (branch.mnemonic == .beq || branch.mnemonic == .bne)
  let compare ← penultimate block.instructions
  let register ← offer compare.mnemonic.compares?
  require compare.operand.isValue
  let target ← offer branch.target?
  return { compare, branch, register, target }

theorem last_eq_value (block : Block) : last block = value block.last := by
  have hpos : 0 < block.instructions.length := List.length_pos_iff.mpr block.nonempty
  have hlast : block.instructions[block.instructions.length - 1]? = some block.last := by
    rw [← List.getLast?_eq_getElem?]
    exact List.getLast?_eq_some_getLast block.nonempty
  rw [last, minus_eq_value hpos, value_bind]
  exact get_eq_value hlast

theorem terminator_eq_offer (block : Block) : terminator block = offer block.terminator? := by
  rw [terminator, last_eq_value, value_bind, require, Block.terminator?]
  split <;> rfl

theorem body_eq_value (block : Block) : body block = value block.body := by
  have hpos : 0 < block.instructions.length := List.length_pos_iff.mpr block.nonempty
  rw [body, last_eq_value, value_bind, Block.body]
  split
  · rw [minus_eq_value hpos, value_bind, slice_zero (Nat.sub_le _ _), List.dropLast_eq_take]
  · rfl

theorem penultimate_eq_offer {α : Type} (elements : List α) :
    penultimate elements = offer elements.dropLast.getLast? := by
  rw [penultimate, List.getLast?_eq_getElem?, List.getElem?_dropLast, List.length_dropLast]
  by_cases hlength : 2 ≤ elements.length
  · have hlt : elements.length - 1 - 1 < elements.length - 1 := by omega
    have hsome : elements[elements.length - 2]? = some elements[elements.length - 2] := by simp
    rw [if_pos hlength, if_pos hlt, get_eq_value hsome, show elements.length - 1 - 1
      = elements.length - 2 from rfl, hsome]
    rfl
  · have hge : ¬ elements.length - 1 - 1 < elements.length - 1 := by omega
    rw [if_neg hlength, if_neg hge]
    rfl

theorem test_eq_offer (block : Block) : test block = offer block.test? := by
  unfold test Block.test?
  rw [terminator_eq_offer, penultimate_eq_offer]
  refine offer_bind fun branch _ => ?_
  refine require_bind fun _ => ?_
  refine offer_bind fun compare _ => ?_
  refine offer_bind fun register _ => ?_
  refine require_bind fun _ => ?_
  refine offer_bind fun target _ => ?_
  rfl

/-! ### Counted loops -/

def comparesWith (register : Register) (instruction : Instruction) : Bool :=
  instruction.mnemonic.compares? == some register && instruction.operand.isValue

def isStep (register : Register) (instruction : Instruction) : Bool :=
  (CountedLoop.stepOf? register instruction).isSome

/-- The instruction in front of the branch, if it compares the counted register. -/
def comparison (register : Register) (instructions : List Instruction) :
    Nat → Checked (Option Instruction)
  | 0 => return none
  | position + 1 => do
    let last ← get instructions position
    return (some last).filter (comparesWith register)

/-- Where the steps start that stop at a position, but not in front of the top of the loop, and what
they add up to together with the steps behind them. -/
def stepRun (mode : OnOverflow) (register : Register) (instructions : List Instruction) (top : Nat)
    (sum : Int16) : Nat → Checked (Nat × Int16)
  | 0 => return (0, sum)
  | position + 1 =>
    if top ≤ position then do
      let last ← get instructions position
      match CountedLoop.stepOf? register last with
      | some delta => do
        let sum ← plus mode sum delta
        stepRun mode register instructions top sum position
      | none => return (position + 1, sum)
    else return (position + 1, sum)

/-- The body and the steps of a loop, between its top and the position at which the steps stop, and
what the steps add up to. -/
def bodyAndSteps (mode : OnOverflow) (register : Register) (instructions : List Instruction)
    (top stop : Nat) : Checked ((List Instruction × List Instruction) × Int16) := do
  require (top ≤ stop)
  let run ← stepRun mode register instructions top 0 stop
  let body ← slice instructions top run.1
  let steps ← slice instructions run.1 stop
  return ((body, steps), run.2)

/-- The loop that is closed by the branch at the last position. -/
def closedLoop (mode : OnOverflow) (instructions : List Instruction) (register : Register)
    (init : Instruction) (between : List Instruction) (branch : Instruction) (top last : Nat) :
    Checked CountedLoop := do
  let compare ← comparison register instructions last
  -- A comparison stands between the steps and the branch.
  let stop ← minus last compare.toList.length
  let parts ← bodyAndSteps mode register instructions top stop
  let entry ← get instructions top
  let loop : CountedLoop :=
    { register, init, between, body := parts.1.1, steps := parts.1.2, step := parts.2, compare,
      branch, top := entry.address }
  require loop.counts
  return loop

def countedLoop (mode : OnOverflow) (block : Block) : Checked CountedLoop := do
  let branch ← terminator block
  require (branch.mnemonic == .bne)
  let target ← offer branch.target?
  let top ← offer (block.instructions.findIdx? (·.address == target))
  let last ← minus block.instructions.length 1
  let before ← slice block.instructions 0 top
  let init ← offer (before.zipIdx.reverse.find? fun entry =>
    entry.1.mnemonic == .ldx || entry.1.mnemonic == .ldy)
  let register ← offer init.1.mnemonic.loads?
  require init.1.operand.isValue
  let between ← slice block.instructions (init.2 + 1) top
  require (between.all fun i => !i.mnemonic.writes register)
  closedLoop mode block.instructions register init.1 between branch top last

theorem splitTrailing_concat {α : Type} (test : α → Bool) (elements : List α) (last : α) :
    splitTrailing test (elements ++ [last])
      = if test last then
          ((splitTrailing test elements).1, (splitTrailing test elements).2 ++ [last])
        else (elements ++ [last], []) := by
  by_cases hlast : test last = true <;> simp [splitTrailing, hlast]

/-- Searching from the back with positions finds the last element in front of the trailing ones that
fail. -/
theorem find?_reverse_zipIdx {α : Type} (test : α → Bool) (elements : List α) :
    (elements.zipIdx.reverse.find? fun entry => test entry.1)
      = (splitTrailing (fun e => !test e) elements).1.getLast?.map
          fun last => (last, (splitTrailing (fun e => !test e) elements).1.length - 1) := by
  induction elements using List.reverseRecOn with
  | nil => rfl
  | append_singleton elements last ih =>
    rw [splitTrailing_concat, List.zipIdx_append, List.reverse_append]
    by_cases hlast : test last = true
    · simp [hlast]
    · simpa [hlast] using ih

theorem comparison_eq_value (register : Register) (front back : List Instruction) :
    comparison register (front ++ back) front.length
      = value (front.getLast?.filter (comparesWith register)) := by
  rcases List.eq_nil_or_concat front with rfl | ⟨front, last, rfl⟩
  · rfl
  · have hlast : (front ++ [last] ++ back)[front.length]? = some last := by simp
    rw [List.concat_eq_append, List.length_append, List.length_singleton, comparison,
      get_eq_value hlast, List.getLast?_concat]
    rfl

/-- One more step is added without an overflow, or it overflows. -/
theorem plus_sum (mode : OnOverflow) {register : Register} {step : Instruction} {delta : Int16}
    {later : List Instruction} (hstep : CountedLoop.stepOf? register step = some delta)
    (hlater : mode.stops (CountedLoop.overflows register later) = false) :
    plus mode (CountedLoop.sum register later) delta
      = stopIf (mode.stops (CountedLoop.overflows register (step :: later)))
          (value (CountedLoop.sum register (step :: later))) := by
  rw [plus, stopIf, CountedLoop.sum_cons hstep, Int16.add_comm delta]
  cases mode with
  | wrap => rfl
  | stop => rw [CountedLoop.overflows_cons hstep hlater]

/-- The sum on the way is that of the steps behind the position, and it has not overflowed yet. -/
theorem stepRun_eq_stopIf (mode : OnOverflow) (register : Register)
    (front counted later back : List Instruction)
    (hlater : mode.stops (CountedLoop.overflows register later) = false) :
    stepRun mode register (front ++ counted ++ (later ++ back)) front.length
        (CountedLoop.sum register later) (front.length + counted.length)
      = stopIf (mode.stops (CountedLoop.overflows register
          ((splitTrailing (isStep register) counted).2 ++ later)))
        (value (front.length + (splitTrailing (isStep register) counted).1.length,
          CountedLoop.sum register ((splitTrailing (isStep register) counted).2 ++ later))) := by
  induction counted using List.reverseRecOn generalizing later with
  | nil =>
    have hend : stopIf (mode.stops (CountedLoop.overflows register ([] ++ later)))
        (value (front.length + ([] : List Instruction).length,
          CountedLoop.sum register ([] ++ later)))
          = value (front.length, CountedLoop.sum register later) := by
      rw [List.nil_append, hlater]
      rfl
    rw [show splitTrailing (isStep register) [] = ([], []) from rfl, hend]
    cases hfront : front.length with
    | zero => rfl
    | succ position =>
      have htop : ¬ position + 1 ≤ position := by omega
      rw [List.length_nil, Nat.add_zero, stepRun, if_neg htop]
      rfl
  | append_singleton counted last ih =>
    have hlast : (front ++ (counted ++ [last]) ++ (later ++ back))[front.length + counted.length]?
        = some last := by simp
    have happend : front ++ (counted ++ [last]) ++ (later ++ back)
        = front ++ counted ++ (last :: later ++ back) := by simp
    rw [List.length_append, List.length_singleton, ← Nat.add_assoc, stepRun,
      if_pos (Nat.le_add_right _ _), get_eq_value hlast, value_bind, splitTrailing_concat]
    cases hstep : CountedLoop.stepOf? register last with
    | none =>
      have hother : ¬ isStep register last = true := by simp [isStep, hstep]
      rw [if_neg hother, List.nil_append, hlater, List.length_append, List.length_singleton,
        ← Nat.add_assoc]
      rfl
    | some delta =>
      have hcounts : isStep register last = true := by simp [isStep, hstep]
      rw [if_pos hcounts, happend]
      dsimp only
      rw [← List.append_cons, plus_sum mode hstep hlater, stopIf_bind, value_bind]
      cases hstops : mode.stops (CountedLoop.overflows register (last :: later)) with
      | false =>
        rw [stopIf_false]
        exact ih (last :: later) hstops
      | true =>
        cases mode with
        | wrap => cases hstops
        | stop =>
          have hall : CountedLoop.overflows register
              ((splitTrailing (isStep register) counted).2 ++ last :: later) = true :=
            CountedLoop.overflows_append _ hstops
          simp only [OnOverflow.stops, hall, stopIf_true]

theorem bodyAndSteps_eq_stopIf (mode : OnOverflow) (register : Register)
    (front counted back : List Instruction) :
    bodyAndSteps mode register (front ++ counted ++ back) front.length
        (front.length + counted.length)
      = stopIf (mode.stops (CountedLoop.overflows register
          (splitTrailing (isStep register) counted).2))
        (value (splitTrailing (isStep register) counted,
          CountedLoop.sum register (splitTrailing (isStep register) counted).2)) := by
  have hparts := splitTrailing_append (isStep register) counted
  have hrun := stepRun_eq_stopIf mode register front counted [] back (by cases mode <;> rfl)
  rw [List.append_nil, List.nil_append] at hrun
  rw [bodyAndSteps, require, decide_eq_true (Nat.le_add_right _ _), if_pos rfl, value_bind,
    show (0 : Int16) = CountedLoop.sum register [] from rfl, hrun, stopIf_bind, value_bind]
  generalize splitTrailing (isStep register) counted = parts at hparts ⊢
  have hbody : slice (front ++ counted ++ back) front.length (front.length + parts.1.length)
      = value parts.1 := by
    rw [← hparts, ← List.append_assoc, List.append_assoc _ parts.2]
    exact slice_append front parts.1 (parts.2 ++ back)
  have hsteps : slice (front ++ counted ++ back) (front.length + parts.1.length)
      (front.length + counted.length) = value parts.2 := by
    rw [← hparts, ← List.append_assoc, List.length_append, ← Nat.add_assoc, ← List.length_append]
    exact slice_append (front ++ parts.1) parts.2 back
  rw [hbody, value_bind, hsteps]
  rfl

/-- The loop that some parts are, by the instructions from its top up to its branch. -/
def loopOf (register : Register) (init : Instruction) (between : List Instruction)
    (branch : Instruction) (top : Address) (passed : List Instruction) : CountedLoop :=
  let compare := passed.getLast?.filter (comparesWith register)
  let counted := if compare.isSome then passed.dropLast else passed
  let parts := splitTrailing (isStep register) counted
  { register, init, between, body := parts.1, steps := parts.2,
    step := CountedLoop.sum register parts.2, compare, branch, top }

theorem parts?_eq_loopOf (block : Block) : CountedLoop.parts? block = (do
    let branch ← block.terminator?
    guard (branch.mnemonic == .bne)
    let top ← branch.target?
    let position ← block.instructions.findIdx? (·.address == top)
    let parts := splitTrailing (fun i => !(i.mnemonic == .ldx || i.mnemonic == .ldy))
      (block.instructions.take position)
    let init ← parts.1.getLast?
    let register ← init.mnemonic.loads?
    guard (init.operand.isValue && parts.2.all fun i => !i.mnemonic.writes register)
    return loopOf register init parts.2 branch top (block.instructions.drop position).dropLast) :=
  rfl

/-- What becomes of a loop whose steps have been added up. -/
def judged (mode : OnOverflow) (loop : CountedLoop) : Checked CountedLoop :=
  stopIf (mode.stops (CountedLoop.overflows loop.register loop.steps))
    (offer ((some loop).filter CountedLoop.counts))

theorem require_counts (loop : CountedLoop) :
    (do require loop.counts; return loop) = offer ((some loop).filter CountedLoop.counts) := by
  rw [require, Option.filter_some]
  cases loop.counts <;> rfl

/-- Without instructions between its top and its branch nothing is stepped, also if what stands in
front of the top is a comparison. -/
theorem closedLoop_nil (mode : OnOverflow) (register : Register) (init : Instruction)
    (between front : List Instruction) (branch : Instruction) :
    closedLoop mode (front ++ [branch]) register init between branch front.length front.length
      = declined := by
  have htop : (front ++ [branch])[front.length]? = some branch := by simp
  rw [closedLoop, comparison_eq_value, value_bind]
  cases hcompare : front.getLast?.filter (comparesWith register) with
  | none =>
    have hparts := bodyAndSteps_eq_stopIf mode register front [] [branch]
    have hstops : mode.stops (CountedLoop.overflows register []) = false := by cases mode <;> rfl
    rw [List.append_nil, List.length_nil, Nat.add_zero,
      show splitTrailing (isStep register) [] = ([], []) from rfl, hstops, stopIf_false] at hparts
    rw [Option.toList_none, List.length_nil, minus_eq_value (Nat.zero_le _), value_bind,
      Nat.sub_zero, hparts, value_bind, get_eq_value htop]
    rfl
  | some compare =>
    have hlast := (Option.filter_eq_some_iff.mp hcompare).1
    have hpos : 0 < front.length := List.length_pos_of_mem (List.mem_of_getLast? hlast)
    have hbelow : ¬ front.length ≤ front.length - 1 := by omega
    rw [Option.toList_some, List.length_singleton, minus_eq_value hpos, value_bind, bodyAndSteps,
      require, decide_eq_false hbelow]
    rfl

theorem closedLoop_eq_judged (mode : OnOverflow) (register : Register) (init : Instruction)
    (between front passed : List Instruction) (branch entry : Instruction)
    (hentry : (front ++ passed ++ [branch])[front.length]? = some entry) :
    closedLoop mode (front ++ passed ++ [branch]) register init between branch front.length
        (front ++ passed).length
      = judged mode (loopOf register init between branch entry.address passed) := by
  by_cases hpassed : passed = []
  · rw [hpassed, List.append_nil, closedLoop_nil]
    cases mode <;> rfl
  · have hcounted := passing_last_append (comparesWith register) passed
    rw [closedLoop, comparison_eq_value, List.getLast?_append_of_ne_nil front hpassed, value_bind,
      loopOf]
    generalize passed.getLast?.filter (comparesWith register) = compare at hcounted ⊢
    generalize (if compare.isSome then passed.dropLast else passed) = counted at hcounted ⊢
    subst hcounted
    have hstop : minus (front ++ (counted ++ compare.toList)).length compare.toList.length
        = value (front.length + counted.length) := by
      rw [minus_eq_value (by simp only [List.length_append]; omega), ← List.append_assoc,
        List.length_append, Nat.add_sub_cancel, List.length_append]
    have hparts := bodyAndSteps_eq_stopIf mode register front counted (compare.toList ++ [branch])
    rw [List.append_assoc front, List.append_assoc counted] at hentry ⊢
    rw [List.append_assoc] at hparts
    rw [hstop, value_bind, hparts, stopIf_bind, value_bind, get_eq_value hentry, value_bind, judged]
    exact congrArg (stopIf _) (require_counts _)

/-- Behind the last element of a first part starts the second part. -/
theorem slice_behind_last {α : Type} {elements front back : List α} {last : α} {stop : Nat}
    (hstop : stop ≤ elements.length) (hparts : front ++ back = elements.take stop)
    (hlast : front.getLast? = some last) :
    slice elements (front.length - 1 + 1) stop = value back := by
  have hpos : 0 < front.length := List.length_pos_of_mem (List.mem_of_getLast? hlast)
  have hlength := congrArg List.length hparts
  rw [List.length_append, List.length_take_of_le hstop] at hlength
  rw [Nat.sub_add_cancel hpos, slice_eq_value (by omega) hstop, ← hparts, List.drop_left]

theorem closedLoop_of_branch (mode : OnOverflow) {block : Block} {branch : Instruction} {top : Nat}
    (hbranch : block.terminator? = some branch) (htop : top < block.instructions.length)
    (register : Register) (init : Instruction) (between : List Instruction) :
    closedLoop mode block.instructions register init between branch top
        (block.instructions.length - 1)
      = judged mode (loopOf register init between branch block.instructions[top].address
          (block.instructions.drop top).dropLast) := by
  have hinstructions :
      block.instructions.take top ++ (block.instructions.drop top).dropLast ++ [branch]
        = block.instructions := by
    rw [List.append_assoc, ← (Block.terminator?_eq_some.mp hbranch).2,
      Block.drop_dropLast_append_last htop, List.take_append_drop]
  have hfront : (block.instructions.take top).length = top :=
    List.length_take_of_le (Nat.le_of_lt htop)
  have hlast := congrArg List.length hinstructions
  rw [List.length_append, List.length_singleton] at hlast
  have hclosed := closedLoop_eq_judged mode register init between (block.instructions.take top)
    (block.instructions.drop top).dropLast branch block.instructions[top]
    (by rw [hinstructions, hfront, List.getElem?_eq_getElem htop])
  rwa [hinstructions, hfront,
    show _ = block.instructions.length - 1 from Nat.eq_sub_of_add_eq hlast] at hclosed

/-- First the parts of the loop are found, and then its steps are added up. -/
theorem countedLoop_eq_judged (mode : OnOverflow) (block : Block) :
    countedLoop mode block = offer (CountedLoop.parts? block) >>= judged mode := by
  rw [parts?_eq_loopOf, countedLoop, terminator_eq_offer]
  refine offer_bind_then fun branch hbranch => ?_
  refine require_bind_then fun _ => ?_
  refine offer_bind_then fun target _ => ?_
  refine offer_bind_then fun top htop => ?_
  obtain ⟨hlt, haddress, _⟩ := List.findIdx?_eq_some_iff_getElem.mp htop
  have hparts := splitTrailing_append (fun i => !(i.mnemonic == .ldx || i.mnemonic == .ldy))
    (block.instructions.take top)
  rw [minus_eq_value (List.length_pos_iff.mpr block.nonempty), value_bind,
    slice_zero (Nat.le_of_lt hlt), value_bind,
    find?_reverse_zipIdx fun i : Instruction => i.mnemonic == .ldx || i.mnemonic == .ldy,
    offer_map_bind]
  dsimp only
  generalize splitTrailing (fun i => !(i.mnemonic == .ldx || i.mnemonic == .ldy))
    (block.instructions.take top) = parts at hparts ⊢
  refine offer_bind_then fun init hinit => ?_
  refine offer_bind_then fun register _ => ?_
  rw [guard_and_bind]
  refine require_bind_then fun _ => ?_
  rw [slice_behind_last (Nat.le_of_lt hlt) hparts hinit, value_bind]
  refine require_bind_then fun _ => ?_
  rw [← eq_of_beq haddress]
  exact closedLoop_of_branch mode hbranch hlt register init parts.2

theorem countedLoop_eq_stopIf (mode : OnOverflow) (block : Block) :
    countedLoop mode block
      = stopIf (mode.stops block.overflows) (offer (CountedLoop.ofBlock? block)) := by
  rw [countedLoop_eq_judged, Block.overflows, CountedLoop.ofBlock?]
  cases CountedLoop.parts? block with
  | none => cases mode <;> rfl
  | some loop => rfl

/-! ### Loops -/

def detectCounted (mode : OnOverflow) : Detector := fun _ blocks => do
  let block ← offer blocks.head?
  let loop ← countedLoop mode block
  return loop.toMatch block

def detectTopTested : Detector := fun _ blocks => do
  let header ← offer blocks[0]?
  let body ← offer blocks[1]?
  let test ← test header
  let jump ← terminator body
  require (jump.mnemonic == .jmp && jump.target? == some header.start)
  require (test.target == jump.nextAddress)
  let claimed ← slice blocks 0 2
  return { test.topMatch header body jump with blocks := claimed }

def detectBottomTested : Detector := fun _ blocks => do
  let block ← offer blocks.head?
  let test ← test block
  let position ← offer (block.instructions.findIdx? (·.address == test.target))
  require (position + 1 < block.instructions.length)
  return test.bottomMatch block

def detectTestedLoop : Detector := fun symbols blocks => do
  let found ← attempt (detectTopTested symbols blocks)
  match found with
  | some found => return found
  | none => detectBottomTested symbols blocks

section

variable (symbols : SymbolTable) (blocks : List Block)

/-- Counted loops are found alike, unless the steps of the first block overflow. -/
theorem detectCounted_eq_stopIf (mode : OnOverflow) :
    detectCounted mode symbols blocks
      = stopIf (mode.stops (blocks.head?.any Block.overflows))
          (offer (Shape.detectCounted symbols blocks)) := by
  cases blocks with
  | nil => cases mode <;> rfl
  | cons block rest =>
    change countedLoop mode block >>= _ = _
    rw [countedLoop_eq_stopIf, stopIf_bind]
    exact congrArg (stopIf _) (offer_bind fun loop _ => rfl)

theorem detectTopTested_eq_offer :
    detectTopTested symbols blocks = offer (Shape.detectTopTested symbols blocks) := by
  match blocks with
  | [] => rfl
  | [header] => rfl
  | header :: body :: rest =>
    have hclaimed : slice (header :: body :: rest) 0 2 = value [header, body] :=
      slice_zero (by simp)
    rw [detectTopTested, hclaimed]
    simp only [List.getElem?_cons_zero, List.getElem?_cons_succ, offer, value_bind, test_eq_offer,
      terminator_eq_offer]
    refine offer_bind fun test _ => ?_
    refine offer_bind fun jump _ => ?_
    refine require_bind fun _ => ?_
    exact require_bind fun _ => rfl

theorem detectBottomTested_eq_offer :
    detectBottomTested symbols blocks = offer (Shape.detectBottomTested symbols blocks) := by
  refine offer_bind fun block _ => ?_
  rw [test_eq_offer]
  refine offer_bind fun test _ => ?_
  refine offer_bind fun position _ => ?_
  exact require_decide_bind fun _ => rfl

theorem detectTestedLoop_eq_offer :
    detectTestedLoop symbols blocks = offer (Shape.detectTestedLoop symbols blocks) := by
  rw [detectTestedLoop, detectTopTested_eq_offer, attempt_offer, value_bind, Shape.detectTestedLoop]
  cases Shape.detectTopTested symbols blocks with
  | none => exact detectBottomTested_eq_offer symbols blocks
  | some found => rfl

end

end Lift6502.Positional
