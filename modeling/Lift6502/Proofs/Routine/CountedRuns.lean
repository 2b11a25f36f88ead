import Lift6502.Proofs.Flow.Runs
import Lift6502.Proofs.Routine.Counting

/-!
# What counted loops count

A processor loads, steps and compares the counter of a loop as a byte. All else that a loop does is
left open, as long as it leaves the counter alone. One round of the loop then adds the step to the
counter, modulo 256, and goes on unless the bound is reached; from this follows what the counter is
each time control comes to the top, and when the loop is left.
-/

namespace Lift6502

namespace Interpretation

variable {State : Type}

/-- A machine counts with a register: `counter` and `zero` tell the register and the zero flag in a
state. -/
structure CountsWith (machine : Interpretation State) (register : Register)
    (counter : State → UInt8) (zero : State → Bool) : Prop where
  load : ∀ i value state, i.mnemonic.loads? = some register → i.operand = .immediate value →
    counter (machine.effect i state) = value
  step : ∀ i delta state, CountedLoop.stepOf? register i = some delta →
    (counter (machine.effect i state)).toNat = ((counter state).toNat + delta.toInt) % 256 ∧
      zero (machine.effect i state) = (counter (machine.effect i state) == 0)
  compare : ∀ i value state, i.mnemonic.compares? = some register → i.operand = .immediate value →
    zero (machine.effect i state) = (counter state == value)
  branch : ∀ i state, i.mnemonic = .bne → machine.taken i state = !zero state

/-- Instructions that do not write a register leave its value alone. -/
def LeavesAlone (machine : Interpretation State) (register : Register) (counter : State → UInt8)
    (instructions : List Instruction) : Prop :=
  ∀ i ∈ instructions, i.mnemonic.writes register = false → ∀ state, counter (machine.effect i state)
    = counter state

/-- Control goes from one place to another, and on the way comes to an address in some states, in
this order. -/
inductive Visits (machine : Interpretation State) (code : List Instruction) (top : Address) :
    Address × State → List State → Address × State → Prop where
  | last {place goal : Address × State} (h : machine.Leads code (· = top) place goal) :
    Visits machine code top place [] goal
  | visit {place goal : Address × State} {state : State} {states : List State}
      (h : machine.Leads code (· = top) place (top, state))
          (hrest : Visits machine code top (top, state) states goal) :
      Visits machine code top place (state :: states) goal

variable {machine : Interpretation State} {code : List Instruction} {top : Address}

theorem Visits.concat {place goal : Address × State} {state : State} {states : List State}
    (h : machine.Visits code top place states (top, state))
    (hgoal : machine.Leads code (· = top) (top, state) goal) :
    machine.Visits code top place (states ++ [state]) goal := by
  generalize hmiddle : (top, state) = middle at h
  induction h with
  | last hlast =>
    subst hmiddle
    exact .visit hlast (.last hgoal)
  | visit hvisit _ ih => exact .visit hvisit (ih hmiddle)

variable {register : Register} {counter : State → UInt8} {zero : State → Bool}

/-- Control goes from one place to another and comes to an address some times on the way, with the
counter at one of the values after the other. -/
def Passes (machine : Interpretation State) (code : List Instruction) (top : Address)
    (counter : State → UInt8) (values : Nat → Int) (times : Nat)
    (place goal : Address × State) : Prop :=
  ∃ states, machine.Visits code top place states goal ∧
    states.map (fun state => ((counter state).toNat : Int)) = (List.range times).map values

theorem Passes.concat {values : Nat → Int} {times : Nat} {place goal : Address × State}
    {state : State} (h : machine.Passes code top counter values times place (top, state))
    (hstate : (counter state).toNat = values times)
    (hgoal : machine.Leads code (· = top) (top, state) goal) :
    machine.Passes code top counter values (times + 1) place goal := by
  obtain ⟨states, hvisits, hvalues⟩ := h
  refine ⟨states ++ [state], hvisits.concat hgoal, ?_⟩
  rw [List.map_append, hvalues, List.range_succ, List.map_append, List.map_singleton,
    List.map_singleton, hstate]

theorem LeavesAlone.counter_perform {block instructions : List Instruction}
    (h : machine.LeavesAlone register counter block) (hmem : ∀ i ∈ instructions, i ∈ block)
    (hwrites : ∀ i ∈ instructions, i.mnemonic.writes register = false) (state : State) :
    counter (machine.perform instructions state) = counter state := by
  induction instructions generalizing state with
  | nil => rfl
  | cons i rest ih =>
    obtain ⟨hi, hmem⟩ := List.forall_mem_cons.mp hmem
    obtain ⟨hkeeps, hwrites⟩ := List.forall_mem_cons.mp hwrites
    rw [perform_cons, ih hmem hwrites, h i hi hkeeps]

theorem CountsWith.counter_perform_steps (h : machine.CountsWith register counter zero)
    {steps : List Instruction}
    (hsteps : ∀ i ∈ steps, ∃ delta, CountedLoop.stepOf? register i = some delta) (state : State) :
    (counter (machine.perform steps state)).toNat
      = ((counter state).toNat + CountedLoop.total register steps) % 256 := by
  induction steps generalizing state with
  | nil =>
    have hlt := (counter state).toNat_lt
    rw [perform_nil, CountedLoop.total_nil]
    omega
  | cons i rest ih =>
    obtain ⟨⟨delta, hdelta⟩, hrest⟩ := List.forall_mem_cons.mp hsteps
    rw [perform_cons, ih hrest, (h.step i delta state hdelta).1, CountedLoop.total_cons hdelta]
    omega

theorem CountsWith.zero_perform_steps (h : machine.CountsWith register counter zero)
    {steps : List Instruction}
    (hsteps : ∀ i ∈ steps, ∃ delta, CountedLoop.stepOf? register i = some delta)
    (hne : steps ≠ []) (state : State) :
    zero (machine.perform steps state) = (counter (machine.perform steps state) == 0) := by
  obtain ⟨delta, hdelta⟩ := hsteps _ (List.getLast_mem hne)
  rw [← List.dropLast_append_getLast hne, perform_append]
  exact (h.step _ delta _ hdelta).2

end Interpretation

namespace CountedLoop

/-- What a counter is after some rounds. -/
def tally (first : UInt8) (step : Int) (rounds : Nat) : Int :=
  (first.toNat + rounds * step) % 256

theorem tally_congr (first : UInt8) {step other : Int} (h : step ≡ other [ZMOD 256])
    (rounds : Nat) : tally first step rounds = tally first other rounds :=
  (h.mul_left rounds).add_left first.toNat

theorem tally_zero (first : UInt8) (step : Int) : tally first step 0 = first.toNat := by
  have hlt := first.toNat_lt
  rw [tally]
  omega

theorem tally_succ (first : UInt8) (step : Int) (rounds : Nat) :
    tally first step (rounds + 1) = (tally first step rounds + step) % 256 := by
  rw [tally, tally, Int.emod_add_emod, Nat.cast_succ, Int.add_mul, Int.one_mul, Int.add_assoc]

namespace IsIn

variable {loop : CountedLoop} {block : Block} (h : loop.IsIn block)
include h

variable {State : Type} {machine : Interpretation State} {counter : State → UInt8}
  {zero : State → Bool}
  (hcounts : machine.CountsWith loop.register counter zero)
  (halone : machine.LeavesAlone loop.register counter (loop.between ++ loop.lap))
include hcounts halone

theorem counter_enter {first : UInt8} (hfirst : loop.init.operand = .immediate first)
    (state : State) : counter (machine.perform (loop.init :: loop.between) state) = first := by
  rw [Interpretation.perform_cons,
    halone.counter_perform (fun i hi => List.mem_append_left _ hi) h.between]
  exact hcounts.load loop.init first state h.loads hfirst

/-- A round adds the step. -/
theorem counter_lap (state : State) :
    (counter (machine.perform loop.lap state)).toNat
      = ((counter state).toNat + loop.step.toInt) % 256 := by
  have hbody : ∀ i ∈ loop.body, i ∈ loop.between ++ loop.lap := fun i hi =>
    List.mem_append_right _ (List.mem_append_left _ (List.mem_append_left _ hi))
  have hcompare : ∀ i ∈ loop.compare.toList, i ∈ loop.between ++ loop.lap := fun i hi =>
    List.mem_append_right _ (List.mem_append_right _ hi)
  rw [lap, Interpretation.perform_append, Interpretation.perform_append,
    halone.counter_perform hcompare fun i => h.writes_compare,
    hcounts.counter_perform_steps h.steps, halone.counter_perform hbody h.body]
  exact (h.step_modEq.symm.add_left _)

theorem taken_lap {bound : UInt8} (hbound : loop.bound = .immediate bound) (state : State) :
    machine.taken loop.branch (machine.perform loop.lap state)
      = !(counter (machine.perform loop.lap state) == bound) := by
  rw [hcounts.branch loop.branch _ h.branch.2.1, lap, Interpretation.perform_append,
    Interpretation.perform_append]
  rw [CountedLoop.bound] at hbound
  -- The flag is set by the comparison, or by the last step if the bound is zero and nothing is
  -- compared.
  cases hcompare : loop.compare with
  | none =>
    rw [hcompare] at hbound
    cases hbound
    exact congrArg _ (hcounts.zero_perform_steps h.steps h.steps_ne_nil _)
  | some compare =>
    rw [hcompare] at hbound
    have hmem : compare ∈ loop.compare.toList := by
      rw [hcompare]; exact List.mem_singleton_self compare
    rw [Option.toList_some, Interpretation.perform_cons, Interpretation.perform_nil,
      hcounts.compare compare bound _ (h.compare compare hcompare) hbound,
      halone compare (List.mem_append_right _ (List.mem_append_right _ hmem))
        (h.writes_compare hmem)]

omit hcounts halone

variable {code : List Instruction} (hascending : Ascending code)
  (hblock : block ∈ Block.partition code)
include hascending hblock

theorem leads_to_top (state : State) :
    machine.Leads code (· = loop.top) (loop.init.address, state)
      (loop.top, machine.perform (loop.init :: loop.between) state) := by
  obtain ⟨front, hparts⟩ := h.parts
  obtain ⟨first, rest, hlap, htop⟩ := h.exists_lap
  have hsplit : block.instructions
      = front ++ loop.init :: (loop.between ++ first :: (rest ++ [loop.branch])) := by
    rw [hparts, hlap, List.cons_append]
  have hordered := h.ordered (hascending.sublist (Block.sublist_of_mem_partition hblock)) hparts
  nth_rewrite 2 [← htop]
  apply Interpretation.leads_within hascending hblock hsplit
  intro i hi
  exact UInt16.ne_of_lt (hordered.below i (List.mem_append_right _ (List.mem_cons_of_mem _ hi)))

theorem leads_lap (state : State) :
    machine.Leads code (· = loop.top) (loop.top, state)
        (loop.branch.address, machine.perform loop.lap state) ∧
      loop.branch.address ≠ loop.top := by
  obtain ⟨front, hparts⟩ := h.parts
  obtain ⟨first, rest, hlap, htop⟩ := h.exists_lap
  have hsplit : block.instructions
      = (front ++ loop.init :: loop.between) ++ first :: (rest ++ [loop.branch]) := by
    rw [hparts, hlap, List.append_assoc, List.cons_append, List.cons_append]
  have hlater :=
    (h.ordered (hascending.sublist (Block.sublist_of_mem_partition hblock)) hparts).later
  rw [hlap, List.cons_append, List.tail_cons] at hlater
  have hbranch := hlater loop.branch (List.mem_append_right _ (List.mem_singleton_self _))
  refine ⟨?_, (UInt16.ne_of_lt hbranch).symm⟩
  rw [hlap]
  nth_rewrite 2 [← htop]
  apply Interpretation.leads_within hascending hblock hsplit
  intro i hi
  exact (UInt16.ne_of_lt (hlater i (List.mem_append_left _ hi))).symm

variable (machine) in
/-- A round ends at the top or behind the loop, as the branch says. -/
theorem leads_round (state : State) :
    machine.Leads code (· = loop.top) (loop.top, state)
      (if machine.taken loop.branch (machine.perform loop.lap state) then loop.top
        else block.nextAddress,
        machine.perform loop.lap state) := by
  obtain ⟨hlap, hbranch⟩ := h.leads_lap hascending hblock state
  obtain ⟨-, hlast⟩ := Block.terminator?_eq_some.mp h.branch.1
  have hmem : loop.branch ∈ code :=
    (Block.sublist_of_mem_partition hblock).subset (Block.terminator?_mem h.branch.1)
  apply hlap.trans hbranch
  apply Interpretation.Leads.step
  rw [Interpretation.advance_branch hascending hmem (by rw [h.branch.2.1]; rfl), h.branch.2.2,
    Block.nextAddress, hlast]
  split <;> rfl

section Rounds

include hcounts halone

variable {first bound : UInt8} (hbound : loop.bound = .immediate bound)
include hbound

/-- A round takes the counter to its next value and leaves the loop if that is the bound. -/
theorem round {state : State} {rounds : Nat}
    (hstate : (counter state).toNat = tally first loop.step.toInt rounds) :
    (counter (machine.perform loop.lap state)).toNat = tally first loop.step.toInt (rounds + 1) ∧
      machine.Leads code (· = loop.top) (loop.top, state)
        (if tally first loop.step.toInt (rounds + 1) = bound.toNat then block.nextAddress
          else loop.top,
          machine.perform loop.lap state) := by
  have hnext : (counter (machine.perform loop.lap state)).toNat
      = tally first loop.step.toInt (rounds + 1) := by
    rw [h.counter_lap hcounts halone, hstate, tally_succ]
  have hreached : counter (machine.perform loop.lap state) = bound ↔
      tally first loop.step.toInt (rounds + 1) = bound.toNat := by
    rw [← hnext, Nat.cast_inj, UInt8.toNat_inj]
  refine ⟨hnext, ?_⟩
  simpa [h.taken_lap hcounts halone hbound, ← hreached]
    using h.leads_round machine hascending hblock state

variable (hfirst : loop.init.operand = .immediate first)
include hfirst

/-- As long as no round has come to the bound, control comes back to the top. -/
theorem exists_passes_top (start : State) (rounds : Nat)
    (hbefore : ∀ k, 0 < k → k ≤ rounds → tally first loop.step.toInt k ≠ bound.toNat) :
    ∃ state,
      machine.Passes code loop.top counter (tally first loop.step.toInt) rounds
          (loop.init.address, start) (loop.top, state) ∧
      (counter state).toNat = tally first loop.step.toInt rounds := by
  induction rounds with
  | zero =>
    refine ⟨_, ⟨[], .last (h.leads_to_top hascending hblock start), rfl⟩, ?_⟩
    rw [h.counter_enter hcounts halone hfirst, tally_zero]
  | succ rounds ih =>
    obtain ⟨state, hpasses, hstate⟩ := ih fun k hpos hle => hbefore k hpos (by omega)
    obtain ⟨hnext, hround⟩ := h.round hcounts halone hascending hblock hbound hstate
    rw [if_neg (hbefore (rounds + 1) (by omega) (by omega))] at hround
    exact ⟨machine.perform loop.lap state, hpasses.concat hstate hround, hnext⟩

/-- The first round that comes to the bound leaves the loop. -/
theorem exists_passes_exit (start : State) (rounds : Nat)
    (hbefore : ∀ k, 0 < k → k ≤ rounds → tally first loop.step.toInt k ≠ bound.toNat)
    (hreached : tally first loop.step.toInt (rounds + 1) = bound.toNat) :
    ∃ state, machine.Passes code loop.top counter (tally first loop.step.toInt) (rounds + 1)
      (loop.init.address, start)
        (block.nextAddress, state) ∧
      counter state = bound := by
  obtain ⟨state, hpasses, hstate⟩ :=
    h.exists_passes_top hcounts halone hascending hblock hbound hfirst start rounds hbefore
  obtain ⟨hnext, hround⟩ := h.round hcounts halone hascending hblock hbound hstate
  rw [if_pos hreached] at hround
  rw [hreached, Nat.cast_inj, UInt8.toNat_inj] at hnext
  exact ⟨machine.perform loop.lap state, hpasses.concat hstate hround, hnext⟩

end Rounds

end IsIn

/-- From its initialisation on, a loop counts from a first value by a step: as long as no round has
come to the bound, control comes back to the top with the next value, and from the first round that
has come to it control leaves the loop. -/
def Counts {State : Type} (loop : CountedLoop) (machine : Interpretation State)
    (code : List Instruction) (counter : State → UInt8) (exit : Address) (first bound : UInt8)
    (step : Int) : Prop :=
  ∀ start rounds, (∀ k, 0 < k → k ≤ rounds → tally first step k ≠ bound.toNat) →
    (∃ state,
      machine.Passes code loop.top counter (tally first step) rounds
        (loop.init.address, start) (loop.top, state) ∧
      (counter state).toNat = tally first step rounds) ∧
    (tally first step (rounds + 1) = bound.toNat →
      ∃ state, machine.Passes code loop.top counter (tally first step) (rounds + 1)
        (loop.init.address, start) (exit, state) ∧
        counter state = bound)

end CountedLoop

/-- A block that is recognised as a counted loop counts: only the absorbed steps write the counter,
the branch looks at the absorbed comparison or at the last step, and what the steps add up to is
kept in sixteen bits, so that the step that is recorded is what a round adds to the counter modulo
256. On every machine on which the rest of the block leaves the counter alone, the loop runs through
the values that this tells. -/
theorem counted_loop_counts_modulo {symbols : SymbolTable} {block : Block} {rest : List Block}
    {found : Match} (hfound : Shape.detectCounted symbols (block :: rest) = some found) :
    ∃ loop : CountedLoop, loop.IsIn block ∧ loop.RecordedBy symbols block found ∧
      (∀ i ∈ loop.between ++ (loop.lap ++ [loop.branch]),
        i.mnemonic.writes loop.register = true ↔ i ∈ loop.steps) ∧
      (∀ i ∈ loop.steps, found.absorbs i = true) ∧
      (∃ setter, block.instructions.dropLast.getLast? = some setter ∧ found.absorbs setter = true ∧
        (loop.compare = some setter ∧ setter.mnemonic.compares? = some loop.register ∨
          loop.compare = none ∧ loop.steps.getLast? = some setter)) ∧
      loop.step.toInt = (loop.steps.countP (CountedLoop.stepOf? loop.register · == some 1)
        - loop.steps.countP (CountedLoop.stepOf? loop.register · == some (-1)) : Int).bmod 65536 ∧
      (Routine.boundAndStep symbols found).2 ≡
        loop.steps.countP (CountedLoop.stepOf? loop.register · == some 1)
          - loop.steps.countP (CountedLoop.stepOf? loop.register · == some (-1)) [ZMOD 256] ∧
      ∀ {State : Type} (machine : Interpretation State) (counter : State → UInt8)
        (zero : State → Bool) (code : List Instruction) (first bound : UInt8),
        Ascending code → block ∈ Block.partition code →
        machine.CountsWith loop.register counter zero →
        machine.LeavesAlone loop.register counter (loop.between ++ loop.lap) →
        found.subject = some (.immediate first) →
        found.operands.head? = some (.immediate bound) →
        loop.Counts machine code counter block.nextAddress first bound
          (Routine.boundAndStep symbols found).2 := by
  obtain ⟨loop, hblock, hrecorded⟩ := CountedLoop.recordedBy_of_detectCounted hfound
  have hloop := CountedLoop.isIn_of_ofBlock? hblock
  have hsteps : ∀ i ∈ loop.steps, found.absorbs i = true := fun i hi =>
    hrecorded.absorbs_iff.mpr ⟨i, by simp [CountedLoop.absorbed, hi], rfl⟩
  refine ⟨loop, hloop, hrecorded, ?_, hsteps, ?_, ?_, ?_, ?_⟩
  · intro i hi
    constructor
    · intro hwrites
      simp only [CountedLoop.lap, List.mem_append, List.mem_singleton] at hi
      rcases hi with hi | (((hi | hi) | hi) | rfl)
      · simp [hloop.between i hi] at hwrites
      · simp [hloop.body i hi] at hwrites
      · exact hi
      · simp [hloop.writes_compare hi] at hwrites
      · simp [hloop.writes_branch] at hwrites
    · intro hstep
      obtain ⟨delta, hdelta⟩ := hloop.steps i hstep
      exact (CountedLoop.stepOf?_cases hdelta).1
  · obtain ⟨setter, hlast, hsetter⟩ := hloop.exists_setter
    rcases hsetter with hcompare | ⟨hnone, hfinal⟩
    · have habsorbs : found.absorbs setter = true :=
        hrecorded.absorbs_iff.mpr ⟨setter, by simp [CountedLoop.absorbed, hcompare], rfl⟩
      exact ⟨setter, hlast, habsorbs, Or.inl ⟨hcompare, hloop.compare setter hcompare⟩⟩
    · exact ⟨setter, hlast, hsteps setter (List.mem_of_getLast? hfinal), Or.inr ⟨hnone, hfinal⟩⟩
  · rw [← CountedLoop.total_eq_countP hloop.steps, hloop.step]
    exact CountedLoop.toInt_sum loop.register loop.steps
  · rw [← CountedLoop.total_eq_countP hloop.steps]
    exact hrecorded.step.trans hloop.step_modEq
  · -- The recorded step is the sum of the steps modulo 256, so both make the counter run through
    -- the same values.
    intro State machine counter zero code first bound hascending hblock hcounts halone hfirst hbound
      start rounds hbefore
    have hinit := Option.some.inj (hrecorded.first.symm.trans hfirst)
    have hend := Option.some.inj (hrecorded.bound.symm.trans hbound)
    have htally := funext (CountedLoop.tally_congr first hrecorded.step)
    rw [htally] at hbefore ⊢
    exact ⟨hloop.exists_passes_top hcounts halone hascending hblock hend hinit start rounds hbefore,
      hloop.exists_passes_exit hcounts halone hascending hblock hend hinit start rounds hbefore⟩

/-- A loop whose counter runs over the top of a byte. -/
def wrappingLoop : Block where
  instructions :=
    [{ address := 0xC000, mnemonic := .ldx, operand := .immediate 0xFE },
     { address := 0xC002, mnemonic := .sta, operand := .indexed 0x0400 .x },
     { address := 0xC005, mnemonic := .inx, operand := .implied },
     { address := 0xC006, mnemonic := .inx, operand := .implied },
     { address := 0xC007, mnemonic := .cpx, operand := .immediate 4 },
     { address := 0xC009, mnemonic := .bne, operand := .absolute 0xC002 }]
  nonempty := List.cons_ne_nil _ _

/-- A machine that has the X register and the zero flag and nothing else. -/
def indexMachine : Interpretation (UInt8 × Bool) where
  effect i state :=
    match i.mnemonic, i.operand with
    | .ldx, .immediate value => (value, value == 0)
    | .inx, _ => (state.1 + 1, state.1 + 1 == 0)
    | .dex, _ => (state.1 - 1, state.1 - 1 == 0)
    | .cpx, .immediate value => (state.1, state.1 == value)
    | _, _ => state
  taken i state := i.mnemonic == .bne && !state.2

theorem indexMachine_countsWith : indexMachine.CountsWith .x Prod.fst Prod.snd where
  load i value state hload hvalue := by
    have hmnemonic : i.mnemonic = .ldx := by
      generalize i.mnemonic = mnemonic at hload
      cases mnemonic <;> simp_all [Mnemonic.loads?]
    simp [indexMachine, hmnemonic, hvalue]
  step i delta state hdelta := by
    have hmnemonic : i.mnemonic = .inx ∧ delta = 1 ∨ i.mnemonic = .dex ∧ delta = -1 := by
      unfold CountedLoop.stepOf? at hdelta
      generalize i.mnemonic = mnemonic at hdelta
      cases mnemonic <;> simp_all [Mnemonic.step?]
    have hlt := state.1.toNat_lt
    rcases hmnemonic with ⟨hmnemonic, rfl⟩ | ⟨hmnemonic, rfl⟩
    · simp [indexMachine, hmnemonic, UInt8.toNat_add]
    · simp [indexMachine, hmnemonic, UInt8.toNat_sub]
      omega
  compare i value state hcompare hvalue := by
    have hmnemonic : i.mnemonic = .cpx := by
      generalize i.mnemonic = mnemonic at hcompare
      cases mnemonic <;> simp_all [Mnemonic.compares?]
    simp [indexMachine, hmnemonic, hvalue]
  branch i state hbranch := by simp [indexMachine, hbranch]

theorem indexMachine_leavesAlone (instructions : List Instruction) :
    indexMachine.LeavesAlone .x Prod.fst instructions := by
  intro i _ hwrites state
  dsimp only [indexMachine]
  split <;> simp_all [Mnemonic.writes, Mnemonic.loads?, Mnemonic.step?]

theorem wrappingLoop_recognised : (Shape.detectCounted {} [wrappingLoop]).isSome := by
  decide +kernel

theorem wrappingLoop_counts :
    ∃ found, Shape.detectCounted {} [wrappingLoop] = some found ∧
      (Routine.boundAndStep {} found).2 = 2 ∧
      ∃ state, state.1 = 4 ∧
      indexMachine.Passes wrappingLoop.instructions 0xC002 Prod.fst (CountedLoop.tally 0xFE 2) 3
        (0xC000, (0, false)) (0xC00B, state) := by
  have hfound := (Option.some_get wrappingLoop_recognised).symm
  obtain ⟨loop, -, hrecorded, -, -, -, -, -, hcounts⟩ := counted_loop_counts_modulo hfound
  have hregister : loop.register = .x := by
    apply Option.some.inj
    rw [← hrecorded.register]
    decide +kernel
  have hinit : loop.init.address = 0xC000 := by
    rw [← hrecorded.anchor]
    decide +kernel
  have htop : [loop.top] = [0xC002] := by
    rw [← hrecorded.top]
    decide +kernel
  have hstep :
      (Routine.boundAndStep {}
        ((Shape.detectCounted {} [wrappingLoop]).get wrappingLoop_recognised)).2 = 2 := by
    decide +kernel
  have hruns := hcounts indexMachine Prod.fst Prod.snd wrappingLoop.instructions 0xFE 4 (by decide)
    (by decide +kernel)
    (hregister ▸ indexMachine_countsWith) (hregister ▸ indexMachine_leavesAlone _)
      (by decide +kernel) (by decide +kernel)
  rw [hstep] at hruns
  have hbefore : ∀ k : Nat, 0 < k → k ≤ 2 → CountedLoop.tally 0xFE 2 k ≠ 4 := by
    intro k hpos hle
    show (254 + k * 2 : Int) % 256 ≠ 4
    omega
  obtain ⟨state, hpasses, hstate⟩ := (hruns (0, false) 2 hbefore).2 (by decide)
  rw [hinit, List.singleton_inj.mp htop] at hpasses
  exact ⟨_, hfound, hstep, state, hstate, hpasses⟩

end Lift6502
