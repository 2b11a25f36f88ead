import Mathlib.Data.List.Basic

/-!
# Processes that make the same changes

Code that runs on a machine and a program tree that is carried out both go on step by step, and some
of their steps change a state. Two of them do the same if they make the same changes one after the
other, whether they end or not, and if they end with results that agree. It is enough to find places
at which they meet again and again, with the same changes between one meeting and the next.
-/

namespace Lift6502

/-- The states that some changes lead to, one after the other. -/
def trail {State : Type} : List (State → State) → State → List State
  | [], _ => []
  | change :: changes, state => change state :: trail changes (change state)

/-- The state that some changes lead to in the end. -/
def trailEnd {State : Type} (changes : List (State → State)) (state : State) : State :=
  changes.foldl (fun state change => change state) state

/-- Something that goes on step by step. A change is told by the state that it leads to. -/
structure Process (Config State Result : Type) where
  step? : Config → Option (Option State × Config)
  result? : Config → Option Result
  /-- What has a result does not go on. -/
  ended : ∀ config, (result? config).isSome = true → step? config = none

namespace Process

variable {Config State Result : Type} (process : Process Config State Result)

/-- The changes of some steps, and where they lead. -/
def run : Nat → Config → Option (List State × Config)
  | 0, config => some ([], config)
  | steps + 1, config =>
    (process.step? config).bind fun step =>
      (run steps step.2).map fun rest => (step.1.toList ++ rest.1, rest.2)

/-- Some steps lead from one place to another. -/
def Reaches (config : Config) (changes : List State) (goal : Config) : Prop :=
  ∃ steps, process.run steps config = some (changes, goal)

/-- One or more steps lead from one place to another. -/
def Advances (config : Config) (changes : List State) (goal : Config) : Prop :=
  ∃ steps, process.run (steps + 1) config = some (changes, goal)

/-- The process makes some changes first. -/
def Begins (config : Config) (changes : List State) : Prop :=
  ∃ goal, process.Reaches config changes goal

/-- The process makes some changes and then ends with a result. -/
def Ends (config : Config) (changes : List State) (result : Result) : Prop :=
  ∃ goal, process.Reaches config changes goal ∧ process.result? goal = some result

/-- The process goes on until it has a result. -/
def Proceeds (config : Config) : Prop :=
  ∀ changes goal, process.Reaches config changes goal →
    (process.step? goal).isSome = true ∨ (process.result? goal).isSome = true

variable {process} {config middle goal : Config} {changes front back : List State} {result : Result}

theorem run_succ_eq_some {steps : Nat} :
    process.run (steps + 1) config = some (changes, goal) ↔
      ∃ change next rest, process.step? config = some (change, next) ∧
      process.run steps next = some (rest, goal) ∧
        changes = change.toList ++ rest := by
  simp only [run, Option.bind_eq_some_iff, Option.map_eq_some_iff, Prod.mk.injEq, Prod.exists]
  constructor
  · rintro ⟨change, next, hstep, rest, _, hrest, rfl, rfl⟩
    exact ⟨change, next, rest, hstep, hrest, rfl⟩
  · rintro ⟨change, next, rest, hstep, hrest, rfl⟩
    exact ⟨change, next, hstep, rest, goal, hrest, rfl, rfl⟩

theorem run_add_eq_some {steps more : Nat} :
    process.run (steps + more) config = some (changes, goal) ↔
      ∃ front middle back, process.run steps config = some (front, middle) ∧
      process.run more middle = some (back, goal) ∧
        changes = front ++ back := by
  induction steps generalizing config changes with
  | zero =>
    rw [Nat.zero_add]
    constructor
    · exact fun h => ⟨[], config, changes, rfl, h, rfl⟩
    · rintro ⟨_, _, back, hnone, hback, rfl⟩
      obtain ⟨rfl, rfl⟩ := Prod.mk.inj (Option.some.inj hnone)
      exact hback
  | succ steps ih =>
    rw [Nat.succ_add, run_succ_eq_some]
    constructor
    · rintro ⟨change, next, rest, hstep, hrest, rfl⟩
      obtain ⟨front, middle, back, hfront, hback, rfl⟩ := ih.mp hrest
      exact ⟨_, middle, back, run_succ_eq_some.mpr ⟨change, next, front, hstep, hfront, rfl⟩,
        hback, by rw [List.append_assoc]⟩
    · rintro ⟨_, middle, back, hfront, hback, rfl⟩
      obtain ⟨change, next, rest, hstep, hrest, rfl⟩ := run_succ_eq_some.mp hfront
      exact ⟨change, next, _, hstep,
        ih.mpr ⟨rest, middle, back, hrest, hback, rfl⟩, by rw [List.append_assoc]⟩

/-! ### Putting runs together -/

theorem Reaches.refl (config : Config) : process.Reaches config [] config :=
  ⟨0, rfl⟩

theorem Reaches.trans (h : process.Reaches config front middle)
    (hrest : process.Reaches middle back goal) : process.Reaches config (front ++ back) goal := by
  obtain ⟨steps, hsteps⟩ := h
  obtain ⟨more, hmore⟩ := hrest
  exact ⟨steps + more, run_add_eq_some.mpr ⟨front, middle, back, hsteps, hmore, rfl⟩⟩

theorem Advances.reaches (h : process.Advances config changes goal) :
    process.Reaches config changes goal := by
  obtain ⟨steps, hsteps⟩ := h
  exact ⟨steps + 1, hsteps⟩

theorem advances_of_step {change : Option State} (h : process.step? config = some (change, goal)) :
    process.Advances config change.toList goal :=
  ⟨0, run_succ_eq_some.mpr ⟨change, goal, [], h, rfl, (List.append_nil _).symm⟩⟩

theorem advances_of_quiet_step (h : process.step? config = some (none, goal)) :
    process.Advances config [] goal :=
  advances_of_step h

theorem Advances.trans (h : process.Advances config front middle)
    (hrest : process.Reaches middle back goal) : process.Advances config (front ++ back) goal := by
  obtain ⟨steps, hsteps⟩ := h
  obtain ⟨more, hmore⟩ := hrest
  refine ⟨steps + more, ?_⟩
  rw [Nat.add_right_comm]
  exact run_add_eq_some.mpr ⟨front, middle, back, hsteps, hmore, rfl⟩

/-! ### What is fixed by the first steps -/

/-- A process that makes some changes makes the first of them first. -/
theorem begins_of_prefix {steps : Nat} (h : process.run steps config = some (changes, goal))
    (hfront : front <+: changes) : process.Begins config front := by
  induction steps generalizing config changes front with
  | zero =>
    obtain ⟨rfl, rfl⟩ := Prod.mk.inj (Option.some.inj h)
    obtain rfl := List.prefix_nil.mp hfront
    exact ⟨config, .refl config⟩
  | succ steps ih =>
    obtain ⟨change, next, rest, hstep, hrest, rfl⟩ := run_succ_eq_some.mp h
    have hgoes := (advances_of_step hstep).reaches
    cases change with
    | none =>
      obtain ⟨middle, hmiddle⟩ := ih hrest hfront
      exact ⟨middle, hgoes.trans hmiddle⟩
    | some state =>
      cases front with
      | nil => exact ⟨config, .refl config⟩
      | cons first front =>
        obtain ⟨rfl, hbefore⟩ := List.cons_prefix_cons.mp hfront
        obtain ⟨middle, hmiddle⟩ := ih hrest hbefore
        exact ⟨middle, hgoes.trans hmiddle⟩

/-- Of two runs from one place the shorter is the beginning of the longer. -/
theorem run_of_le {steps more : Nat} (hle : steps ≤ more)
    (h : process.run steps config = some (front, middle))
    (hmore : process.run more config = some (changes, goal)) :
    ∃ back, process.run (more - steps) middle = some (back, goal) ∧ changes = front ++ back := by
  rw [← Nat.add_sub_of_le hle] at hmore
  obtain ⟨_, _, back, hsame, hback, rfl⟩ := run_add_eq_some.mp hmore
  obtain ⟨rfl, rfl⟩ := Prod.mk.inj (Option.some.inj (h.symm.trans hsame))
  exact ⟨back, hback, rfl⟩

theorem begins_iff (h : process.Reaches config front middle) :
    process.Begins config changes ↔ changes <+: front ∨ ∃ back, changes = front ++ back ∧
      process.Begins middle back := by
  obtain ⟨steps, hsteps⟩ := h
  constructor
  · rintro ⟨goal, more, hmore⟩
    rcases Nat.le_total more steps with hle | hle
    · obtain ⟨back, -, rfl⟩ := run_of_le hle hmore hsteps
      exact Or.inl (List.prefix_append changes back)
    · obtain ⟨back, hback, rfl⟩ := run_of_le hle hsteps hmore
      exact Or.inr ⟨back, rfl, goal, _, hback⟩
  · rintro (hfront | ⟨back, rfl, goal, hback⟩)
    · exact begins_of_prefix hsteps hfront
    · exact ⟨goal, Reaches.trans ⟨steps, hsteps⟩ hback⟩

/-- No step leads out of a place that has a result. -/
theorem run_eq_some_of_result {steps : Nat} (hresult : process.result? config = some result)
    (h : process.run steps config = some (changes, goal)) : steps = 0 ∧ changes = [] ∧
      goal = config := by
  cases steps with
  | zero =>
    obtain ⟨rfl, rfl⟩ := Prod.mk.inj (Option.some.inj h)
    exact ⟨rfl, rfl, rfl⟩
  | succ steps =>
    obtain ⟨change, next, rest, hstep, -⟩ := run_succ_eq_some.mp h
    rw [process.ended config (Option.isSome_of_eq_some hresult)] at hstep
    cases hstep

theorem ends_iff (h : process.Reaches config front middle) :
    process.Ends config changes result ↔ ∃ back, changes = front ++ back ∧
      process.Ends middle back result := by
  obtain ⟨steps, hsteps⟩ := h
  constructor
  · rintro ⟨goal, ⟨more, hmore⟩, hresult⟩
    rcases Nat.le_total more steps with hle | hle
    · obtain ⟨back, hback, rfl⟩ := run_of_le hle hmore hsteps
      obtain ⟨-, rfl, rfl⟩ := run_eq_some_of_result hresult hback
      exact ⟨[], by simp, middle, .refl middle, hresult⟩
    · obtain ⟨back, hback, rfl⟩ := run_of_le hle hsteps hmore
      exact ⟨back, rfl, goal, ⟨_, hback⟩, hresult⟩
  · rintro ⟨back, rfl, goal, hback, hresult⟩
    exact ⟨goal, Reaches.trans ⟨steps, hsteps⟩ hback, hresult⟩

/-- A process ends in one way only. -/
theorem Ends.unique {changes' : List State} {result' : Result}
    (h : process.Ends config changes result) (h' : process.Ends config changes' result') :
    changes = changes' ∧ result = result' := by
  obtain ⟨goal, hgoal, hresult⟩ := h
  obtain ⟨back, rfl, _, ⟨steps, hsteps⟩, hsame⟩ := (ends_iff hgoal).mp h'
  obtain ⟨-, rfl, rfl⟩ := run_eq_some_of_result hresult hsteps
  exact ⟨(List.append_nil changes).symm, Option.some.inj (hresult.symm.trans hsame)⟩

theorem Proceeds.of_reaches (h : process.Reaches config front middle)
    (hrest : process.Proceeds middle) : process.Proceeds config := by
  obtain ⟨steps, hsteps⟩ := h
  rintro changes goal ⟨more, hmore⟩
  rcases Nat.lt_or_ge more steps with hlt | hle
  · -- The run to the place in the middle goes on from here.
    obtain ⟨back, hback, -⟩ := run_of_le (Nat.le_of_lt hlt) hmore hsteps
    obtain ⟨left, hleft⟩ : ∃ left, steps - more = left + 1 := ⟨steps - more - 1, by omega⟩
    rw [hleft] at hback
    obtain ⟨change, next, rest, hstep, -⟩ := run_succ_eq_some.mp hback
    exact Or.inl (Option.isSome_of_eq_some hstep)
  · obtain ⟨back, hback, -⟩ := run_of_le hle hsteps hmore
    exact hrest back goal ⟨_, hback⟩

/-! ### Two processes -/

variable {Other Outcome : Type}

/-- Two processes do the same: they make the same changes, go on until they have a result, and have
results that agree. -/
structure SameRuns (left : Process Config State Result) (right : Process Other State Outcome)
    (agree : Result → Outcome → Prop) (config : Config) (other : Other) : Prop where
  proceeds : left.Proceeds config ∧ right.Proceeds other
  begins : ∀ changes, left.Begins config changes ↔ right.Begins other changes
  ends : ∀ changes result, left.Ends config changes result →
    ∃ outcome, right.Ends other changes outcome ∧ agree result outcome
  ended : ∀ changes outcome, right.Ends other changes outcome →
    ∃ result, left.Ends config changes result ∧ agree result outcome

variable {left : Process Config State Result} {right : Process Other State Outcome}
  {agree : Result → Outcome → Prop}
  {other next : Other}

/-- Two processes go on with the same changes. -/
def MoveAlike (left : Process Config State Result) (right : Process Other State Outcome)
    (config : Config) (other : Other) (middle : Config) (next : Other) : Prop :=
  ∃ changes, left.Reaches config changes middle ∧ right.Reaches other changes next

namespace MoveAlike

theorem trans {goal : Config} {last : Other} (h : MoveAlike left right config other middle next)
    (hrest : MoveAlike left right middle next goal last) :
    MoveAlike left right config other goal last := by
  obtain ⟨changes, hleft, hright⟩ := h
  obtain ⟨more, hgoal, hlast⟩ := hrest
  exact ⟨changes ++ more, hleft.trans hgoal, hright.trans hlast⟩

/-- One of them may take steps that change nothing while the other waits. -/
theorem of_left (h : left.Advances config [] middle) :
    MoveAlike left right config other middle other :=
  ⟨[], h.reaches, .refl other⟩

theorem of_right (h : right.Advances other [] next) :
    MoveAlike left right config other config next :=
  ⟨[], .refl config, h.reaches⟩

/-- Processes that go on with the same changes to places from which they do the same do the same. -/
theorem sameRuns (hmove : MoveAlike left right config other middle next)
    (h : SameRuns left right agree middle next) : SameRuns left right agree config other := by
  obtain ⟨front, hleft, hright⟩ := hmove
  refine ⟨⟨h.proceeds.1.of_reaches hleft, h.proceeds.2.of_reaches hright⟩, fun changes => ?_,
    fun changes result => ?_, fun changes outcome => ?_⟩
  · rw [begins_iff hleft, begins_iff hright]
    simp only [h.begins]
  · rw [ends_iff hleft]
    rintro ⟨back, rfl, hends⟩
    obtain ⟨outcome, hother, hagree⟩ := h.ends back result hends
    exact ⟨outcome, (ends_iff hright).mpr ⟨back, rfl, hother⟩, hagree⟩
  · rw [ends_iff hright]
    rintro ⟨back, rfl, hends⟩
    obtain ⟨result, hother, hagree⟩ := h.ended back outcome hends
    exact ⟨result, (ends_iff hleft).mpr ⟨back, rfl, hother⟩, hagree⟩

end MoveAlike

/-- Places at which two processes meet: both have results that agree, or both go on to another such
place with the same changes. -/
def Meet (left : Process Config State Result) (right : Process Other State Outcome)
    (agree : Result → Outcome → Prop) (related : Config → Other → Prop) : Prop :=
  ∀ config other, related config other →
    (∃ result outcome, left.result? config = some result ∧ right.result? other = some outcome ∧
      agree result outcome) ∨
    ∃ changes config' other', left.Advances config changes config' ∧
    right.Advances other changes other' ∧
      related config' other'

namespace Meet

variable {related : Config → Other → Prop}

theorem symm (h : Meet left right agree related) :
    Meet right left (fun outcome result => agree result outcome)
      (fun other config => related config other) := by
  intro other config hrelated
  rcases h config other hrelated with
    ⟨result, outcome, hresult, houtcome, hagree⟩ | ⟨changes, c, o, hleft, hright, hnext⟩
  · exact Or.inl ⟨outcome, result, houtcome, hresult, hagree⟩
  · exact Or.inr ⟨changes, o, c, hright, hleft, hnext⟩

/-- Whatever one of the processes has done after some steps the other has done too. By induction on
the number of steps: they end before the next meeting, or there are fewer of them behind it. -/
theorem of_run (h : Meet left right agree related) (steps : Nat) (hrelated : related config other)
    (hrun : left.run steps config = some (changes, goal)) :
    right.Begins other changes ∧
      ((left.step? goal).isSome = true ∨ (left.result? goal).isSome = true) ∧
      ∀ result, left.result? goal = some result → ∃ outcome, right.Ends other changes outcome ∧
      agree result outcome := by
  induction steps using Nat.strongRecOn generalizing config other changes with
  | ind steps ih =>
    rcases h config other hrelated with
      ⟨result, outcome, hresult, houtcome, hagree⟩ | ⟨es, config', other', hleft, hright, hnext⟩
    · obtain ⟨-, rfl, rfl⟩ := run_eq_some_of_result hresult hrun
      refine ⟨⟨other, .refl other⟩, Or.inr (Option.isSome_of_eq_some hresult), fun _ hsame => ?_⟩
      obtain rfl := Option.some.inj (hresult.symm.trans hsame)
      exact ⟨outcome, ⟨other, .refl other, houtcome⟩, hagree⟩
    · obtain ⟨more, hmore⟩ := hleft
      rcases Nat.lt_or_ge steps (more + 1) with hlt | hle
      · obtain ⟨back, hback, rfl⟩ := run_of_le (Nat.le_of_lt hlt) hrun hmore
        obtain ⟨few, hfew⟩ : ∃ few, more + 1 - steps = few + 1 := ⟨more - steps, by omega⟩
        rw [hfew] at hback
        obtain ⟨change, after, rest, hstep, -⟩ := run_succ_eq_some.mp hback
        refine ⟨(begins_iff hright.reaches).mpr (Or.inl (List.prefix_append _ _)),
          Or.inl (Option.isSome_of_eq_some hstep), ?_⟩
        intro result hresult
        rw [left.ended goal (Option.isSome_of_eq_some hresult)] at hstep
        cases hstep
      · obtain ⟨back, hback, rfl⟩ := run_of_le hle hmore hrun
        obtain ⟨hbegins, hproceeds, hends⟩ := ih (steps - (more + 1)) (by omega) hnext hback
        refine ⟨(begins_iff hright.reaches).mpr (Or.inr ⟨back, rfl, hbegins⟩), hproceeds,
          fun result hresult => ?_⟩
        obtain ⟨outcome, hother, hagree⟩ := hends result hresult
        exact ⟨outcome, (ends_iff hright.reaches).mpr ⟨back, rfl, hother⟩, hagree⟩

/-- Processes that meet again and again do the same. -/
theorem sameRuns (h : Meet left right agree related) (hrelated : related config other) :
    SameRuns left right agree config other where
  proceeds := by
    constructor
    · rintro changes goal ⟨steps, hsteps⟩
      exact (h.of_run steps hrelated hsteps).2.1
    · rintro changes goal ⟨steps, hsteps⟩
      exact (h.symm.of_run steps hrelated hsteps).2.1
  begins changes := by
    constructor
    · rintro ⟨goal, steps, hsteps⟩
      exact (h.of_run steps hrelated hsteps).1
    · rintro ⟨goal, steps, hsteps⟩
      exact (h.symm.of_run steps hrelated hsteps).1
  ends := by
    rintro changes result ⟨goal, ⟨steps, hsteps⟩, hresult⟩
    exact (h.of_run steps hrelated hsteps).2.2 result hresult
  ended := by
    rintro changes outcome ⟨goal, ⟨steps, hsteps⟩, houtcome⟩
    exact (h.symm.of_run steps hrelated hsteps).2.2 outcome houtcome

end Meet

/-- Two processes end: they make the same changes and have results that agree. -/
def EndAlike (left : Process Config State Result) (right : Process Other State Outcome)
    (agree : Result → Outcome → Prop) (config : Config) (other : Other) : Prop :=
  ∃ changes result outcome, left.Ends config changes result ∧ right.Ends other changes outcome ∧
    agree result outcome

theorem MoveAlike.endAlike (hmove : MoveAlike left right config other middle next)
    (h : EndAlike left right agree middle next) : EndAlike left right agree config other := by
  obtain ⟨front, hleft, hright⟩ := hmove
  obtain ⟨changes, result, outcome, hresult, houtcome, hagree⟩ := h
  exact ⟨front ++ changes, result, outcome, (ends_iff hleft).mpr ⟨changes, rfl, hresult⟩,
    (ends_iff hright).mpr ⟨changes, rfl, houtcome⟩, hagree⟩

theorem EndAlike.of_results {result : Result} {outcome : Outcome}
    (hresult : left.result? config = some result) (houtcome : right.result? other = some outcome)
    (hagree : agree result outcome) : EndAlike left right agree config other :=
  ⟨[], result, outcome, ⟨config, .refl config, hresult⟩, ⟨other, .refl other, houtcome⟩, hagree⟩

end Process

end Lift6502
