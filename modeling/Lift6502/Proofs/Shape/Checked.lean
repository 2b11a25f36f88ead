import Mathlib.Data.List.Basic

/-!
# Reaching into lists by position

Code that works with positions in lists can name a place at which there is nothing, and code that
adds in a fixed width can leave it. Here such code has four outcomes: a value, the finding that
there is none, an access out of range, and a sum that overflows. Nothing recovers from the last two,
so that code which ends in one of the others has made every access in range and every sum within its
width.
-/

namespace Lift6502

inductive Checked (α : Type) where
  | value (result : α)
  /-- There is nothing of what was looked for. -/
  | declined
  /-- A position outside of a list, or a difference below zero. -/
  | outOfRange
  /-- A sum that does not fit. -/
  | overflow

/-- What is done with a sum that does not fit. -/
inductive OnOverflow where
  | wrap
  | stop
  deriving DecidableEq

/-- Whether code stops, given whether a sum on its way does not fit. -/
def OnOverflow.stops : OnOverflow → Bool → Bool
  | wrap, _ => false
  | stop, overflows => overflows

namespace Checked

variable {α β γ : Type}

instance : Monad Checked where
  pure := value
  bind
    | value result, next => next result
    | declined, _ => declined
    | outOfRange, _ => outOfRange
    | overflow, _ => overflow

instance : LawfulMonad Checked :=
  LawfulMonad.mk' Checked (fun outcome => by cases outcome <;> rfl) (fun _ _ => rfl)
    (fun outcome _ _ => by cases outcome <;> rfl)

def offer : Option α → Checked α
  | some result => value result
  | none => declined

/-- Goes on only if a condition holds. -/
def require (holds : Bool) : Checked Unit := if holds then value () else declined

/-- Goes on whether or not something is found. -/
def attempt : Checked α → Checked (Option α)
  | value result => value (some result)
  | declined => value none
  | outOfRange => outOfRange
  | overflow => overflow

/-! ### Accesses -/

def get (elements : List α) (position : Nat) : Checked α :=
  match elements[position]? with
  | some element => value element
  | none => outOfRange

def set (elements : List α) (position : Nat) (element : α) : Checked (List α) :=
  if position < elements.length then value (elements.set position element) else outOfRange

/-- The elements from one position up to another one. -/
def slice (elements : List α) (start stop : Nat) : Checked (List α) :=
  if start ≤ stop ∧ stop ≤ elements.length then value ((elements.take stop).drop start)
    else outOfRange

def minus (left right : Nat) : Checked Nat := if right ≤ left then value (left - right)
    else outOfRange

/-- A sum in sixteen bits. -/
def plus (mode : OnOverflow) (left right : Int16) : Checked Int16 :=
  if mode.stops ((left + right).toInt != left.toInt + right.toInt) then overflow
  else value (left + right)

theorem get_eq_value {elements : List α} {position : Nat} {element : α}
    (h : elements[position]? = some element) : get elements position = value element := by
  rw [get, h]

theorem slice_eq_value {elements : List α} {start stop : Nat} (hstart : start ≤ stop)
    (hstop : stop ≤ elements.length) :
    slice elements start stop = value ((elements.take stop).drop start) :=
  if_pos ⟨hstart, hstop⟩

theorem slice_zero {elements : List α} {stop : Nat} (hstop : stop ≤ elements.length) :
    slice elements 0 stop = value (elements.take stop) :=
  slice_eq_value (Nat.zero_le stop) hstop

theorem slice_length {elements : List α} {start : Nat} (hstart : start ≤ elements.length) :
    slice elements start elements.length = value (elements.drop start) := by
  rw [slice_eq_value hstart (Nat.le_refl _), List.take_length]

/-- A list in three parts has the middle one between the positions at which it starts and stops. -/
theorem slice_append (front middle back : List α) :
    slice (front ++ middle ++ back) front.length (front.length + middle.length) = value middle := by
  rw [slice_eq_value (Nat.le_add_right _ _) (by simp), ← List.length_append, List.take_left,
    List.drop_left]

theorem minus_eq_value {left right : Nat} (h : right ≤ left) :
    minus left right = value (left - right) :=
  if_pos h

/-! ### Outcomes in range -/

@[simp] theorem value_bind (result : α) (next : α → Checked β) :
    (value result >>= next) = next result :=
  rfl

@[simp] theorem pure_eq_value (result : α) : (pure result : Checked α) = value result :=
  rfl

@[simp] theorem attempt_offer (found : Option α) : attempt (offer found) = value found := by
  cases found <;> rfl

/-- Code that first looks for something and then goes on looks for all that it needs first. -/
theorem offer_bind_then {found : Option α} {next : α → Checked γ} {follow : α → Option β}
    {finish : β → Checked γ}
    (h : ∀ result, found = some result → next result = offer (follow result) >>= finish) :
    (offer found >>= next) = offer (found >>= follow) >>= finish := by
  cases found with
  | none => rfl
  | some result => exact h result rfl

theorem offer_bind {found : Option α} {next : α → Checked β} {follow : α → Option β}
    (h : ∀ result, found = some result → next result = offer (follow result)) :
    (offer found >>= next) = offer (found >>= follow) := by
  rw [← bind_pure (offer (found >>= follow))]
  refine offer_bind_then fun result hresult => ?_
  rw [bind_pure, h result hresult]

theorem offer_map_bind (found : Option α) {γ : Type} (change : α → γ) (next : γ → Checked β) :
    (offer (found.map change) >>= next) = offer found >>= fun result => next (change result) := by
  cases found <;> rfl

theorem require_bind_then {holds : Bool} {next : Unit → Checked γ} {follow : Option β}
    {finish : β → Checked γ} (h : holds = true → next () = offer follow >>= finish) :
    (require holds >>= next) = offer (guard (holds = true) >>= fun _ => follow) >>= finish := by
  cases holds with
  | false => rfl
  | true => exact h rfl

theorem require_bind {holds : Bool} {next : Unit → Checked β} {follow : Option β}
    (h : holds = true → next () = offer follow) :
    (require holds >>= next) = offer (guard (holds = true) >>= fun _ => follow) := by
  rw [← bind_pure (offer (guard (holds = true) >>= fun _ => follow))]
  refine require_bind_then fun hholds => ?_
  rw [bind_pure, h hholds]

theorem require_decide_bind {holds : Prop} [Decidable holds] {next : Unit → Checked β}
    {follow : Option β} (h : holds → next () = offer follow) :
    (require (decide holds) >>= next) = offer (guard holds >>= fun _ => follow) := by
  have hguard : (guard holds : Option Unit) = if holds then some () else none := rfl
  by_cases hholds : holds
  · rw [hguard, if_pos hholds, decide_eq_true hholds]
    exact h hholds
  · rw [hguard, if_neg hholds, decide_eq_false hholds]
    rfl

theorem guard_and_bind (first second : Bool) (follow : Option β) :
    (guard ((first && second) = true) >>= fun _ => follow)
      = guard (first = true) >>= fun _ => guard (second = true) >>= fun _ => follow := by
  cases first <;> rfl

theorem mapM_offer {choose : α → Checked β} {pick : α → Option β} {elements : List α}
    (h : ∀ element ∈ elements, choose element = offer (pick element)) :
    elements.mapM choose = offer (elements.mapM pick) := by
  induction elements with
  | nil => rfl
  | cons element elements ih =>
    have hothers := ih fun other hother => h other (List.mem_cons_of_mem element hother)
    rw [List.mapM_cons, List.mapM_cons, h element List.mem_cons_self, hothers]
    refine offer_bind fun first _ => ?_
    exact offer_bind fun others _ => rfl

theorem mapM_eq_value {choose : α → Checked β} {change : α → β} {elements : List α}
    (h : ∀ element ∈ elements, choose element = value (change element)) :
    elements.mapM choose = value (elements.map change) := by
  induction elements with
  | nil => rfl
  | cons element elements ih =>
    have hothers := ih fun other hother => h other (List.mem_cons_of_mem element hother)
    rw [List.mapM_cons, h element List.mem_cons_self, hothers]
    rfl

/-- The elements for which a check holds. -/
def filter (keeps : α → Checked Bool) : List α → Checked (List α)
  | [] => return []
  | element :: elements => do
    let kept ← keeps element
    let others ← filter keeps elements
    return if kept then element :: others else others

theorem filter_eq_value {keeps : α → Checked Bool} {holds : α → Bool} {elements : List α}
    (h : ∀ element ∈ elements, keeps element = value (holds element)) :
    filter keeps elements = value (elements.filter holds) := by
  induction elements with
  | nil => rfl
  | cons element elements ih =>
    have hothers := ih fun other hother => h other (List.mem_cons_of_mem element hother)
    rw [filter, h element List.mem_cons_self, value_bind, hothers, value_bind, List.filter_cons]
    rfl

/-! ### Sums that do not fit -/

/-- An outcome of code that may have been stopped before. -/
def stopIf (stops : Bool) (outcome : Checked α) : Checked α := if stops then overflow else outcome

@[simp] theorem stopIf_true (outcome : Checked α) : stopIf true outcome = overflow :=
  rfl

@[simp] theorem stopIf_false (outcome : Checked α) : stopIf false outcome = outcome :=
  rfl

theorem stopIf_bind (stops : Bool) (outcome : Checked α) (next : α → Checked β) :
    (stopIf stops outcome >>= next) = stopIf stops (outcome >>= next) := by
  cases stops <;> rfl

theorem attempt_stopIf (stops : Bool) (outcome : Checked α) :
    attempt (stopIf stops outcome) = stopIf stops (attempt outcome) := by
  cases stops <;> rfl

theorem stopIf_stopIf (first second : Bool) (outcome : Checked α) :
    stopIf first (stopIf second outcome) = stopIf (first || second) outcome := by
  cases first <;> rfl

theorem stops_or (mode : OnOverflow) (first second : Bool) :
    mode.stops (first || second) = (mode.stops first || mode.stops second) := by
  cases mode <;> rfl

theorem stops_any (mode : OnOverflow) (elements : List α) (overflows : α → Bool) :
    mode.stops (elements.any overflows) = elements.any fun element =>
      mode.stops (overflows element) := by
  cases mode with
  | stop => rfl
  | wrap => exact (List.any_eq_false.mpr fun _ _ => Bool.false_ne_true).symm

theorem foldlM_eq_stopIf {state : Type} {step : state → α → Checked state}
    {next : state → α → state} {stops : α → Bool} {elements : List α}
    (h : ∀ element ∈ elements, ∀ before,
      step before element = stopIf (stops element) (value (next before element))) (before : state) :
    elements.foldlM step before
      = stopIf (elements.any stops) (value (elements.foldl next before)) := by
  induction elements generalizing before with
  | nil => rfl
  | cons element elements ih =>
    have hothers := ih fun other hother => h other (List.mem_cons_of_mem element hother)
    rw [List.foldlM_cons, h element List.mem_cons_self, stopIf_bind, value_bind, hothers,
      stopIf_stopIf, List.any_cons, List.foldl_cons]

end Checked

end Lift6502
