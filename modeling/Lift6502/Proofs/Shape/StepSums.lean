import Lift6502.Shape.Loop
import Mathlib.Data.Int.ModEq

/-!
# What steps add up to

The steps of a counted loop are added up in sixteen bits, from the last one to the first. The sum is
right modulo 65536, and it is exact as long as no sum on the way leaves sixteen bits. For that it
takes more steps of one register than half of memory can hold.
-/

namespace Lift6502

namespace CountedLoop

variable {register : Register} {i : Instruction} {delta : Int16} {steps later : List Instruction}

/-! ### Single steps -/

/-- A step writes its register and moves it by one. -/
theorem stepOf?_cases (h : stepOf? register i = some delta) :
    i.mnemonic.writes register = true ∧ (delta = 1 ∨ delta = -1) := by
  unfold stepOf? at h
  split at h
  · rename_i stepped change hstep
    split at h
    · rename_i hregister
      subst hregister
      obtain rfl := Option.some.inj h
      have hchange : change = 1 ∨ change = -1 := by
        generalize i.mnemonic = mnemonic at hstep
        cases mnemonic <;> simp_all [Mnemonic.step?]
      refine ⟨by simp [Mnemonic.writes, hstep], ?_⟩
      rcases hchange with rfl | rfl
      · exact Or.inl rfl
      · exact Or.inr rfl
    · cases h
  · cases h

/-- What some steps of a register add up to, without a bound. -/
def total (register : Register) (steps : List Instruction) : Int :=
  ((steps.filterMap (stepOf? register)).map Int16.toInt).sum

theorem total_nil (register : Register) : total register [] = 0 :=
  rfl

theorem total_cons (h : stepOf? register i = some delta) (steps : List Instruction) :
    total register (i :: steps) = delta.toInt + total register steps := by
  rw [total, List.filterMap_cons_some h, List.map_cons, List.sum_cons, total]

theorem sum_cons (h : stepOf? register i = some delta) (steps : List Instruction) :
    sum register (i :: steps) = delta + sum register steps := by
  rw [sum, List.filterMap_cons_some h, List.foldr_cons, sum]

/-- Steps add up to the number of increments less that of decrements. -/
theorem total_eq_countP (h : ∀ i ∈ steps, ∃ delta, stepOf? register i = some delta) :
    total register steps
      = steps.countP (stepOf? register · == some 1)
        - steps.countP (stepOf? register · == some (-1)) := by
  induction steps with
  | nil => rfl
  | cons i rest ih =>
    obtain ⟨⟨delta, hdelta⟩, hrest⟩ := List.forall_mem_cons.mp h
    rw [total_cons hdelta, ih hrest, List.countP_cons, List.countP_cons, hdelta]
    rcases (stepOf?_cases hdelta).2 with rfl | rfl
    · rw [if_pos (by decide), if_neg (by decide), show (1 : Int16).toInt = 1 from rfl]
      omega
    · rw [if_neg (by decide), if_pos (by decide), show (-1 : Int16).toInt = -1 from rfl]
      omega

/-! ### Sums in sixteen bits -/

/-- The sum in sixteen bits is the whole sum, wrapped around. -/
theorem toInt_sum (register : Register) (steps : List Instruction) :
    (sum register steps).toInt = (total register steps).bmod 65536 := by
  induction steps with
  | nil => rfl
  | cons i rest ih =>
    cases hstep : stepOf? register i with
    | none =>
      rw [sum, total, List.filterMap_cons_none hstep]
      exact ih
    | some delta =>
      rw [sum_cons hstep, total_cons hstep, Int16.toInt_add, ih]
      exact Int.add_bmod_bmod

theorem toInt_sum_modEq (register : Register) (steps : List Instruction) :
    (sum register steps).toInt ≡ total register steps [ZMOD 65536] := by
  rw [toInt_sum]
  exact Int.bmod_emod

/-- Whether a number has a place in sixteen bits. -/
def fits (number : Int) : Bool := -32768 ≤ number && number ≤ 32767

theorem fits_iff {number : Int} : fits number = true ↔ number.bmod 65536 = number := by
  simp only [fits, Bool.and_eq_true, decide_eq_true_eq, Int.bmod_def]
  omega

/-- Whether steps add up to more than sixteen bits hold, or do on the way from the last one. -/
def overflows (register : Register) : List Instruction → Bool
  | [] => false
  | first :: later => overflows register later || !fits (total register (first :: later))

@[simp] theorem overflows_nil (register : Register) : overflows register [] = false :=
  rfl

theorem overflows_append (front : List Instruction) (h : overflows register later = true) :
    overflows register (front ++ later) = true := by
  induction front with
  | nil => exact h
  | cons first front ih => rw [List.cons_append, overflows, ih, Bool.true_or]

/-- Where nothing overflows the sum is exact. -/
theorem toInt_sum_of_not_overflows (h : overflows register steps = false) :
    (sum register steps).toInt = total register steps := by
  cases steps with
  | nil => rfl
  | cons first later =>
    rw [overflows, Bool.or_eq_false_iff, Bool.not_eq_false'] at h
    rw [toInt_sum, fits_iff.mp h.2]

/-- One more step overflows exactly if the sum in sixteen bits is not the sum of both. -/
theorem overflows_cons (hstep : stepOf? register i = some delta)
    (hlater : overflows register later = false) :
    overflows register (i :: later)
      = ((sum register later + delta).toInt != (sum register later).toInt + delta.toInt) := by
  have hsum : (sum register later + delta).toInt = (total register (i :: later)).bmod 65536 := by
    rw [Int16.add_comm, ← sum_cons hstep, toInt_sum]
  have htotal : (sum register later).toInt + delta.toInt = total register (i :: later) := by
    rw [toInt_sum_of_not_overflows hlater, total_cons hstep, Int.add_comm]
  rw [overflows, hlater, Bool.false_or, hsum, htotal, bne, Bool.not_eq_eq_eq_not, Bool.not_not,
    Bool.eq_iff_iff, fits_iff, beq_iff_eq]

/-! ### How many steps it takes -/

theorem natAbs_total_le (register : Register) (steps : List Instruction) :
    (total register steps).natAbs ≤ steps.length := by
  induction steps with
  | nil => exact Nat.le_refl 0
  | cons i rest ih =>
    cases hstep : stepOf? register i with
    | none =>
      rw [total, List.filterMap_cons_none hstep, List.length_cons]
      exact Nat.le_succ_of_le ih
    | some delta =>
      rw [total_cons hstep, List.length_cons]
      rcases (stepOf?_cases hstep).2 with rfl | rfl
      · rw [show (1 : Int16).toInt = 1 from rfl]
        omega
      · rw [show (-1 : Int16).toInt = -1 from rfl]
        omega

/-- Fewer than 32768 steps never overflow. -/
theorem le_length_of_overflows (h : overflows register steps = true) : 32768 ≤ steps.length := by
  induction steps with
  | nil => cases h
  | cons first later ih =>
    rw [overflows, Bool.or_eq_true, Bool.not_eq_true'] at h
    rcases h with hlater | hleaves
    · exact Nat.le_succ_of_le (ih hlater)
    · have hle := natAbs_total_le register (first :: later)
      simp only [fits, Bool.and_eq_false_iff, decide_eq_false_iff_not] at hleaves
      omega

theorem total_of_forall_up (h : ∀ i ∈ steps, stepOf? register i = some 1) :
    total register steps = steps.length := by
  induction steps with
  | nil => rfl
  | cons first later ih =>
    obtain ⟨hfirst, hlater⟩ := List.forall_mem_cons.mp h
    rw [total_cons hfirst, ih hlater, List.length_cons, show (1 : Int16).toInt = 1 from rfl]
    omega

/-- Where all steps go up, 32768 of them overflow. -/
theorem overflows_of_forall_up (h : ∀ i ∈ steps, stepOf? register i = some 1) :
    overflows register steps = decide (32768 ≤ steps.length) := by
  induction steps with
  | nil => rfl
  | cons first later ih =>
    rw [overflows, ih (List.forall_mem_cons.mp h).2, total_of_forall_up h, fits, Bool.eq_iff_iff]
    simp only [List.length_cons, Bool.or_eq_true, Bool.not_eq_true', Bool.and_eq_false_iff,
      decide_eq_true_eq, decide_eq_false_iff_not]
    omega

end CountedLoop

/-- Whether adding up the steps of a block that closes like a counted loop overflows. -/
def Block.overflows (block : Block) : Bool :=
  (CountedLoop.parts? block).any fun loop => CountedLoop.overflows loop.register loop.steps

end Lift6502
