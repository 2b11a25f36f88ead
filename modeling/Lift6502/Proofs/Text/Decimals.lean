import Lift6502.Proofs.Text.Printed

/-!
# Decimal numbers in texts

A decimal number is read back from its text, and where other text follows it, the number ends where
its digits do.
-/

namespace Lift6502.Text

theorem isDigit_hexDigit : ∀ number < 10, (hexDigit number).isDigit = true := by
  decide

theorem isDigit_of_mem_decimalDigits {number : Nat} :
    ∀ c ∈ decimalDigits number, c.isDigit = true := by
  fun_induction decimalDigits number with
  | case1 number hsmall => exact List.forall_mem_singleton.mpr (isDigit_hexDigit number hsmall)
  | case2 number hlarge ih =>
    refine List.forall_mem_append.mpr ⟨ih, List.forall_mem_singleton.mpr ?_⟩
    exact isDigit_hexDigit (number % 10) (Nat.mod_lt _ (by decide))

theorem decimalDigits_ne_nil (number : Nat) : decimalDigits number ≠ [] := by
  fun_cases decimalDigits number with
  | case1 => exact List.cons_ne_nil _ _
  | case2 => exact List.append_ne_nil_of_right_ne_nil _ (List.cons_ne_nil _ _)

/-- A number starts with a digit, which is no sign and no bracket. -/
theorem exists_decimalDigits (number : Nat) :
    ∃ c rest, decimalDigits number = c :: rest ∧ c.isDigit = true := by
  obtain ⟨c, rest, hdigits⟩ := List.exists_cons_of_ne_nil (decimalDigits_ne_nil number)
  exact ⟨c, rest, hdigits, isDigit_of_mem_decimalDigits c (hdigits ▸ List.mem_cons_self)⟩

theorem digitsValue?_decimalDigits (number : Nat) :
    digitsValue? (decimalDigits number) = some number := by
  have hdigits : (decimalDigits number).all Char.isDigit = true :=
    List.all_eq_true.mpr isDigit_of_mem_decimalDigits
  rw [digitsValue?, if_pos (by simp [decimalDigits_ne_nil, hdigits]), numberOfDigits_decimalDigits]

/-- A natural number below a limit is read back from its text. -/
theorem readNat?_decimal {number limit : Nat} (h : number < limit) :
    readNat? limit (decimal number) = some number := by
  obtain ⟨c, rest, hdigits, hc⟩ := exists_decimalDigits number
  rw [readNat?, decimal, String.toList_ofList, Option.filter_eq_some_iff]
  refine ⟨?_, decide_eq_true h⟩
  split
  · rename_i hplus
    obtain rfl := (List.cons.inj (hdigits.symm.trans hplus)).1
    cases hc
  · exact digitsValue?_decimalDigits number

theorem toList_decimalInt_neg (number : Nat) :
    (decimalInt (.negSucc number)).toList = '-' :: decimalDigits (number + 1) := by
  rw [decimalInt, String.toList_append, decimal, String.toList_ofList, String.toList_ofList,
    List.singleton_append]

/-- An integer of thirty-two bits is read back from its text. -/
theorem readInt?_decimalInt (number : Int) (hlow : -2147483648 ≤ number)
    (hhigh : number ≤ 2147483647) : readInt? (decimalInt number) = some number := by
  rw [readInt?, Option.filter_eq_some_iff]
  refine ⟨?_, by simp [hlow, hhigh]⟩
  cases number with
  | ofNat number =>
    obtain ⟨c, rest, hdigits, hc⟩ := exists_decimalDigits number
    have hvalue := digitsValue?_decimalDigits number
    rw [decimalInt, decimal, String.toList_ofList]
    split
    · rename_i hplus
      obtain rfl := (List.cons.inj (hdigits.symm.trans hplus)).1
      cases hc
    · rename_i hminus
      obtain rfl := (List.cons.inj (hdigits.symm.trans hminus)).1
      cases hc
    · rw [hvalue]
      rfl
  | negSucc number =>
    rw [toList_decimalInt_neg]
    simp only [digitsValue?_decimalDigits]
    rfl

/-! ### Where a number ends -/

/-- Whether a character can stand in an integer. -/
def isNumeral (c : Char) : Bool := c.isDigit || c == '-'

theorem isNumeral_of_mem_decimalInt {number : Int} :
    ∀ c ∈ (decimalInt number).toList, isNumeral c = true := by
  intro c hc
  cases number with
  | ofNat number =>
    rw [decimalInt, decimal, String.toList_ofList] at hc
    rw [isNumeral, isDigit_of_mem_decimalDigits c hc]
    rfl
  | negSucc number =>
    rw [toList_decimalInt_neg] at hc
    rcases List.mem_cons.mp hc with rfl | hc
    · rfl
    · rw [isNumeral, isDigit_of_mem_decimalDigits c hc]
      rfl

theorem decimalInt_injective {left right : Int} (h : decimalInt left = decimalInt right) :
    left = right := by
  have hsign (number other : Nat) : decimalInt (.ofNat number) ≠ decimalInt (.negSucc other) := by
    intro h
    obtain ⟨c, rest, hdigits, hc⟩ := exists_decimalDigits number
    have hlist := congrArg String.toList h
    rw [toList_decimalInt_neg, decimalInt, decimal, String.toList_ofList, hdigits] at hlist
    obtain rfl := (List.cons.inj hlist).1
    cases hc
  cases left with
  | ofNat left =>
    cases right with
    | ofNat right => exact congrArg Int.ofNat (decimal_injective h)
    | negSucc right => exact absurd h (hsign left right)
  | negSucc left =>
    cases right with
    | ofNat right => exact absurd h.symm (hsign right left)
    | negSucc right =>
      have hlist := congrArg String.toList h
      rw [toList_decimalInt_neg, toList_decimalInt_neg] at hlist
      have hdigits := congrArg (numberOfDigits 10) (List.cons.inj hlist).2
      rw [numberOfDigits_decimalDigits, numberOfDigits_decimalDigits] at hdigits
      exact congrArg Int.negSucc (Nat.succ.inj hdigits)

/-- Two numbers in front of texts that do not go on with a digit are told apart from those texts. -/
theorem decimalInt_append_inj {left right : Int} {rest other : String}
    (hrest : rest.toList.head?.all (fun c => !isNumeral c) = true)
    (hother : other.toList.head?.all (fun c => !isNumeral c) = true)
    (h : decimalInt left ++ rest = decimalInt right ++ other) : left = right ∧ rest = other := by
  have hlist := congrArg String.toList h
  rw [String.toList_append, String.toList_append] at hlist
  obtain ⟨hnumber, htext⟩ := cut_append isNumeral_of_mem_decimalInt hrest
  obtain ⟨hnumber', htext'⟩ := cut_append isNumeral_of_mem_decimalInt hother
  rw [hlist] at hnumber htext
  refine ⟨decimalInt_injective (String.toList_injective ?_), String.toList_injective ?_⟩
  · exact hnumber.symm.trans hnumber'
  · exact htext.symm.trans htext'

theorem decimal_append_inj {left right : Nat} {rest other : String}
    (hrest : rest.toList.head?.all (fun c => !isNumeral c) = true)
    (hother : other.toList.head?.all (fun c => !isNumeral c) = true)
    (h : decimal left ++ rest = decimal right ++ other) : left = right ∧ rest = other := by
  have hinteger : decimalInt (.ofNat left) ++ rest = decimalInt (.ofNat right) ++ other := h
  obtain ⟨hnumber, htext⟩ := decimalInt_append_inj hrest hother hinteger
  exact ⟨Int.ofNat.inj hnumber, htext⟩

end Lift6502.Text
