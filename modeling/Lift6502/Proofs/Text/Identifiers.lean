import Lift6502.Proofs.Text.Printed
import Mathlib.Data.List.TakeWhile

/-!
# Identifiers

A text that is sanitised either was blank or has become an identifier, and what is appended to a
name to tell it from another keeps it one.
-/

namespace Lift6502.Text

/-- A letter or underscore, followed by letters, digits and underscores. -/
structure IsName (name : String) : Prop where
  start : name.toList.head?.any isNameStart = true
  chars : ∀ c ∈ name.toList, isNameChar c = true

theorem isName_of_toList {name : String} {c : Char} {rest : List Char}
    (htext : name.toList = c :: rest) (hstart : isNameStart c = true)
    (hrest : ∀ d ∈ rest, isNameChar d = true) : IsName name := by
  refine ⟨?_, ?_⟩
  · rw [htext]
    exact hstart
  · rw [htext]
    exact List.forall_mem_cons.mpr ⟨isNameChar_of_isNameStart hstart, hrest⟩

theorem IsName.append {name suffix : String} (h : IsName name)
    (hsuffix : ∀ c ∈ suffix.toList, isNameChar c = true) : IsName (name ++ suffix) := by
  have hstart := h.start
  cases htext : name.toList with
  | nil =>
    rw [htext] at hstart
    cases hstart
  | cons c rest =>
    rw [htext] at hstart
    have happend : (name ++ suffix).toList = c :: (rest ++ suffix.toList) := by
      rw [String.toList_append, htext, List.cons_append]
    refine isName_of_toList happend hstart ?_
    intro d hd
    rcases List.mem_append.mp hd with hrest | hnew
    · apply h.chars
      rw [htext]
      exact List.mem_cons_of_mem c hrest
    · exact hsuffix d hnew

theorem isNameChar_hexDigit : ∀ number < 16, isNameChar (hexDigit number) = true := by decide

theorem isNameChar_of_mem_hex2 {number : Nat} :
    ∀ c ∈ (hex2 number).toList, isNameChar c = true := by
  intro c hc
  simp only [hex2, String.toList_ofList, List.mem_cons, List.not_mem_nil, or_false] at hc
  rcases hc with rfl | rfl <;> exact isNameChar_hexDigit _ (Nat.mod_lt _ (by decide))

theorem isNameChar_of_mem_hex4 {word : UInt16} : ∀ c ∈ (hex4 word).toList, isNameChar c = true := by
  intro c hc
  simp only [hex4, String.toList_ofList, List.mem_cons, List.not_mem_nil, or_false] at hc
  rcases hc with rfl | rfl | rfl | rfl <;> exact isNameChar_hexDigit _ (Nat.mod_lt _ (by decide))

/-! ### Sanitised texts -/

theorem trim_eq_nil_iff {text : List Char} : trim text = [] ↔ ∀ c ∈ text, isBlank c = true := by
  rw [trim, trimEnd, List.reverse_eq_nil_iff, List.dropWhile_eq_nil_iff]
  constructor
  · intro h
    -- What is left once the front is trimmed does not begin with a blank, so it cannot be made of
    -- blanks.
    have hstart : trimStart text = [] := by
      have hfirst := List.head?_dropWhile_not isBlank text
      rw [← trimStart] at hfirst
      cases hrest : trimStart text with
      | nil => rfl
      | cons c rest =>
        have hblank := h c (by simp [hrest])
        rw [hrest] at hfirst
        have hsolid : isBlank c = false := hfirst
        rw [hblank] at hsolid
        cases hsolid
    exact List.dropWhile_eq_nil_iff.mp hstart
  · intro h c hc
    have hstart : trimStart text = [] := List.dropWhile_eq_nil_iff.mpr h
    rw [hstart] at hc
    cases hc

theorem isNameStart_of_isNameChar {c : Char} (h : isNameChar c = true)
    (hdigit : c.isDigit = false) : isNameStart c = true := by
  have hcases : (c.isAlpha || c.isDigit || c == '_') = true := h
  rw [hdigit, Bool.or_false] at hcases
  exact hcases

theorem isName_sanitize {raw : String} (h : sanitize raw ≠ "") : IsName (sanitize raw) := by
  have hchars : ∀ c ∈ (trim raw.toList).map fun c => if isNameChar c then c
      else '_', isNameChar c = true := by
    intro c hc
    obtain ⟨d, -, rfl⟩ := List.mem_map.mp hc
    split
    · assumption
    · rfl
  rw [sanitize] at h ⊢
  generalize (trim raw.toList).map (fun c => if isNameChar c then c else '_') = chars at hchars h ⊢
  cases chars with
  | nil => exact absurd rfl h
  | cons c rest =>
    simp only
    split
    · exact isName_of_toList String.toList_ofList rfl hchars
    · rename_i hdigit
      obtain ⟨hc, hrest⟩ := List.forall_mem_cons.mp hchars
      exact isName_of_toList String.toList_ofList
        (isNameStart_of_isNameChar hc (Bool.eq_false_iff.mpr hdigit)) hrest

theorem sanitize_eq_empty_iff {raw : String} :
    sanitize raw = "" ↔ ∀ c ∈ raw.toList, isBlank c = true := by
  rw [← trim_eq_nil_iff, ← List.map_eq_nil_iff (f := fun c => if isNameChar c then c else '_'),
    sanitize]
  generalize (trim raw.toList).map (fun c => if isNameChar c then c else '_') = chars
  cases chars with
  | nil => simp
  | cons c rest =>
    simp only [reduceCtorEq, iff_false]
    intro h
    have htext := congrArg String.toList h
    rw [String.toList_ofList] at htext
    split at htext <;> cases htext

end Lift6502.Text
