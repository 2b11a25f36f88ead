import Mathlib.Data.List.Lex
import Mathlib.Data.String.Basic

/-!
# The order of texts and of their bytes

Texts are ordered by their characters, and a character by its code point. The encoding keeps that
order: of two different characters the smaller one has the smaller byte where their encodings first
differ, and no encoding is the beginning of another. So texts compare like the bytes that encode
them.
-/

namespace Lift6502.Text

/-- The bytes that encode a text. -/
def bytes (text : String) : List UInt8 := text.toUTF8.data.toList

theorem bytes_eq_flatMap (text : String) :
    bytes text = text.toList.flatMap String.utf8EncodeChar := by
  rw [bytes, ← String.ofList_toList (s := text), String.toUTF8, String.toByteArray_ofList,
    List.utf8Encode, List.toList_data_toByteArray, String.toList_ofList]

theorem toNat_ofNat_byte {number : Nat} (h : number < 256) : (UInt8.ofNat number).toNat = number :=
  UInt8.toNat_ofNat_of_lt' h

/-- The digit in base 64 in which two numbers first differ is smaller in the smaller number. -/
theorem lt_of_digits {smaller greater : Nat} (h : smaller < greater) :
    smaller / 262144 < greater / 262144 ∨ smaller / 262144 = greater / 262144 ∧
      (smaller / 4096 % 64 < greater / 4096 % 64 ∨ smaller / 4096 % 64 = greater / 4096 % 64 ∧
        (smaller / 64 % 64 < greater / 64 % 64 ∨ smaller / 64 % 64 = greater / 64 % 64 ∧
          smaller % 64 < greater % 64)) := by
  have hstep {smaller greater : Nat} (h : smaller < greater) :
      smaller / 64 < greater / 64 ∨ smaller / 64 = greater / 64 ∧ smaller % 64 < greater % 64 := by
    omega
  have hdigits (number : Nat) : number / 64 / 64 = number / 4096 ∧
      number / 4096 / 64 = number / 262144 :=
    ⟨Nat.div_div_eq_div_mul number 64 64, Nat.div_div_eq_div_mul number 4096 64⟩
  rw [← (hdigits smaller).2, ← (hdigits greater).2, ← (hdigits smaller).1, ← (hdigits greater).1]
  rcases hstep h with h | ⟨heq, h⟩
  · rcases hstep h with h | ⟨heq, h⟩
    · rcases hstep h with h | ⟨heq, h⟩
      · exact Or.inl h
      · exact Or.inr ⟨heq, Or.inl h⟩
    · exact Or.inr ⟨by rw [heq], Or.inr ⟨by rw [heq], Or.inl h⟩⟩
  · exact Or.inr ⟨by rw [heq], Or.inr ⟨by rw [heq], Or.inr ⟨by rw [heq], h⟩⟩⟩

/-- The bytes of a smaller character come first, whatever follows the two. -/
theorem utf8EncodeChar_append_lt {c d : Char} (h : c < d) (front back : List UInt8) :
    String.utf8EncodeChar c ++ front < String.utf8EncodeChar d ++ back := by
  have hlt : c.val.toNat < d.val.toNat := h
  have hbound : d.val.toNat < 0x110000 := by
    rcases d.valid with hlow | hhigh
    · exact Nat.lt_trans hlow (by decide)
    · exact hhigh.2
  simp only [String.utf8EncodeChar]
  generalize c.val.toNat = smaller at *
  generalize d.val.toNat = greater at *
  by_cases hlong : smaller ≤ 65535
  · -- The first byte tells shorter encodings from longer ones.
    split_ifs <;>
      simp (disch := omega) only [List.cons_append, List.nil_append, List.cons_lt_cons_iff,
        UInt8.lt_iff_toNat_lt, ← UInt8.toNat_inj, toNat_ofNat_byte] <;>
      omega
  · have hdigits := lt_of_digits hlt
    have hfirst {number : Nat} (h : number < 0x110000) : number / 262144 % 8 = number / 262144 := by
      omega
    rw [if_neg (by omega), if_neg (by omega), if_neg hlong, if_neg (by omega), if_neg (by omega),
      if_neg (by omega), hfirst (by omega), hfirst hbound]
    simp (disch := omega) only [List.cons_append, List.nil_append, List.cons_lt_cons_iff,
      UInt8.lt_iff_toNat_lt, ← UInt8.toNat_inj, toNat_ofNat_byte, Nat.add_lt_add_iff_right,
      Nat.add_right_cancel_iff]
    exact hdigits.imp_right
      (And.imp_right (Or.imp_right (And.imp_right (Or.imp_right (And.imp_right Or.inl)))))

theorem flatMap_utf8EncodeChar_lt {front back : List Char} (h : front < back) :
    front.flatMap String.utf8EncodeChar < back.flatMap String.utf8EncodeChar := by
  induction front generalizing back with
  | nil =>
    cases back with
    | nil => exact absurd h (List.lt_irrefl [])
    | cons d back =>
      obtain ⟨byte, rest, hbytes⟩ :=
        List.exists_cons_of_ne_nil (String.utf8EncodeChar_ne_nil (c := d))
      rw [List.flatMap_nil, List.flatMap_cons, hbytes]
      exact List.nil_lt_cons _ _
  | cons c front ih =>
    cases back with
    | nil => cases h
    | cons d back =>
      rw [List.flatMap_cons, List.flatMap_cons]
      rcases List.cons_lt_cons_iff.mp h with hfirst | ⟨rfl, hrest⟩
      · exact utf8EncodeChar_append_lt hfirst _ _
      · exact List.append_left_lt (ih hrest)

/-- Texts are in the order of their bytes. -/
theorem lt_iff_bytes_lt {left right : String} : left < right ↔ bytes left < bytes right := by
  have hforward {left right : String} (h : left < right) : bytes left < bytes right := by
    rw [bytes_eq_flatMap, bytes_eq_flatMap]
    exact flatMap_utf8EncodeChar_lt (String.lt_iff_toList_lt.mp h)
  refine ⟨hforward, fun h => ?_⟩
  rcases lt_trichotomy left right with hless | rfl | hgreater
  · exact hless
  · exact absurd h (List.lt_irrefl _)
  · exact absurd (hforward hgreater) (List.lt_asymm h)

end Lift6502.Text
