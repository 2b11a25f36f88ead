import Lift6502.Text.Decimal
import Lift6502.Text.Lines
import Lift6502.Text.Name

/-!
# Printed texts

What is printed for a listing is made of solid characters with single spaces between them: nothing
in it looks like the end of a line or the start of a comment, and there is nothing to trim. Its
hexadecimal numbers spell the words that were printed.
-/

namespace Lift6502.Text

/-- A run of characters is cut off where it ends. -/
theorem cut_append {p : Char → Bool} {run rest : List Char} (hrun : ∀ c ∈ run, p c = true)
    (hrest : rest.head?.all (fun c => !p c) = true) :
    (run ++ rest).takeWhile p = run ∧ (run ++ rest).dropWhile p = rest := by
  rw [List.takeWhile_append_of_pos hrun, List.dropWhile_append_of_pos hrun]
  cases rest with
  | nil => exact ⟨List.append_nil run, rfl⟩
  | cons c tail =>
    have hc : p c = false := by simpa using hrest
    simp [hc]

/-! ### Solid characters -/

/-- Whether a character is neither blank nor the start of a comment. -/
def isSolid (c : Char) : Bool := !isBlank c && c != ';'

/-- All characters of names are ASCII, so what holds of those can be checked. -/
theorem of_isNameChar (P : Char → Prop) {c : Char} (h : isNameChar c = true)
    (hascii : ∀ n < 128, isNameChar (Char.ofNat n) = true → P (Char.ofNat n)) : P c := by
  have hsmall : c.toNat < 128 := by
    have hcases :
        (decide (c.val ≥ 'A'.val ∧ c.val ≤ 'Z'.val) || (c.val ≥ 'a'.val && c.val ≤ 'z'.val)
        || (c.val ≥ '0'.val && c.val ≤ '9'.val) || c == '_') = true := h
    simp only [Bool.or_eq_true, Bool.and_eq_true, decide_eq_true_eq, UInt32.le_iff_toNat_le,
      beq_iff_eq, ge_iff_le] at hcases
    rcases hcases with ((⟨_, hle⟩ | ⟨_, hle⟩) | ⟨_, hle⟩) | rfl
    · exact Nat.lt_of_le_of_lt hle (by decide)
    · exact Nat.lt_of_le_of_lt hle (by decide)
    · exact Nat.lt_of_le_of_lt hle (by decide)
    · decide
  rw [← Char.ofNat_toNat c] at h ⊢
  exact hascii c.toNat hsmall h

theorem isSolid_of_isNameChar {c : Char} (h : isNameChar c = true) : isSolid c = true :=
  of_isNameChar (fun c => isSolid c = true) h (by decide)

theorem isNameChar_of_isAlpha {c : Char} (h : c.isAlpha = true) : isNameChar c = true := by
  simp [isNameChar, Char.isAlphanum, h]

theorem isNameChar_of_isNameStart {c : Char} (h : isNameStart c = true) : isNameChar c = true := by
  rcases Bool.or_eq_true _ _ |>.mp h with halpha | hunderscore
  · exact isNameChar_of_isAlpha halpha
  · simp [isNameChar, hunderscore]

/-- What is taken off the front is made of the characters of names. -/
theorem of_takeName? {text name rest : List Char} (h : takeName? text = some (name, rest)) :
    name ++ rest = text ∧ name.head?.any isNameStart = true ∧ ∀ c ∈ name, isNameChar c = true := by
  cases text with
  | nil => cases h
  | cons c tail =>
    simp only [takeName?] at h
    split at h
    · rename_i hstart
      obtain ⟨rfl, rfl⟩ := Prod.mk.inj (Option.some.inj h)
      refine ⟨by rw [List.cons_append, List.takeWhile_append_dropWhile], hstart, ?_⟩
      exact List.forall_mem_cons.mpr ⟨isNameChar_of_isNameStart hstart,
        List.all_eq_true.mp List.all_takeWhile⟩
    · cases h

/-- A capital letter is its own capital. -/
theorem toUpper_of_isAlpha {c : Char} (h : c.isAlpha = true) :
    c.toUpper.isAlpha = true ∧ c.toUpper.toUpper = c.toUpper :=
  of_isNameChar
    (fun c => c.isAlpha = true → c.toUpper.isAlpha = true ∧ c.toUpper.toUpper = c.toUpper)
    (isNameChar_of_isAlpha h) (by decide) h

/-! ### Texts with solid ends -/

/-- Whether a text begins and ends with solid characters and no comment starts in it. -/
structure Framed (text : List Char) : Prop where
  first : text.head?.any isSolid = true
  last : text.getLast?.any isSolid = true
  plain : ∀ c ∈ text, (c != ';') = true

theorem framed_of_solid {text : List Char} (hne : text ≠ [])
    (hsolid : ∀ c ∈ text, isSolid c = true) : Framed text := by
  refine ⟨?_, ?_, fun c hc => (Bool.and_eq_true _ _ |>.mp (hsolid c hc)).2⟩
  · rw [List.head?_eq_some_head hne]
    exact hsolid _ (List.head_mem hne)
  · rw [List.getLast?_eq_some_getLast hne]
    exact hsolid _ (List.getLast_mem hne)

namespace Framed

variable {text other : List Char}

theorem ne_nil (h : Framed text) : text ≠ [] := by
  rintro rfl
  cases h.first

theorem first_append (h : Framed text) (rest : List Char) :
    (text ++ rest).head?.any isSolid = true := by
  rw [List.head?_append, List.head?_eq_some_head h.ne_nil, Option.some_or,
    ← List.head?_eq_some_head h.ne_nil]
  exact h.first

theorem last_append (h : Framed text) (lead : List Char) :
    (lead ++ text).getLast?.any isSolid = true := by
  rw [List.getLast?_append, List.getLast?_eq_some_getLast h.ne_nil, Option.some_or,
    ← List.getLast?_eq_some_getLast h.ne_nil]
  exact h.last

/-- What stands between two such texts may be blank, but is no comment. -/
theorem append (h : Framed text) {between : List Char} (hbetween : ∀ c ∈ between, (c != ';') = true)
    (hother : Framed other) : Framed (text ++ between ++ other) := by
  refine ⟨?_, hother.last_append _, ?_⟩
  · rw [List.append_assoc]
    exact h.first_append _
  · exact List.forall_mem_append.mpr ⟨List.forall_mem_append.mpr ⟨h.plain, hbetween⟩, hother.plain⟩

/-- All blanks around such a text are trimmed. -/
theorem trim_eq (h : Framed text) {lead trail : List Char} (hlead : ∀ c ∈ lead, isBlank c = true)
    (htrail : ∀ c ∈ trail, isBlank c = true) : trim (lead ++ text ++ trail) = text := by
  have hnoBlank {chars : List Char} (hfirst : chars.head?.any isSolid = true) :
      chars.head?.all (fun c => !isBlank c) = true := by
    cases chars with
    | nil => rfl
    | cons c rest => exact (Bool.and_eq_true _ _ |>.mp hfirst).1
  have hstart : trimStart (lead ++ (text ++ trail)) = text ++ trail :=
    (cut_append hlead (hnoBlank (h.first_append trail))).2
  have hlast : text.reverse.head?.any isSolid = true := by
    rw [List.head?_reverse]
    exact h.last
  have hend : (trail.reverse ++ text.reverse).dropWhile isBlank = text.reverse :=
    (cut_append (fun c hc => htrail c (List.mem_reverse.mp hc)) (hnoBlank hlast)).2
  rw [trim, List.append_assoc, hstart, trimEnd, List.reverse_append, hend, List.reverse_reverse]

end Framed

/-! ### Printed lines -/

/-- Whether a text is made of solid characters with spaces between them. -/
structure Printed (text : List Char) : Prop where
  first : text.head?.any isSolid = true
  last : text.getLast?.any isSolid = true
  solid : ∀ c ∈ text, c = ' ' ∨ isSolid c = true

theorem printed_of_solid {text : List Char} (hne : text ≠ []) (hsolid : text.all isSolid = true) :
    Printed text := by
  have hall := List.all_eq_true.mp hsolid
  have h := framed_of_solid hne hall
  exact ⟨h.first, h.last, fun c hc => Or.inr (hall c hc)⟩

namespace Printed

variable {text other : List Char}

theorem framed (h : Printed text) : Framed text := by
  refine ⟨h.first, h.last, fun c hc => ?_⟩
  rw [bne_iff_ne]
  rintro rfl
  have hsolid := h.solid ';' hc
  revert hsolid
  decide

theorem ne_nil (h : Printed text) : text ≠ [] := h.framed.ne_nil

/-- Two printed texts with a space between them. -/
theorem append_space (h : Printed text) (hother : Printed other) :
    Printed (text ++ ' ' :: other) := by
  refine ⟨h.framed.first_append _, ?_, ?_⟩
  · rw [List.append_cons]
    exact hother.framed.last_append _
  · intro c hc
    rcases List.mem_append.mp hc with hc | hc
    · exact h.solid c hc
    · rcases List.mem_cons.mp hc with rfl | hc
      · exact Or.inl rfl
      · exact hother.solid c hc

/-- There is nothing to trim. -/
theorem trim_eq (h : Printed text) : trim text = text := by
  have htrim := h.framed.trim_eq (List.forall_mem_nil _) (List.forall_mem_nil _)
  rwa [List.nil_append, List.append_nil] at htrim

theorem not_mem_newline (h : Printed text) : '\n' ∉ text := by
  intro hmem
  have hsolid := h.solid '\n' hmem
  revert hsolid
  decide

theorem stripReturn_eq (h : Printed text) : stripReturn text = text := by
  refine if_neg fun hlast => ?_
  have hsolid := h.last
  rw [hlast] at hsolid
  revert hsolid
  decide

end Printed

/-! ### Hexadecimal numbers -/

/-- Whether digits are a way to write a word in hexadecimal. -/
structure Spells (digits : List Char) (word : UInt16) : Prop where
  ne_nil : digits ≠ []
  isHexDigit : ∀ c ∈ digits, isHexDigit c = true
  isSolid : digits.all isSolid = true
  value : wordOfDigits? 16 digits = some word

theorem hexDigit_spells : ∀ number < 16,
    Text.isHexDigit (hexDigit number) = true ∧ Text.isSolid (hexDigit number) = true ∧
    digitValue (hexDigit number) = number := by
  decide

theorem spells_hex2 (number : Nat) (h : number < 256) :
    Spells (hex2 number).toList (UInt16.ofNat number) := by
  obtain ⟨hhigh, hhighSolid, hhighValue⟩ :=
    hexDigit_spells (number / 16 % 16) (Nat.mod_lt _ (by decide))
  obtain ⟨hlow, hlowSolid, hlowValue⟩ := hexDigit_spells (number % 16) (Nat.mod_lt _ (by decide))
  rw [hex2, String.toList_ofList]
  refine ⟨List.cons_ne_nil _ _, by simp [hhigh, hlow], by simp [hhighSolid, hlowSolid], ?_⟩
  have hnumber : numberOfDigits 16 [hexDigit (number / 16 % 16), hexDigit (number % 16)]
      = number := by
    simp only [numberOfDigits, List.foldl_cons, List.foldl_nil, hhighValue, hlowValue]
    omega
  simp only [wordOfDigits?, hnumber]
  exact if_pos (by omega)

theorem spells_hex4 (word : UInt16) : Spells (hex4 word).toList word := by
  have hbound := word.toNat_lt
  obtain ⟨h₁, hsolid₁, hvalue₁⟩ :=
    hexDigit_spells (word.toNat / 4096 % 16) (Nat.mod_lt _ (by decide))
  obtain ⟨h₂, hsolid₂, hvalue₂⟩ :=
    hexDigit_spells (word.toNat / 256 % 16) (Nat.mod_lt _ (by decide))
  obtain ⟨h₃, hsolid₃, hvalue₃⟩ := hexDigit_spells (word.toNat / 16 % 16) (Nat.mod_lt _ (by decide))
  obtain ⟨h₄, hsolid₄, hvalue₄⟩ := hexDigit_spells (word.toNat % 16) (Nat.mod_lt _ (by decide))
  rw [hex4, String.toList_ofList]
  refine ⟨List.cons_ne_nil _
    _, by simp [h₁, h₂, h₃, h₄], by simp [hsolid₁, hsolid₂, hsolid₃, hsolid₄], ?_⟩
  have hnumber :
      numberOfDigits 16 [hexDigit (word.toNat / 4096 % 16), hexDigit (word.toNat / 256 % 16),
        hexDigit (word.toNat / 16 % 16), hexDigit (word.toNat % 16)] = word.toNat := by
    simp only [numberOfDigits, List.foldl_cons, List.foldl_nil, hvalue₁, hvalue₂, hvalue₃, hvalue₄]
    omega
  simp only [wordOfDigits?, hnumber, UInt16.ofNat_toNat]
  exact if_pos hbound

theorem spells_hexShort (word : UInt16) : Spells (hexShort word).toList word := by
  rw [hexShort]
  split
  · rename_i hle
    have hspells := spells_hex2 word.toNat (Nat.lt_succ_of_le (UInt16.le_iff_toNat_le.mp hle))
    rwa [UInt16.ofNat_toNat] at hspells
  · exact spells_hex4 word

theorem numberOfDigits_decimalDigits (number : Nat) :
    numberOfDigits 10 (decimalDigits number) = number := by
  fun_induction decimalDigits number with
  | case1 number hsmall =>
    rw [numberOfDigits, List.foldl_cons, List.foldl_nil, (hexDigit_spells number (by omega)).2.2]
    omega
  | case2 number hlarge ih =>
    rw [numberOfDigits] at ih
    rw [numberOfDigits, List.foldl_append, ih, List.foldl_cons, List.foldl_nil,
      (hexDigit_spells (number % 10) (by omega)).2.2]
    omega

/-- A number can be told from its decimal text. -/
theorem decimal_injective {left right : Nat} (h : decimal left = decimal right) : left = right := by
  have hdigits : decimalDigits left = decimalDigits right := String.ofList_injective h
  rw [← numberOfDigits_decimalDigits left, hdigits, numberOfDigits_decimalDigits]

/-! ### Lines -/

theorem map_stripReturn_eq {texts : List (List Char)} (h : ∀ text ∈ texts, Printed text) :
    texts.map stripReturn = texts :=
  (List.map_congr_left fun text htext => (h text htext).stripReturn_eq).trans (List.map_id texts)

/-- Printed texts that each end with a line feed are the lines of the whole. -/
theorem lines_of_ended {texts : List (List Char)} (h : ∀ text ∈ texts, Printed text) :
    lines (texts.flatMap (· ++ ['\n'])) = texts := by
  have hsplit : (texts.flatMap (· ++ ['\n'])).splitOn '\n' = texts ++ [[]] := by
    induction texts with
    | nil => rfl
    | cons text rest ih =>
      obtain ⟨htext, hrest⟩ := List.forall_mem_cons.mp h
      rw [List.flatMap_cons, List.append_assoc, List.singleton_append,
        List.splitOn_append_cons_self_of_not_mem htext.not_mem_newline, ih hrest, List.cons_append]
  simp only [lines, hsplit, List.dropLast_concat, List.getLast?_append, List.getLast?_singleton,
    Option.some_or]
  exact map_stripReturn_eq h

/-- Printed texts with line feeds between them are the lines of the whole. -/
theorem lines_of_separated {texts : List (List Char)} (h : ∀ text ∈ texts, Printed text) :
    lines (['\n'].intercalate texts) = texts := by
  cases texts with
  | nil => rfl
  | cons text rest =>
    have hsplit := List.splitOn_intercalate '\n' (fun text htext => (h text htext).not_mem_newline)
      (List.cons_ne_nil text rest)
    -- No line feed ends the last line, which is kept because it is not empty.
    have hlast := (h _ (List.getLast_mem (List.cons_ne_nil text rest))).ne_nil
    obtain ⟨c, tail, hcons⟩ := List.exists_cons_of_ne_nil hlast
    have hstrip := map_stripReturn_eq fun text htext => h text (List.dropLast_subset _ htext)
    simp only [lines, hsplit, List.getLast?_eq_some_getLast (List.cons_ne_nil text rest),
      hcons, hstrip]
    rw [← hcons]
    exact List.dropLast_concat_getLast (List.cons_ne_nil text rest)

end Lift6502.Text
