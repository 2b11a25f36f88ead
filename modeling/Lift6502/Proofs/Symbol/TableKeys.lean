import Lift6502.Proofs.Listing.Spelled
import Lift6502.Symbol.TableFile

/-!
# The keys of a table

Every way to write an address as a key of a table, as data: which mark it has, whether a plus sign
stands in front of its digits, and what is left blank around them. A key is taken for an address
exactly if it is written in one of these ways.
-/

namespace Lift6502

namespace Text

/-- Trimming takes blanks off both ends and nothing else. -/
theorem exists_blanks_around (text : List Char) :
    ∃ lead trail, text = lead ++ trim text ++ trail ∧ (∀ c ∈ lead, isBlank c = true) ∧
      ∀ c ∈ trail, isBlank c = true := by
  refine ⟨text.takeWhile isBlank, ((trimStart text).reverse.takeWhile isBlank).reverse, ?_,
    List.all_eq_true.mp List.all_takeWhile, fun c hc => List.all_eq_true.mp List.all_takeWhile c
      (List.mem_reverse.mp hc)⟩
  have hend : trim text ++ ((trimStart text).reverse.takeWhile isBlank).reverse
      = trimStart text := by
    rw [trim, trimEnd, ← List.reverse_append, List.takeWhile_append_dropWhile, List.reverse_reverse]
  rw [List.append_assoc, hend, trimStart, List.takeWhile_append_dropWhile]

end Text

namespace Grammar

/-! ### Forms of keys -/

/-- How the number in a key is marked. -/
inductive KeyStyle where
  | numberSign | dollar | lowerHex | upperHex | bare
  deriving DecidableEq

namespace KeyStyle

def mark : KeyStyle → List Char
  | numberSign => ['#']
  | dollar => ['$']
  | lowerHex => ['0', 'x']
  | upperHex => ['0', 'X']
  | bare => []

def base : KeyStyle → Nat
  | numberSign => 10
  | _ => 16

def isDigit : KeyStyle → Char → Bool
  | numberSign => Char.isDigit
  | _ => Text.isHexDigit

end KeyStyle

/-- A plus sign or nothing. -/
def signText (plus : Bool) : List Char := if plus then ['+'] else []

/-- A key that spells a number below 65536, with any number of leading zeros. -/
structure KeyForm where
  before : Blanks
  style : KeyStyle
  plus : Bool
  digits : List Char
  nonempty : digits ≠ []
  isDigit : ∀ c ∈ digits, style.isDigit c = true
  bound : worth style.base digits < 65536
  after : Blanks

namespace KeyForm

/-- The key without the blanks around it. -/
def core (form : KeyForm) : List Char := form.style.mark ++ (signText form.plus ++ form.digits)

def text (form : KeyForm) : List Char := form.before.val ++ form.core ++ form.after.val

def address (form : KeyForm) : Address := UInt16.ofNat (worth form.style.base form.digits)

end KeyForm

/-! ### Numbers with a sign -/

/-- What is read as a number is a run of digits, perhaps behind a plus sign. -/
theorem plainWord?_eq_some_iff {base : Nat} {isDigit : Char → Bool}
    (hdigit : ∀ c, isDigit c = true → Text.isHexDigit c = true) {text : List Char} {word : UInt16} :
    Text.plainWord? base isDigit text = some word ↔
      ∃ plus digits, text = signText plus ++ digits ∧ digits ≠ [] ∧
      (∀ c ∈ digits, isDigit c = true) ∧
        worth base digits < 65536 ∧ word = UInt16.ofNat (worth base digits) := by
  have hdigits (digits : List Char) :
      (if (digits ≠ [] && digits.all isDigit) = true then Text.wordOfDigits? base digits else none)
        = some word ↔
        digits ≠ [] ∧ (∀ c ∈ digits, isDigit c = true) ∧ worth base digits < 65536 ∧
        word = UInt16.ofNat (worth base digits) := by
    rw [Option.ite_none_right_eq_some, Bool.and_eq_true, decide_eq_true_eq, List.all_eq_true,
      and_assoc]
    refine and_congr_right fun _ => and_congr_right fun hall => ?_
    rw [Text.wordOfDigits?, numberOfDigits_eq_worth base fun c hc => hdigit c (hall c hc)]
    rw [Option.ite_none_right_eq_some, Option.some.injEq, eq_comm (a := word)]
  constructor
  · intro h
    unfold Text.plainWord? at h
    split at h
    · exact ⟨true, _, rfl, (hdigits _).mp h⟩
    · exact ⟨false, _, rfl, (hdigits _).mp h⟩
  · rintro ⟨plus, digits, rfl, hword⟩
    cases plus with
    | true => exact (hdigits digits).mpr hword
    | false =>
      change Text.plainWord? base isDigit digits = some word
      unfold Text.plainWord?
      split
      · -- No digit is a plus sign.
        exact absurd (hdigit '+' (hword.2.1 '+' List.mem_cons_self)) (by decide)
      · exact (hdigits digits).mpr hword

/-! ### Reading a key -/

namespace KeyStyle

theorem isHexDigit_of_isDigit {style : KeyStyle} {c : Char} (h : style.isDigit c = true) :
    Text.isHexDigit c = true := by
  cases style with
  | numberSign =>
    have hplain : Style.plain.isDigit c = true := h
    exact Style.isHexDigit_of_isDigit hplain
  | _ => exact h

theorem isSolid_of_mem_mark {style : KeyStyle} : ∀ c ∈ style.mark, Text.isSolid c = true := by
  cases style <;> exact List.all_eq_true.mp (by decide)

end KeyStyle

/-- Whether a character can stand behind the mark of a key. -/
def isKeyDigit (c : Char) : Bool := c == '+' || Text.isHexDigit c

theorem isSolid_of_isKeyDigit {c : Char} (h : isKeyDigit c = true) : Text.isSolid c = true := by
  rcases Bool.or_eq_true _ _ |>.mp h with hplus | hdigit
  · rw [eq_of_beq hplus]
    decide
  · exact Text.isSolid_of_isNameChar (Text.isNameChar_of_isHexDigit hdigit)

namespace KeyForm

theorem isKeyDigit_of_mem (form : KeyForm) :
    ∀ c ∈ signText form.plus ++ form.digits, isKeyDigit c = true := by
  refine List.forall_mem_append.mpr ⟨?_, fun c hc => ?_⟩
  · cases form.plus <;> exact List.all_eq_true.mp (by decide)
  · rw [isKeyDigit, KeyStyle.isHexDigit_of_isDigit (form.isDigit c hc), Bool.or_true]

theorem framed_core (form : KeyForm) : Text.Framed form.core := by
  refine Text.framed_of_solid ?_
    (List.forall_mem_append.mpr ⟨KeyStyle.isSolid_of_mem_mark, fun c hc => ?_⟩)
  · exact List.append_ne_nil_of_right_ne_nil _ (List.append_ne_nil_of_right_ne_nil _ form.nonempty)
  · exact isSolid_of_isKeyDigit (form.isKeyDigit_of_mem c hc)

theorem trim_text (form : KeyForm) : Text.trim form.text = form.core :=
  form.framed_core.trim_eq form.before.property form.after.property

end KeyForm

end Grammar

/-! ### Reading a key -/

namespace EntryTable

open Grammar

/-- Every key has one of the marks, if only the empty one, and what follows the mark is read as a
number. -/
theorem exists_style (key : String) :
    ∃ style : KeyStyle, ∃ rest, Text.trim key.toList = style.mark ++ rest ∧
      address? key = Text.plainWord? style.base style.isDigit rest := by
  unfold address?
  generalize Text.trim key.toList = text
  split
  · exact ⟨.numberSign, _, rfl, rfl⟩
  · unfold hexDigits
    split
    · exact ⟨.dollar, _, rfl, rfl⟩
    · exact ⟨.lowerHex, _, rfl, rfl⟩
    · exact ⟨.upperHex, _, rfl, rfl⟩
    · exact ⟨.bare, _, rfl, rfl⟩

/-- A mark is found, for none of them is made of digits. -/
theorem address?_of_trim {key : String} {style : KeyStyle} {rest : List Char}
    (hrest : ∀ c ∈ rest, isKeyDigit c = true) (htrim : Text.trim key.toList = style.mark ++ rest) :
    address? key = Text.plainWord? style.base style.isDigit rest := by
  rw [address?, htrim]
  cases style with
  | numberSign => rfl
  | dollar => rfl
  | lowerHex => rfl
  | upperHex => rfl
  | bare =>
    have hno {c : Char} (hc : isKeyDigit c = false) {rest : List Char}
        (hall : ∀ c ∈ rest, isKeyDigit c = true) : c ∉ rest :=
      fun hmem => Bool.eq_false_iff.mp hc (hall c hmem)
    have hhex : hexDigits rest = rest := by
      unfold hexDigits
      split
      · exact absurd List.mem_cons_self (hno (by decide) hrest)
      · exact absurd (List.mem_cons_of_mem _ List.mem_cons_self) (hno (by decide) hrest)
      · exact absurd (List.mem_cons_of_mem _ List.mem_cons_self) (hno (by decide) hrest)
      · rfl
    rw [KeyStyle.mark, List.nil_append]
    split
    · exact absurd List.mem_cons_self (hno (by decide) hrest)
    · rw [hhex]
      rfl

/-- A key is an address exactly if it is written in one of the forms of keys. -/
theorem address?_eq_some_iff {key : String} {address : Address} :
    address? key = some address ↔ ∃ form : KeyForm, form.text = key.toList ∧
      form.address = address := by
  constructor
  · intro h
    obtain ⟨style, rest, htrim, hread⟩ := exists_style key
    obtain ⟨lead, trail, htext, hlead, htrail⟩ := Text.exists_blanks_around key.toList
    rw [hread] at h
    obtain ⟨plus, digits, rfl, hne, hdigits, hbound, haddress⟩ :=
      (plainWord?_eq_some_iff fun c => KeyStyle.isHexDigit_of_isDigit).mp h
    refine ⟨⟨⟨lead, hlead⟩, style, plus, digits, hne, hdigits, hbound, ⟨trail, htrail⟩⟩, ?_,
      haddress.symm⟩
    rw [htext, htrim]
    rfl
  · rintro ⟨form, htext, rfl⟩
    have htrim : Text.trim key.toList = form.style.mark ++ (signText form.plus ++ form.digits) := by
      rw [← htext]
      exact form.trim_text
    rw [address?_of_trim form.isKeyDigit_of_mem htrim]
    exact (plainWord?_eq_some_iff fun c => KeyStyle.isHexDigit_of_isDigit).mpr
      ⟨form.plus, form.digits, rfl, form.nonempty, form.isDigit, form.bound, rfl⟩

end EntryTable

end Lift6502
