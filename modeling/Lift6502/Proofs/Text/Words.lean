import Lift6502.Proofs.Text.Decimals
import Lift6502.Proofs.Text.Identifiers
import Lift6502.Tree.Reference
import Mathlib.Data.List.SplitBy

/-!
# Words of a text

A word is a run of characters that names may hold, and any other character is a word of its own.
Where a word of a text is replaced, longer words that contain it are left alone, and what stands
between the words of an operand text stays as it is.
-/

namespace Lift6502.Text

/-- The words of a text and the characters between them, in order. -/
def words (text : List Char) : List (List Char) :=
  text.splitBy fun c d => isNameChar c && isNameChar d

/-- Whether a word stands in a text. -/
def Mentions (word text : String) : Prop := word.toList ∈ words text.toList

instance (word text : String) : Decidable (Mentions word text) :=
  inferInstanceAs (Decidable (_ ∈ _))

/-- Characters with another word in every place of a given one. -/
def replaceIn (old new : String) (text : List Char) : List Char :=
  (words text).flatMap fun word => if word = old.toList then new.toList else word

/-- A text with another word in every place of a given one. -/
def replaceWord (old new text : String) : String := String.ofList (replaceIn old new text.toList)

/-! ### Cutting a text into words -/

theorem words_cons {c : Char} (hc : isNameChar c = false) (rest : List Char) :
    words (c :: rest) = [c] :: words rest := by
  have hcut : words ([c] ++ rest) = words [c] ++ words rest := List.splitBy_append (by simp [hc])
  have hsingle : words [c] = [[c]] :=
    List.splitBy_of_isChain (List.cons_ne_nil c []) (List.IsChain.singleton c)
  rw [← List.singleton_append, hcut, hsingle, List.singleton_append]

theorem words_append_cons (front : List Char) {c : Char} (hc : isNameChar c = false)
    (rest : List Char) : words (front ++ c :: rest) = words front ++ [c] :: words rest := by
  rw [← words_cons hc]
  exact List.splitBy_append_cons rest (by simp [hc])

/-- A text of characters that names may hold is one word. -/
theorem words_eq_singleton {text : List Char} (hne : text ≠ [])
    (hchars : ∀ c ∈ text, isNameChar c = true) : words text = [text] := by
  refine List.splitBy_of_isChain hne (List.Pairwise.isChain (List.pairwise_of_forall_mem_list ?_))
  intro c hc d hd
  rw [hchars c hc, hchars d hd]
  rfl

/-! ### Operand texts -/

theorem toList_memoryText (base index : String) :
    (Reference.memoryText base index).toList
      = '[' :: (base.toList ++ ' ' :: '+' :: ' ' :: (index.toList ++ [']'])) := by
  simp [Reference.memoryText]

theorem toList_pointerText (base index : String) :
    (Reference.pointerText base index).toList
      = '[' :: '(' :: (base.toList ++ ')' :: ' ' :: '+' :: ' ' :: (index.toList ++ [']'])) := by
  simp [Reference.pointerText]

theorem mem_words_before {word part : List Char} {c : Char} (hc : isNameChar c = false)
    (rest : List Char) (h : word ∈ words part) : word ∈ words (part ++ c :: rest) := by
  rw [words_append_cons part hc]
  exact List.mem_append_left _ h

theorem mem_words_behind {word part : List Char} {c : Char} (front : List Char)
    (hc : isNameChar c = false) (h : word ∈ words part) : word ∈ words (front ++ c :: part) := by
  rw [words_append_cons front hc]
  exact List.mem_append_right _ (List.mem_cons_of_mem _ h)

theorem mentions_memoryText {word index : String} (base : String) (h : Mentions word index) :
    Mentions word (Reference.memoryText base index) := by
  rw [Mentions, toList_memoryText]
  exact mem_words_behind [] rfl
    (mem_words_behind _ rfl (mem_words_behind [] rfl (mem_words_behind [] rfl
    (mem_words_before rfl [] h))))

theorem mentions_pointerText {word base : String} (index : String) (h : Mentions word base) :
    Mentions word (Reference.pointerText base index) := by
  rw [Mentions, toList_pointerText]
  exact mem_words_behind [] rfl (mem_words_behind [] rfl (mem_words_before rfl _ h))

theorem mentions_sum {word right : String} (left : String) (h : Mentions word right) :
    Mentions word (left ++ " + " ++ right) := by
  have htext : (left ++ " + " ++ right).toList
      = left.toList ++ ' ' :: ([] ++ '+' :: ([] ++ ' ' :: right.toList)) := by simp
  rw [Mentions, htext]
  exact mem_words_behind _ rfl (mem_words_behind _ rfl (mem_words_behind _ rfl h))

theorem mentions_product {word left : String} (right : String) (h : Mentions word left) :
    Mentions word (left ++ " * " ++ right) := by
  have htext :
      (left ++ " * " ++ right).toList = left.toList ++ ' ' :: '*' :: ' ' :: right.toList := by simp
  rw [Mentions, htext]
  exact mem_words_before rfl _ h

/-! ### Characters of names and numbers -/

theorem IsName.dot_not_mem {name : String} (h : IsName name) : '.' ∉ name.toList :=
  fun hdot => absurd (h.chars '.' hdot) (by decide)

theorem isNameChar_of_mem_decimal {number : Nat} :
    ∀ c ∈ (decimal number).toList, isNameChar c = true := by
  intro c hc
  rw [decimal, String.toList_ofList] at hc
  change (c.isAlpha || c.isDigit || c == '_') = true
  rw [isDigit_of_mem_decimalDigits c hc, Bool.or_true, Bool.true_or]

/-! ### Replacing a word -/

theorem IsName.toList_ne_nil {name : String} (h : IsName name) : name.toList ≠ [] := by
  intro hnil
  have hstart := h.start
  rw [hnil] at hstart
  cases hstart

theorem not_isNameStart_of_isDigit {c : Char} (h : c.isDigit = true) : isNameStart c = false := by
  rw [← Bool.not_eq_true]
  intro hstart
  have hother := of_isNameChar (fun c => isNameStart c = true → ¬ c.isDigit = true)
    (isNameChar_of_isNameStart hstart) (by decide)
  exact hother hstart h

theorem not_isName_decimal (number : Nat) : ¬ IsName (decimal number) := by
  intro h
  have hstart := h.start
  obtain ⟨c, rest, hdigits, hdigit⟩ := exists_decimalDigits number
  rw [decimal, String.toList_ofList, hdigits, List.head?_cons, Option.any_some,
    not_isNameStart_of_isDigit hdigit] at hstart
  cases hstart

/-- A name is not a number. -/
theorem IsName.readInt?_eq_none {name : String} (h : IsName name) : readInt? name = none := by
  have hstart := h.start
  simp only [readInt?]
  split
  · rename_i htext
    rw [htext] at hstart
    cases hstart
  · rename_i htext
    rw [htext] at hstart
    cases hstart
  · have hvalue : digitsValue? name.toList = none := by
      cases htext : name.toList with
      | nil => rfl
      | cons c rest =>
        rw [htext] at hstart
        have hdigit : c.isDigit = false := by
          rw [← Bool.not_eq_true]
          intro hdigit
          rw [List.head?_cons, Option.any_some, not_isNameStart_of_isDigit hdigit] at hstart
          cases hstart
        simp [digitsValue?, hdigit]
    rw [hvalue]
    rfl

theorem IsName.words_eq {name : String} (h : IsName name) : words name.toList = [name.toList] :=
  words_eq_singleton h.toList_ne_nil h.chars

theorem IsName.mentions_self {name : String} (h : IsName name) : Mentions name name := by
  rw [Mentions, h.words_eq]
  exact List.mem_singleton_self _

theorem IsName.not_mentions {name word : String} (h : IsName name) (hother : name ≠ word) :
    ¬ Mentions word name := by
  rw [Mentions, h.words_eq, List.mem_singleton, String.toList_inj]
  exact Ne.symm hother

theorem mem_of_mentions {word text : String} (h : Mentions word text) :
    ∀ c ∈ word.toList, c ∈ text.toList := by
  intro c hc
  have hflatten : (words text.toList).flatten = text.toList := List.flatten_splitBy _ _
  rw [← hflatten]
  exact List.mem_flatten.mpr ⟨word.toList, h, hc⟩

theorem replaceWord_of_not_mentions {old text : String} (new : String) (h : ¬ Mentions old text) :
    replaceWord old new text = text := by
  have hwords : replaceIn old new text.toList = (words text.toList).flatMap id := by
    apply List.flatMap_congr
    intro word hword
    refine if_neg fun hsame => h ?_
    rwa [Mentions, ← hsame]
  rw [replaceWord, hwords, List.flatMap_id, words, List.flatten_splitBy, String.ofList_toList]

theorem replaceWord_self {name : String} (h : IsName name) (new : String) :
    replaceWord name new name = new := by
  simp [replaceWord, replaceIn, h.words_eq]

section Replacing

variable {old : String} (hold : IsName old) (new : String)
include hold

theorem replaceIn_append_cons (front : List Char) {c : Char} (hc : isNameChar c = false)
    (rest : List Char) :
    replaceIn old new (front ++ c :: rest)
      = replaceIn old new front ++ c :: replaceIn old new rest := by
  have hother : [c] ≠ old.toList := by
    intro hsame
    have hchar := hold.chars c (hsame ▸ List.mem_singleton_self c)
    rw [hc] at hchar
    cases hchar
  rw [replaceIn, words_append_cons front hc, List.flatMap_append, List.flatMap_cons, if_neg hother]
  rfl

theorem replaceIn_cons {c : Char} (hc : isNameChar c = false) (rest : List Char) :
    replaceIn old new (c :: rest) = c :: replaceIn old new rest :=
  replaceIn_append_cons hold new [] hc rest

theorem replaceWord_memoryText (base index : String) :
    replaceWord old new (Reference.memoryText base index)
      = Reference.memoryText (replaceWord old new base) (replaceWord old new index) := by
  rw [← String.toList_inj, toList_memoryText, replaceWord, toList_memoryText,
    replaceIn_cons hold new rfl, replaceIn_append_cons hold new _ rfl, replaceIn_cons hold new rfl,
    replaceIn_cons hold new rfl, replaceIn_append_cons hold new _ rfl]
  simp [replaceWord, replaceIn, words]

theorem replaceWord_pointerText (base index : String) :
    replaceWord old new (Reference.pointerText base index)
      = Reference.pointerText (replaceWord old new base) (replaceWord old new index) := by
  rw [← String.toList_inj, toList_pointerText, replaceWord, toList_pointerText,
    replaceIn_cons hold new rfl, replaceIn_cons hold new rfl, replaceIn_append_cons hold new _ rfl,
    replaceIn_cons hold new rfl, replaceIn_cons hold new rfl, replaceIn_cons hold new rfl,
    replaceIn_append_cons hold new _ rfl]
  simp [replaceWord, replaceIn, words]

theorem replaceWord_sum (left right : String) :
    replaceWord old new (left ++ " + " ++ right)
      = replaceWord old new left ++ " + " ++ replaceWord old new right := by
  have htext :
      (left ++ " + " ++ right).toList = left.toList ++ ' ' :: '+' :: ' ' :: right.toList := by simp
  rw [← String.toList_inj, replaceWord, htext, replaceIn_append_cons hold new _ rfl,
    replaceIn_cons hold new rfl, replaceIn_cons hold new rfl]
  simp [replaceWord]

theorem replaceWord_product (left right : String) :
    replaceWord old new (left ++ " * " ++ right)
      = replaceWord old new left ++ " * " ++ replaceWord old new right := by
  have htext :
      (left ++ " * " ++ right).toList = left.toList ++ ' ' :: '*' :: ' ' :: right.toList := by simp
  rw [← String.toList_inj, replaceWord, htext, replaceIn_append_cons hold new _ rfl,
    replaceIn_cons hold new rfl, replaceIn_cons hold new rfl]
  simp [replaceWord]

end Replacing

end Lift6502.Text
