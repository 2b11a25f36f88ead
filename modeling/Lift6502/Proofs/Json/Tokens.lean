import Lift6502.Json.Printer
import Lift6502.Json.Token
import Lift6502.Proofs.Text.Decimals

/-!
# Tokens of printed values

What is printed for a value is cut into the tokens of the value again: an escaped string ends at its
closing quote, a number ends where something follows that cannot stand in it, and the blanks that
lay out the lines disappear. The range of numbers apart, this holds of every value.
-/

namespace Lift6502.Json

/-! ### The tokens of a value -/

/-- Lists of tokens with a comma between every two of them. -/
def separated : List (List Token) → List Token
  | [] => []
  | first :: others => first ++ others.flatMap (.comma :: ·)

mutual

/-- The tokens that spell a value. -/
def tokens : Json → List Token
  | .null => [.scalar .null]
  | .bool value => [.scalar (.bool value)]
  | .number mantissa exponent => [.scalar (.number mantissa exponent)]
  | .string text => [.scalar (.string text)]
  | .array elements => .openArray :: separated (elementTokens elements) ++ [.closeArray]
  | .object members => .openObject :: separated (memberTokens members) ++ [.closeObject]

def elementTokens : List Json → List (List Token)
  | [] => []
  | element :: elements => element.tokens :: elementTokens elements

def memberTokens : List (String × Json) → List (List Token)
  | [] => []
  | (name, value) :: members =>
    (.scalar (.string name) :: .colon :: value.tokens) :: memberTokens members

end

theorem elementTokens_eq_map (elements : List Json) :
    elementTokens elements = elements.map tokens := by
  induction elements with
  | nil => rw [elementTokens, List.map_nil]
  | cons element elements ih => rw [elementTokens, ih, List.map_cons]

theorem memberTokens_eq_map (members : List (String × Json)) :
    memberTokens members = members.map fun member =>
      .scalar (.string member.1) :: .colon :: member.2.tokens := by
  induction members with
  | nil => rw [memberTokens, List.map_nil]
  | cons member members ih => rw [memberTokens, ih, List.map_cons]

theorem printElements_eq_map (depth : Nat) (elements : List Json) :
    printElements depth elements = elements.map (printAt depth) := by
  induction elements with
  | nil => rw [printElements, List.map_nil]
  | cons element elements ih => rw [printElements, ih, List.map_cons]

theorem printMembers_eq_map (depth : Nat) (members : List (String × Json)) :
    printMembers depth members = members.map fun member =>
      quote member.1 ++ ": " ++ printAt depth member.2 := by
  induction members with
  | nil => rw [printMembers, List.map_nil]
  | cons member members ih => rw [printMembers, ih, List.map_cons]

/-! ### Cutting -/

/-- Whether a text is cut into tokens, with any bound that its length allows. -/
def Cuts (text : List Char) (tokens : List Token) : Prop :=
  ∀ bound, text.length ≤ bound → tokens?.cut bound (text.dropWhile isSpace) = some tokens

namespace Cuts

theorem tokens?_eq {text : List Char} {tokens : List Token} (h : Cuts text tokens) :
    tokens? text = some tokens :=
  h text.length (Nat.le_refl _)

theorem nil : Cuts [] [] := by
  intro bound _
  cases bound <;> rfl

theorem blanks {rest : List Char} {tokens : List Token} (lead : List Char)
    (hlead : ∀ c ∈ lead, isSpace c = true) (h : Cuts rest tokens) : Cuts (lead ++ rest) tokens := by
  intro bound hbound
  rw [List.dropWhile_append_of_pos hlead]
  rw [List.length_append] at hbound
  exact h bound (by omega)

/-- One token is cut off the front. -/
theorem token {c : Char} {rest : List Char} {token : Token} {tokens : List Token} (text : List Char)
    (hc : isSpace c = false) (htoken : token? (c :: (text ++ rest)) = some (token, rest))
    (h : Cuts rest tokens) : Cuts (c :: (text ++ rest)) (token :: tokens) := by
  intro bound hbound
  rw [List.dropWhile_cons_of_neg (by rw [hc]; exact Bool.false_ne_true)]
  rw [List.length_cons, List.length_append] at hbound
  cases bound with
  | zero => cases hbound
  | succ bound =>
    have hrest := h bound (by omega)
    rw [tokens?.cut, htoken]
    · simp only [hrest, Option.map_some]
    · exact List.cons_ne_nil _ _

end Cuts

/-! ### Strings -/

/-- The four digits of a control character spell its number. -/
theorem spells_control : ∀ number < 0x20,
    ((['0', '0'] ++ (Text.hex2 number).toList.map Char.toLower).all Text.isHexDigit = true) ∧
      Text.numberOfDigits 16 (['0', '0'] ++ (Text.hex2 number).toList.map Char.toLower)
        = number := by
  decide

theorem string?_control {c : Char} (hc : c.toNat < 0x20) (rest : List Char) :
    string? none (['\\', 'u', '0', '0'] ++ (Text.hex2 c.toNat).toList.map Char.toLower ++ rest) =
      (string? none rest).map fun found => (c :: found.1, found.2) := by
  obtain ⟨hdigits, hnumber⟩ := spells_control c.toNat hc
  rw [Text.hex2, String.toList_ofList] at hdigits hnumber ⊢
  have hcombine : combine none c.toNat = .character c := by
    have hhigh : (0xD800 ≤ c.toNat && c.toNat < 0xDC00) = false := by simp; omega
    have hlow : (0xDC00 ≤ c.toNat && c.toNat < 0xE000) = false := by simp; omega
    simp only [combine, hhigh, hlow, Char.ofNat_toNat]
    rfl
  simp only [List.map_cons, List.map_nil, List.cons_append, List.nil_append] at hdigits hnumber ⊢
  rw [string?, if_pos hdigits, hnumber, hcombine]

/-- Each escaped character is read as the character. -/
theorem string?_escape (c : Char) (rest : List Char) :
    string? none (escape c ++ rest) = (string? none rest).map fun found =>
      (c :: found.1, found.2) := by
  unfold escape
  split
  · rfl
  · rfl
  · rfl
  · rfl
  · rfl
  · rfl
  · rfl
  · split
    · rename_i hc
      exact string?_control hc rest
    · rename_i hquote hbackslash _ _ _ _ _ hc
      rw [List.singleton_append, string?]
      · simp [hc]
      · exact hquote
      · exact fun _ _ _ _ _ hc _ => hbackslash hc
      · exact fun _ _ hc _ => hbackslash hc

/-- An escaped text ends at the first quote that is not escaped. -/
theorem string?_flatMap_escape (text rest : List Char) :
    string? none (text.flatMap escape ++ '"' :: rest) = some (text, rest) := by
  induction text with
  | nil => rfl
  | cons c text ih =>
    rw [List.flatMap_cons, List.append_assoc, string?_escape, ih]
    rfl

/-! ### Where a number ends -/

/-- Whether a text does not start with a character of some kind. -/
def Avoids (p : Char → Bool) (text : List Char) : Prop := text.head?.all (fun c => !p c) = true

namespace Avoids

variable {p q : Char → Bool} {text : List Char}

theorem cons {c : Char} (hc : p c = false) (text : List Char) : Avoids p (c :: text) := by
  simp [Avoids, hc]

theorem ne_cons (h : Avoids p text) {c : Char} (hc : p c = true) (tail : List Char) :
    text ≠ c :: tail := by
  rintro rfl
  simp [Avoids, hc] at h

theorem mono (h : Avoids p text) (hpq : ∀ c, q c = true → p c = true) : Avoids q text := by
  cases text with
  | nil => rfl
  | cons c tail =>
    refine cons (Bool.eq_false_iff.mpr fun hq => ?_) tail
    exact h.ne_cons (hpq c hq) tail rfl

end Avoids

/-- Whether a character can stand in a number in front of its power of ten. -/
def isMantissaPart (c : Char) : Bool := c.isDigit || c == '.'

/-- Whether a number can go on with a character. -/
def isNumberPart (c : Char) : Bool := isMantissaPart c || c == 'e' || c == 'E'

theorem isMantissaPart_of_isDigit (c : Char) (h : c.isDigit = true) : isMantissaPart c = true := by
  rw [isMantissaPart, h, Bool.true_or]

theorem isNumberPart_of_isMantissaPart (c : Char) (h : isMantissaPart c = true) :
    isNumberPart c = true := by
  rw [isNumberPart, h, Bool.true_or, Bool.true_or]

/-- The power of ten behind a number. -/
def exponentText (exponent : Int) : List Char :=
  if exponent = 0 then [] else 'e' :: (Text.decimalInt exponent).toList

theorem toList_printNumber (mantissa exponent : Int) :
    (printNumber mantissa exponent).toList
      = (Text.decimalInt mantissa).toList ++ exponentText exponent := by
  rw [printNumber, exponentText]
  split
  · rw [List.append_nil]
  · rw [String.toList_append, String.toList_append, List.append_assoc]
    rfl

section Numbers

variable {rest : List Char}

theorem avoids_exponentText_append (exponent : Int) (hrest : Avoids isNumberPart rest) :
    Avoids isMantissaPart (exponentText exponent ++ rest) := by
  rw [exponentText]
  split
  · exact hrest.mono isNumberPart_of_isMantissaPart
  · exact Avoids.cons rfl _

/-! ### Numbers -/

theorem digits?_decimalDigits (number : Nat) (hrest : Avoids Char.isDigit rest) :
    digits? (Text.decimalDigits number ++ rest) = some (Text.decimalDigits number, rest) := by
  obtain ⟨htake, hdrop⟩ := Text.cut_append Text.isDigit_of_mem_decimalDigits hrest
  obtain ⟨c, tail, hdigits, _⟩ := Text.exists_decimalDigits number
  rw [digits?, htake, hdrop, hdigits]

/-- Only zero starts with the digit zero. -/
theorem decimalDigits_append_ne_zero {number : Nat} (h : number ≠ 0) (rest tail : List Char) :
    Text.decimalDigits number ++ rest ≠ '0' :: tail := by
  fun_induction Text.decimalDigits number generalizing rest with
  | case1 number hsmall =>
    have hfirst : ∀ number < 10, number ≠ 0 → Text.hexDigit number ≠ '0' := by decide
    intro hzero
    exact hfirst number hsmall h (List.cons.inj hzero).1
  | case2 number hlarge ih =>
    rw [List.append_assoc]
    exact ih (by omega) _

theorem whole?_decimalDigits (number : Nat) (hrest : Avoids Char.isDigit rest) :
    whole? (Text.decimalDigits number ++ rest) = some (Text.decimalDigits number, rest) := by
  by_cases hzero : number = 0
  · subst hzero
    rw [Text.decimalDigits, if_pos (by decide)]
    rfl
  · rw [← digits?_decimalDigits number hrest]
    unfold whole?
    split
    · rename_i tail htext
      exact absurd htext (decimalDigits_append_ne_zero hzero rest tail)
    · rfl

theorem fraction?_of_avoids {text : List Char} (h : Avoids isMantissaPart text) :
    fraction? text = some ([], text) := by
  unfold fraction?
  split
  · exact absurd rfl (h.ne_cons rfl _)
  · rfl

theorem cons_ne_of_isDigit {c other : Char} (hc : c.isDigit = true) (hother : other.isDigit = false)
    (rest tail : List Char) : c :: rest ≠ other :: tail := by
  intro htext
  rw [(List.cons.inj htext).1, hother] at hc
  cases hc

theorem decimalDigits_append_ne {c : Char} (hc : c.isDigit = false) (number : Nat)
    (rest tail : List Char) : Text.decimalDigits number ++ rest ≠ c :: tail := by
  obtain ⟨first, digits, hdigits, hfirst⟩ := Text.exists_decimalDigits number
  rw [hdigits]
  exact cons_ne_of_isDigit hfirst hc _ tail

theorem exponent?_exponentText (exponent : Int) (hrest : Avoids isNumberPart rest) :
    exponent? (exponentText exponent ++ rest) = some (exponent, rest) := by
  have hdigit : Avoids Char.isDigit rest :=
    hrest.mono fun c hc => isNumberPart_of_isMantissaPart c (isMantissaPart_of_isDigit c hc)
  rw [exponentText]
  by_cases hzero : exponent = 0
  · rw [if_pos hzero, hzero, List.nil_append]
    unfold exponent?
    split
    · exact absurd rfl (hrest.ne_cons rfl _)
    · exact absurd rfl (hrest.ne_cons rfl _)
    · rfl
  · rw [if_neg hzero]
    cases exponent with
    | ofNat number =>
      rw [Text.decimalInt, Text.decimal, String.toList_ofList, List.cons_append]
      unfold exponent?
      simp only
      split
      · rename_i htext
        exact absurd htext (decimalDigits_append_ne rfl number rest _)
      · rename_i htext
        exact absurd htext (decimalDigits_append_ne rfl number rest _)
      · rw [digits?_decimalDigits number hdigit, Option.map_some, Text.numberOfDigits_decimalDigits]
        rfl
    | negSucc number =>
      rw [Text.toList_decimalInt_neg, List.cons_append, List.cons_append]
      unfold exponent?
      simp only [digits?_decimalDigits (number + 1) hdigit, Option.map_some,
        Text.numberOfDigits_decimalDigits]
      rfl

theorem unsigned?_decimalDigits (negative : Bool) (number : Nat) {exponent : Int}
    (hrange : inDoubleRange (Text.decimalDigits number) [] exponent = true)
    (hrest : Avoids isNumberPart rest) :
    unsigned? negative (Text.decimalDigits number ++ (exponentText exponent ++ rest)) =
      some (.scalar (.number (if negative then -(number : Int) else number) exponent), rest) := by
  have hnext := avoids_exponentText_append exponent hrest
  have hwhole := whole?_decimalDigits number (hnext.mono isMantissaPart_of_isDigit)
  rw [unsigned?, hwhole]
  simp only [fraction?_of_avoids hnext, exponent?_exponentText exponent hrest, hrange, bind,
    Option.bind, List.append_nil, Text.numberOfDigits_decimalDigits, if_true, List.length_nil]
  simp

/-! ### The range of numbers -/

/-- Digits whose number fits in sixty-four bits are all leading ones. -/
theorem leadingDigits_of_lt {significand : Nat} {digits : List Char}
    (h : digits.foldl (fun number digit => number * 10 + Text.digitValue digit) significand
      < Nat.pow 2 64) :
    leadingDigits significand digits =
      (digits.foldl (fun number digit => number * 10 + Text.digitValue digit) significand, []) := by
  have hgrows : ∀ (digits : List Char) (number : Nat),
      number ≤ digits.foldl (fun number digit => number * 10 + Text.digitValue digit) number := by
    intro digits
    induction digits with
    | nil => exact Nat.le_refl
    | cons digit digits ih =>
      intro number
      refine Nat.le_trans (Nat.le_trans ?_ (Nat.le_add_right (number * 10) (Text.digitValue digit)))
        (ih _)
      omega
  induction digits generalizing significand with
  | nil => rfl
  | cons digit digits ih =>
    rw [List.foldl_cons] at h ⊢
    rw [leadingDigits]
    simp only [if_pos (Nat.lt_of_le_of_lt (hgrows digits _) h), ih h]

theorem roundDouble_of_lt {number : Nat} (h : number < Nat.pow 2 53) :
    roundDouble number = number := by
  rw [roundDouble, if_pos h]

/-- Natural numbers of up to fifty-three bits are in the range of a double. -/
theorem inDoubleRange_of_lt {number : Nat} (h : number < Nat.pow 2 53) :
    inDoubleRange (Text.decimalDigits number) [] 0 = true := by
  have hbits (bits : Nat) (hbits : 53 ≤ bits) : number < Nat.pow 2 bits :=
    Nat.lt_of_lt_of_le h (Nat.pow_le_pow_right (by decide) hbits)
  have hvalue := Text.numberOfDigits_decimalDigits number
  rw [Text.numberOfDigits] at hvalue
  have hleading : leadingDigits 0 (Text.decimalDigits number) = (number, []) := by
    rw [leadingDigits_of_lt, hvalue]
    rw [hvalue]
    exact hbits 64 (by decide)
  have hpower :
      (([] : List Char).length : Int) - (([] : List Char).length - ([] : List Char).length : Nat)
        + 0 = 0 := rfl
  have hone : roundDouble (Nat.pow 10 0) = 1 := rfl
  have hrounded : roundDouble (roundDouble number * roundDouble (Nat.pow 10 0)) = number := by
    rw [hone, roundDouble_of_lt h, Nat.mul_one, roundDouble_of_lt h]
  rw [inDoubleRange, hleading]
  simp only [leadingDigits, hpower, Int.toNat_zero, hrounded, Bool.or_eq_true, Bool.and_eq_true,
    decide_eq_true_eq]
  refine Or.inr ⟨by decide, ?_⟩
  apply hbits
  decide

end Numbers

/-! ### Single tokens -/

theorem isSpace_of_isDigit {c : Char} (h : c.isDigit = true) : isSpace c = false := by
  rw [Bool.eq_false_iff]
  intro hspace
  simp only [isSpace, Bool.or_eq_true, beq_iff_eq] at hspace
  rcases hspace with ((rfl | rfl) | rfl) | rfl <;> cases h

theorem token?_of_isDigit {c : Char} (h : c.isDigit = true) (rest : List Char) :
    token? (c :: rest) = unsigned? false (c :: rest) := by
  rw [token?]
  all_goals exact fun _ => cons_ne_of_isDigit h rfl _ _

/-- Whether a character is a token of its own, whatever follows. -/
structure IsMark (c : Char) (mark : Token) : Prop where
  solid : isSpace c = false
  alone : ∀ rest, token? (c :: rest) = some (mark, rest)

theorem isMark_comma : IsMark ',' .comma := ⟨rfl, fun _ => rfl⟩

theorem isMark_colon : IsMark ':' .colon := ⟨rfl, fun _ => rfl⟩

namespace Cuts

variable {rest : List Char} {tokens : List Token}

theorem number {mantissa exponent : Int}
    (hrange : inDoubleRange (Text.decimalDigits mantissa.natAbs) [] exponent = true)
    (hrest : Avoids isNumberPart rest) (h : Cuts rest tokens) :
    Cuts ((printNumber mantissa exponent).toList ++ rest)
      (.scalar (.number mantissa exponent) :: tokens) := by
  rw [toList_printNumber, List.append_assoc]
  cases mantissa with
  | ofNat number =>
    obtain ⟨c, digits, hdigits, hc⟩ := Text.exists_decimalDigits number
    have htoken := unsigned?_decimalDigits false number hrange hrest
    rw [Text.decimalInt, Text.decimal, String.toList_ofList]
    rw [hdigits, List.cons_append, ← List.append_assoc] at htoken ⊢
    rw [← token?_of_isDigit hc] at htoken
    exact token _ (isSpace_of_isDigit hc) htoken h
  | negSucc number =>
    have htoken := unsigned?_decimalDigits true (number + 1) hrange hrest
    rw [← List.append_assoc] at htoken
    rw [Text.toList_decimalInt_neg, List.cons_append, ← List.append_assoc]
    exact token _ rfl htoken h

theorem quoted (text : String) (h : Cuts rest tokens) :
    Cuts ((quote text).toList ++ rest) (.scalar (.string text) :: tokens) := by
  have htoken : token? ('"' :: (text.toList.flatMap escape ++ ['"'] ++ rest))
      = some (.scalar (.string text), rest) := by
    rw [List.append_assoc, List.singleton_append, token?, string?_flatMap_escape, Option.map_some]
    simp only [String.ofList_toList]
  rw [quote, String.toList_ofList, List.cons_append, List.cons_append]
  exact token _ rfl htoken h

theorem mark {c : Char} {mark : Token} (hmark : IsMark c mark) (h : Cuts rest tokens) :
    Cuts (c :: rest) (mark :: tokens) :=
  token [] hmark.solid (hmark.alone rest) h

end Cuts

/-! ### Laid out values -/

/-- Whether a text that something else follows is cut into tokens. -/
def Spells (text : String) (tokens : List Token) : Prop :=
  ∀ rest more, Avoids isNumberPart rest → Cuts rest more →
    Cuts (text.toList ++ rest) (tokens ++ more)

theorem isSpace_of_mem_margin {depth : Nat} : ∀ c ∈ (margin depth).toList, isSpace c = true := by
  intro c hc
  rw [margin, String.toList_ofList] at hc
  rw [List.eq_of_mem_replicate hc]
  rfl

/-- A text at the start of a line is cut like the text itself. -/
theorem Cuts.line {text : List Char} {tokens : List Token} (depth : Nat) (h : Cuts text tokens) :
    Cuts ('\n' :: ((margin depth).toList ++ text)) tokens :=
  blanks ('\n' :: (margin depth).toList) (List.forall_mem_cons.mpr ⟨rfl, isSpace_of_mem_margin⟩) h

section Enclosed

variable {α : Type} {items : List α} {text : α → String} {tokens : α → List Token}
  (hitems : ∀ item ∈ items, Spells (text item) (tokens item)) (depth : Nat) {rest : List Char}
  {more : List Token}

/-- What is printed for all parts but the first. -/
def others (depth : Nat) (parts : List String) : List Char :=
  parts.flatMap fun part => ',' :: '\n' :: ((margin depth).toList ++ part.toList)

theorem avoids_others (hrest : Avoids isNumberPart rest) (parts : List String) :
    Avoids isNumberPart (others depth parts ++ rest) := by
  cases parts with
  | nil => exact hrest
  | cons part parts => exact Avoids.cons rfl _

theorem intercalate_cons_eq_flatMap {β : Type} (separator first : List β) (others : List (List β)) :
    separator.intercalate (first :: others) = first ++ others.flatMap (separator ++ ·) := by
  induction others generalizing first with
  | nil => simp
  | cons second others ih =>
    rw [List.intercalate_cons_cons, ih, List.flatMap_cons, List.append_assoc, List.append_assoc]

theorem toList_enclose_cons (opening closing part : String) (parts : List String) :
    (enclose depth opening closing (part :: parts)).toList =
      opening.toList ++ '\n' :: ((margin (depth + 1)).toList ++ (part.toList ++
        (others (depth + 1) parts ++ '\n' :: ((margin depth).toList ++ closing.toList)))) := by
  simp only [enclose, String.toList_append, String.toList_intercalate, List.map_cons, List.map_map,
    intercalate_cons_eq_flatMap, others, List.flatMap_map, Function.comp_apply, List.append_assoc]
  rfl

include hitems

theorem cuts_others (hrest : Avoids isNumberPart rest) (h : Cuts rest more) :
    Cuts (others depth (items.map text) ++ rest) ((items.map tokens).flatMap (.comma :: ·)
      ++ more) := by
  induction items with
  | nil => exact h
  | cons item items ih =>
    obtain ⟨hitem, hitems⟩ := List.forall_mem_cons.mp hitems
    have hothers := hitem _ _ (avoids_others depth hrest _) (ih hitems)
    have hcuts := (hothers.line depth).mark isMark_comma
    simpa [others] using hcuts

/-- Brackets around texts that spell tokens spell the tokens with commas between them. -/
theorem spells_enclose {opening closing : String} {left right : Char} {leftToken rightToken : Token}
    (hopening : opening.toList = [left]) (hclosing : closing.toList = [right])
    (hleft : IsMark left leftToken) (hright : IsMark right rightToken) :
    Spells (enclose depth opening closing (items.map text))
      (leftToken :: separated (items.map tokens) ++ [rightToken]) := by
  intro rest more _ h
  have hclosed := h.mark hright
  cases items with
  | nil =>
    have hempty := hclosed.mark hleft
    rw [List.map_nil, enclose, String.toList_append, hopening, hclosing]
    exact hempty
  | cons item items =>
    -- The text is put together from its end, where it is known to be cut.
    obtain ⟨hitem, hitems⟩ := List.forall_mem_cons.mp hitems
    have hends : Avoids isNumberPart ('\n' :: ((margin depth).toList ++ right :: rest)) :=
      Avoids.cons rfl _
    have hothers := cuts_others hitems (depth + 1) hends (hclosed.line depth)
    have hfirst := hitem _ _ (avoids_others (depth + 1) hends _) hothers
    have hall := (hfirst.line (depth + 1)).mark hleft
    rw [List.map_cons, toList_enclose_cons, hopening, hclosing]
    simpa [separated] using hall

end Enclosed

/-! ### Whole values -/

/-- Whether all numbers in a value, as they are printed, are in the range of a double. -/
inductive InRange : Json → Prop where
  | null : InRange .null
  | bool (value : Bool) : InRange (.bool value)
  | number {mantissa exponent : Int}
      (h : inDoubleRange (Text.decimalDigits mantissa.natAbs) [] exponent = true) :
      InRange (.number mantissa exponent)
  | string (text : String) : InRange (.string text)
  | array {elements : List Json} (h : ∀ element ∈ elements, InRange element) :
    InRange (.array elements)
  | object {members : List (String × Json)} (h : ∀ member ∈ members, InRange member.2) :
    InRange (.object members)

theorem spells_printAt {value : Json} (h : InRange value) (depth : Nat) :
    Spells (printAt depth value) value.tokens := by
  induction h generalizing depth with
  | null =>
    intro rest more _ hrest
    rw [printAt, tokens]
    exact hrest.token ['u', 'l', 'l'] rfl rfl
  | bool value =>
    intro rest more _ hrest
    rw [printAt, tokens]
    cases value with
    | false => exact hrest.token ['a', 'l', 's', 'e'] rfl rfl
    | true => exact hrest.token ['r', 'u', 'e'] rfl rfl
  | number hrange =>
    intro rest more hends hrest
    rw [printAt, tokens]
    exact hrest.number hrange hends
  | string text =>
    intro rest more _ hrest
    rw [printAt, tokens]
    exact hrest.quoted text
  | array _ ih =>
    rw [printAt, tokens, printElements_eq_map, elementTokens_eq_map]
    exact spells_enclose (fun element helement => ih element helement (depth + 1)) depth rfl rfl
      ⟨rfl, fun _ => rfl⟩
      ⟨rfl, fun _ => rfl⟩
  | object _ ih =>
    rw [printAt, tokens, printMembers_eq_map, memberTokens_eq_map]
    refine spells_enclose (fun member hmember rest more hends hrest => ?_) depth rfl rfl
      ⟨rfl, fun _ => rfl⟩
      ⟨rfl, fun _ => rfl⟩
    have hvalue := ih member hmember (depth + 1) rest more hends hrest
    have hnamed :=
      ((hvalue.blanks [' '] (List.forall_mem_singleton.mpr rfl)).mark isMark_colon).quoted member.1
    simpa using hnamed

theorem avoids_of_blanks {trail : List Char} (htrail : ∀ c ∈ trail, isSpace c = true) :
    Avoids isNumberPart trail := by
  cases trail with
  | nil => rfl
  | cons c trail =>
    have hc := (List.forall_mem_cons.mp htrail).1
    simp only [isSpace, Bool.or_eq_true, beq_iff_eq] at hc
    rcases hc with ((rfl | rfl) | rfl) | rfl <;> exact Avoids.cons rfl _

/-- What is printed for a value is cut into the tokens of the value, whatever blanks follow. -/
theorem tokens?_print {value : Json} (h : InRange value) {trail : List Char}
    (htrail : ∀ c ∈ trail, isSpace c = true) :
    tokens? (value.print.toList ++ trail) = some value.tokens := by
  have hnothing : Cuts trail [] := by simpa using Cuts.nil.blanks trail htrail
  have hcuts := spells_printAt h 0 trail [] (avoids_of_blanks htrail) hnothing
  rw [List.append_nil] at hcuts
  exact hcuts.tokens?_eq

end Lift6502.Json
