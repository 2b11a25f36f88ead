import Lift6502.Proofs.Listing.Grammar
import Lift6502.Proofs.Listing.Scan

/-!
# Every spelling of an operand is read

Scanners are greedy and take the first alternative that fits. A number is still read whole in each
of its styles, because what may follow it is never one of its digits, and an operand is told from
those of other addressing modes by what follows its first number.
-/

namespace Lift6502

namespace Text

theorem isNameChar_of_isHexDigit {c : Char} (h : isHexDigit c = true) : isNameChar c = true := by
  have hsmall : c.toNat < 128 := by
    have hcases :
        ((c.val ≥ '0'.val && c.val ≤ '9'.val) ||
          (decide ('a'.val ≤ c.val) && decide (c.val ≤ 'f'.val))
        || (decide ('A'.val ≤ c.val) && decide (c.val ≤ 'F'.val))) = true := h
    simp only [Bool.or_eq_true, Bool.and_eq_true, decide_eq_true_eq, UInt32.le_iff_toNat_le,
      ge_iff_le] at hcases
    rcases hcases with (⟨_, hle⟩ | ⟨_, hle⟩) | ⟨_, hle⟩ <;> exact Nat.lt_of_le_of_lt hle (by decide)
  have hascii : ∀ n < 128, isHexDigit (Char.ofNat n) = true → isNameChar (Char.ofNat n) = true := by
    decide
  rw [← Char.ofNat_toNat c] at h ⊢
  exact hascii c.toNat hsmall h

/-- Whether neither a name nor a number goes on in a text. -/
def Ended (rest : List Char) : Prop := rest.head?.all (fun c => !isNameChar c) = true

theorem ended_nil : Ended [] := rfl

theorem Ended.head?_all {rest : List Char} (h : Ended rest) {p : Char → Bool}
    (hp : ∀ c, p c = true → isNameChar c = true) : rest.head?.all (fun c => !p c) = true := by
  rw [Option.all_eq_true]
  intro c hc
  have hend := (Option.all_eq_true _ _).mp h c hc
  rw [Bool.not_eq_true'] at hend ⊢
  rw [Bool.eq_false_iff] at hend ⊢
  exact fun hpc => hend (hp c hpc)

theorem takeName?_append {name rest : List Char} (hstart : name.head?.any isNameStart = true)
    (hname : ∀ c ∈ name, isNameChar c = true) (hrest : Ended rest) :
    takeName? (name ++ rest) = some (name, rest) := by
  cases name with
  | nil => cases hstart
  | cons c tail =>
    have hc : isNameStart c = true := hstart
    obtain ⟨htake, hdrop⟩ := cut_append (List.forall_mem_cons.mp hname).2 hrest
    rw [List.cons_append, takeName?, if_pos hc, htake, hdrop]

theorem framed_singleton {c : Char} (h : isSolid c = true) : Framed [c] :=
  framed_of_solid (List.cons_ne_nil c []) (List.forall_mem_singleton.mpr h)

end Text

namespace Grammar

/-! ### Separators -/

theorem skipGap_append (gap : Gap) {rest : List Char} (hrest : rest.head?.any Text.isSolid = true) :
    Scan.skipGap (gap.val ++ rest) = rest := by
  rw [Scan.skipGap, List.dropWhile_append_of_pos gap.property]
  exact Scan.skipGap_of_first hrest

theorem gap?_append (gap : Break) {rest : List Char} (hrest : rest.head?.any Text.isSolid = true) :
    Scan.gap? (gap.val ++ rest) = some rest := by
  obtain ⟨chars, hne, hgap⟩ := gap
  obtain ⟨c, tail, rfl⟩ := List.exists_cons_of_ne_nil hne
  obtain ⟨hc, htail⟩ := List.forall_mem_cons.mp hgap
  rw [List.cons_append, Scan.gap?, if_pos hc]
  exact congrArg some (skipGap_append ⟨tail, htail⟩ hrest)

theorem plain_of_gap (gap : Gap) : ∀ c ∈ gap.val, (c != ';') = true := by
  intro c hc
  have hgap := gap.property c hc
  rw [bne_iff_ne]
  rintro rfl
  revert hgap
  decide

theorem not_isNameChar_of_isGap {c : Char} (h : Scan.isGap c = true) :
    (!Text.isNameChar c) = true := by
  rcases Bool.or_eq_true _ _ |>.mp h with hspace | htab
  · rw [eq_of_beq hspace]
    decide
  · rw [eq_of_beq htab]
    decide

theorem ended_append (gap : Gap) {rest : List Char} (hrest : Text.Ended rest) :
    Text.Ended (gap.val ++ rest) := by
  obtain ⟨chars, hgap⟩ := gap
  cases chars with
  | nil => exact hrest
  | cons c tail => exact not_isNameChar_of_isGap (List.forall_mem_cons.mp hgap).1

theorem ended_break (gap : Break) (rest : List Char) : Text.Ended (gap.val ++ rest) := by
  obtain ⟨chars, hne, hgap⟩ := gap
  obtain ⟨c, tail, rfl⟩ := List.exists_cons_of_ne_nil hne
  exact not_isNameChar_of_isGap (List.forall_mem_cons.mp hgap).1

theorem skipGap_break (gap : Break) {rest : List Char}
    (hrest : rest.head?.any Text.isSolid = true) : Scan.skipGap (gap.val ++ rest) = rest :=
  skipGap_append ⟨gap.val, gap.property.2⟩ hrest

theorem plain_of_break (gap : Break) : ∀ c ∈ gap.val, (c != ';') = true :=
  plain_of_gap ⟨gap.val, gap.property.2⟩

/-! ### Numbers -/

theorem digitValue_eq_rank {c : Char} (h : Text.isHexDigit c = true) : Text.digitValue c = rank c :=
  Text.of_isNameChar (fun c => Text.isHexDigit c = true → Text.digitValue c = rank c)
    (Text.isNameChar_of_isHexDigit h)
    (by decide) h

/-- Reading digits from the left adds up what they are worth. -/
theorem numberOfDigits_eq_worth (base : Nat) {digits : List Char}
    (h : ∀ c ∈ digits, Text.isHexDigit c = true) :
    Text.numberOfDigits base digits = worth base digits := by
  have hfold :
      ∀ start, digits.foldl (fun number digit => number * base + Text.digitValue digit) start
      = start * Nat.pow base digits.length + worth base digits := by
    induction digits with
    | nil => simp [worth]
    | cons digit rest ih =>
      obtain ⟨hdigit, hrest⟩ := List.forall_mem_cons.mp h
      intro start
      have hpow : Nat.pow base (rest.length + 1) = base * Nat.pow base rest.length :=
        Nat.mul_comm _ _
      rw [List.foldl_cons, ih hrest, digitValue_eq_rank hdigit, worth, List.length_cons, hpow,
        Nat.add_mul, Nat.mul_assoc, Nat.add_assoc]
  have hzero := hfold 0
  rwa [Nat.zero_mul, Nat.zero_add] at hzero

theorem rank_lt {c : Char} (h : Text.isHexDigit c = true) : rank c < 16 :=
  Text.of_isNameChar (fun c => Text.isHexDigit c = true → rank c < 16)
    (Text.isNameChar_of_isHexDigit h) (by decide) h

theorem worth_lt {digits : List Char} (h : ∀ c ∈ digits, Text.isHexDigit c = true) :
    worth 16 digits < Nat.pow 16 digits.length := by
  induction digits with
  | nil => decide
  | cons digit rest ih =>
    obtain ⟨hdigit, hrest⟩ := List.forall_mem_cons.mp h
    have hrank := rank_lt hdigit
    have hworth := ih hrest
    have hpow : Nat.pow 16 (rest.length + 1) = Nat.pow 16 rest.length * 16 := rfl
    have hmul : rank digit * Nat.pow 16 rest.length ≤ 15 * Nat.pow 16 rest.length :=
      Nat.mul_le_mul_right _ (Nat.le_of_lt_succ hrank)
    rw [worth, List.length_cons, hpow]
    omega

/-- No hexadecimal mark is made of digits. -/
theorem hexNumber?_of_digits {digits rest : List Char} (hne : digits ≠ [])
    (hdigits : ∀ c ∈ digits, Text.isHexDigit c = true) (hrest : Text.Ended rest) :
    Scan.hexNumber? (digits ++ rest) = none := by
  obtain ⟨c, tail, rfl⟩ := List.exists_cons_of_ne_nil hne
  obtain ⟨hc, htail⟩ := List.forall_mem_cons.mp hdigits
  have hdollar : c ≠ '$' := by
    rintro rfl
    revert hc
    decide
  refine Scan.hexNumber?_eq_none hdollar (.inr ?_)
  rw [Option.all_eq_true]
  intro mark hmark
  rw [Bool.and_eq_true, bne_iff_ne, bne_iff_ne]
  cases tail with
  | nil =>
    have hend := (Option.all_eq_true _ _).mp hrest mark hmark
    constructor <;> rintro rfl <;> revert hend <;> decide
  | cons digit _ =>
    obtain rfl : digit = mark := Option.some.inj hmark
    have hdigit := (List.forall_mem_cons.mp htail).1
    constructor <;> rintro rfl <;> revert hdigit <;> decide

namespace Style

theorem isHexDigit_of_isDigit {style : Style} {c : Char} (h : style.isDigit c = true) :
    Text.isHexDigit c = true := by
  cases style with
  | dollar | lowerHex | upperHex => exact h
  | percent =>
    rcases Bool.or_eq_true _ _ |>.mp h with hzero | hone
    · rw [eq_of_beq hzero]
      decide
    · rw [eq_of_beq hone]
      decide
  | plain =>
    have hdigit : c.isDigit = true := h
    simp [Text.isHexDigit, hdigit]

end Style

namespace Numeral

variable (numeral : Numeral) {rest : List Char}

theorem wordOfDigits?_eq :
    Text.wordOfDigits? numeral.style.base numeral.digits = some numeral.word := by
  have hworth := numberOfDigits_eq_worth numeral.style.base fun c hc => Style.isHexDigit_of_isDigit
    (numeral.isDigit c hc)
  simp only [Text.wordOfDigits?, hworth, numeral.bound, if_true]
  rfl

theorem digits?_eq (hrest : Text.Ended rest) :
    Scan.digits? numeral.style.base numeral.style.isDigit (numeral.digits ++ rest)
      = some (numeral.word, rest) := by
  apply Scan.digits?_append numeral.nonempty numeral.isDigit numeral.wordOfDigits?_eq
  exact hrest.head?_all fun _ h => Text.isNameChar_of_isHexDigit (Style.isHexDigit_of_isDigit h)

theorem hexNumber?_eq (hexadecimal : numeral.style.base = 16) (hrest : Text.Ended rest) :
    Scan.hexNumber? (numeral.text ++ rest) = some (numeral.word, rest) := by
  have hdigits := numeral.digits?_eq hrest
  unfold text
  cases hstyle : numeral.style with
  | dollar | lowerHex | upperHex =>
    rw [hstyle] at hdigits
    exact hdigits
  | percent | plain =>
    rw [hstyle] at hexadecimal
    cases hexadecimal

theorem number?_eq (hrest : Text.Ended rest) :
    Scan.number? (numeral.text ++ rest) = some (numeral.word, rest) := by
  have hdigits := numeral.digits?_eq hrest
  by_cases hexadecimal : numeral.style.base = 16
  · rw [Scan.number?, numeral.hexNumber?_eq hexadecimal hrest]
    rfl
  · unfold text
    cases hstyle : numeral.style with
    | dollar | lowerHex | upperHex =>
      rw [hstyle] at hexadecimal
      exact absurd rfl hexadecimal
    | percent =>
      rw [hstyle] at hdigits
      have hbinary : Scan.binaryNumber? ('%' :: (numeral.digits ++ rest))
          = some (numeral.word, rest) := hdigits
      show Scan.number? ('%' :: (numeral.digits ++ rest)) = some (numeral.word, rest)
      rw [Scan.number?, hbinary]
      rfl
    | plain =>
      -- Decimal numbers are tried last, so the digits must not look like a mark of another style.
      rw [hstyle] at hdigits
      have hdecimal : Scan.decimalNumber? (numeral.digits ++ rest) = some (numeral.word, rest) :=
        hdigits
      have hhex := hexNumber?_of_digits numeral.nonempty
        (fun c hc => Style.isHexDigit_of_isDigit (numeral.isDigit c hc)) hrest
      have hbinary : Scan.binaryNumber? (numeral.digits ++ rest) = none := by
        obtain ⟨c, tail, hcons⟩ := List.exists_cons_of_ne_nil numeral.nonempty
        have hc := Style.isHexDigit_of_isDigit (numeral.isDigit c (hcons ▸ List.mem_cons_self))
        rw [hcons]
        refine Scan.binaryNumber?_eq_none ?_ _
        rintro rfl
        revert hc
        decide
      show Scan.number? (numeral.digits ++ rest) = some (numeral.word, rest)
      rw [Scan.number?, hhex, hbinary, hdecimal]
      rfl

theorem isSolid_of_mem_text {c : Char} (h : c ∈ numeral.text) : Text.isSolid c = true := by
  rcases List.mem_append.mp h with hmark | hdigit
  · have hsolid : numeral.style.mark.all Text.isSolid = true := by cases numeral.style <;> decide
    exact List.all_eq_true.mp hsolid c hmark
  · exact Text.isSolid_of_isNameChar
      (Text.isNameChar_of_isHexDigit (Style.isHexDigit_of_isDigit (numeral.isDigit c hdigit)))

theorem framed_text : Text.Framed numeral.text := by
  apply Text.framed_of_solid
  · intro hnil
    exact numeral.nonempty (List.append_eq_nil_iff.mp hnil).2
  · intro c hc
    exact numeral.isSolid_of_mem_text hc

end Numeral

theorem Byte.framed_text (byte : Byte) : Text.Framed byte.text := byte.val.framed_text

theorem Byte.byte?_eq (byte : Byte) {rest : List Char} (hrest : Text.Ended rest) :
    Scan.byte? (byte.text ++ rest) = some (byte.value, rest) := by
  obtain ⟨numeral, hbound⟩ := byte
  have hle : numeral.word ≤ 0xFF := by
    have hword : numeral.word.toNat = numeral.number := UInt16.toNat_ofNat_of_lt' numeral.bound
    rw [UInt16.le_iff_toNat_le, hword]
    exact Nat.le_of_lt_succ hbound
  have hvalue : numeral.word.toUInt8 = UInt8.ofNat numeral.number := UInt16.toUInt8_ofNat' _
  simp only [Scan.byte?, text, numeral.number?_eq hrest, if_pos hle, hvalue]
  rfl

/-! ### Operands -/

theorem framed_name (name : Name) : Text.Framed name.val := by
  apply Text.framed_of_solid
  · intro hnil
    have hstart := name.property.1
    rw [hnil] at hstart
    cases hstart
  · intro c hc
    exact Text.isSolid_of_isNameChar (name.property.2 c hc)

theorem openParen?_append (gap : Gap) {rest : List Char}
    (hrest : rest.head?.any Text.isSolid = true) :
    Scan.openParen? ('(' :: (gap.val ++ rest)) = some rest :=
  congrArg some (skipGap_append gap hrest)

theorem closeParen?_append (gap : Gap) (rest : List Char) :
    Scan.closeParen? (gap.val ++ ')' :: rest) = some rest := by
  rw [Scan.closeParen?, skipGap_append gap rfl]
  rfl

namespace OperandForm

theorem indexText_append (before after : Gap) (index : IndexRegister) (capital : Bool)
    (rest : List Char) :
    indexText before after index capital ++ rest
      = before.val ++ ',' :: (after.val ++ indexLetter capital index :: rest) := by
  simp [indexText]

theorem comma?_indexText (before after : Gap) (index : IndexRegister) (capital : Bool)
    (rest : List Char) :
    Scan.comma? (indexText before after index capital ++ rest)
      = some (indexLetter capital index :: rest) := by
  have hsolid : Text.isSolid (indexLetter capital index) = true := by
    cases index <;> cases capital <;> decide
  rw [indexText_append, Scan.comma?, skipGap_append before rfl]
  exact congrArg some (skipGap_append after hsolid)

theorem indexRegister?_indexLetter (index : IndexRegister) (capital : Bool) (rest : List Char) :
    Scan.indexRegister? (indexLetter capital index :: rest) = some (index, rest) := by
  cases index <;> cases capital <;> rfl

theorem ended_indexText (before after : Gap) (index : IndexRegister) (capital : Bool)
    (rest : List Char) : Text.Ended (indexText before after index capital ++ rest) := by
  rw [indexText_append]
  exact ended_append before rfl

theorem operand?_immediate (gap : Gap) (value : Byte) :
    Scan.operand? (immediate gap value).text = some (.immediate value.value) := by
  have htext : (immediate gap value).text = '#' :: (gap.val ++ (value.text ++ [])) := by simp [text]
  have hskip := skipGap_append gap (value.framed_text.first_append [])
  have hhash (rest : List Char) : Scan.char? '#' ('#' :: rest) = some rest := rfl
  have himmediate : Scan.immediate? ('#' :: (gap.val ++ (value.text ++ [])))
      = some (.immediate value.value, []) := by
    rw [Scan.immediate?, hhash, Option.bind_eq_bind, Option.bind_some, hskip,
      value.byte?_eq Text.ended_nil]
    rfl
  rw [htext, Scan.operand?, himmediate]
  rfl

theorem operand?_indirectY (inner : Gap) (pointer : Byte) (outer before after : Gap)
    (capital : Bool) :
    Scan.operand? (indirectY inner pointer outer before after capital).text
      = some (.indirectIndexed pointer.value .y) := by
  generalize hindex : indexText before after .y capital = index
  have htext : (indirectY inner pointer outer before after capital).text
      = '(' :: (inner.val ++ (pointer.text ++ (outer.val ++ ')' :: index))) := by
    simp [text, hindex]
  have hopen :=
    openParen?_append inner (pointer.framed_text.first_append (outer.val ++ ')' :: index))
  have hbyte := pointer.byte?_eq (ended_append outer (show Text.Ended (')' :: index) from rfl))
  have hcomma := comma?_indexText before after .y capital []
  rw [List.append_nil, hindex] at hcomma
  rw [htext, Scan.operand?_paren, Scan.indirectY?, hopen]
  simp only [Option.bind_eq_bind, Option.bind_some, hbyte, closeParen?_append, hcomma,
    indexRegister?_indexLetter]
  rfl

/-- The comma comes before the parenthesis is closed, which tells the two indexed forms apart. -/
theorem operand?_indirectX (inner : Gap) (pointer : Byte) (before after : Gap) (capital : Bool)
    (outer : Gap) :
    Scan.operand? (indirectX inner pointer before after capital outer).text
      = some (.indirectIndexed pointer.value .x) := by
  generalize hrest : outer.val ++ [')'] = rest
  have htext : (indirectX inner pointer before after capital outer).text
      = '(' :: (inner.val ++ (pointer.text ++ (indexText before after .x capital ++ rest))) := by
    simp [text, ← hrest]
  have hopen := openParen?_append inner
    (pointer.framed_text.first_append (indexText before after .x capital ++ rest))
  have hbyte := pointer.byte?_eq (ended_indexText before after .x capital rest)
  have hopenComma : Scan.closeParen? (indexText before after .x capital ++ rest) = none := by
    rw [indexText_append, Scan.closeParen?, skipGap_append before rfl]
    rfl
  have hclose : Scan.closeParen? rest = some [] := by
    rw [← hrest]
    exact closeParen?_append outer []
  rw [htext, Scan.operand?_paren, Scan.indirectY?, Scan.indirectX?, hopen]
  simp only [Option.bind_eq_bind, Option.bind_some, hbyte, hopenComma, comma?_indexText,
    indexRegister?_indexLetter, hclose]
  rfl

theorem operand?_indirect (inner : Gap) (address : Numeral) (outer : Gap) :
    Scan.operand? (indirect inner address outer).text = some (.indirect address.word) := by
  have htext : (indirect inner address outer).text
      = '(' :: (inner.val ++ (address.text ++ (outer.val ++ [')']))) := by
    simp [text]
  have hopen := openParen?_append inner (address.framed_text.first_append (outer.val ++ [')']))
  have hnumber := address.number?_eq (ended_append outer (show Text.Ended [')'] from rfl))
  have hclose := closeParen?_append outer []
  have hcomma : Scan.comma? (outer.val ++ [')']) = none := by
    rw [Scan.comma?, skipGap_append outer rfl]
    rfl
  -- An address below 256 is a byte too, so the indexed forms fail only behind it.
  rw [htext, Scan.operand?_paren, Scan.indirectY?, Scan.indirectX?, Scan.indirect?, hopen]
  simp only [Option.bind_eq_bind, Option.bind_some, Scan.byte?, hnumber, hclose]
  split
  · simp only [Option.bind_some, hclose, hcomma]
    rfl
  · rfl

theorem operand?_symbolic (name : Name) (notAccumulator : name.val ≠ ['a'] ∧ name.val ≠ ['A']) :
    Scan.operand? (symbolic name notAccumulator).text
      = some (.symbolic (String.ofList name.val)) := by
  have hname := Text.takeName?_append name.property.1 name.property.2 Text.ended_nil
  rw [List.append_nil] at hname
  have hlegible : (Operand.symbolic (String.ofList name.val)).IsLegible := by
    rw [Operand.IsLegible, Ne, ← String.toList_inj, Ne, ← String.toList_inj, String.toList_ofList]
    exact ⟨hname, notAccumulator⟩
  have hread := Scan.operand?_text hlegible (by simp)
  rwa [Operand.text, String.toList_ofList] at hread

theorem operand?_eq (form : OperandForm) : Scan.operand? form.text = some form.operand := by
  cases form with
  | accumulator capital => cases capital <;> rfl
  | immediate gap value => exact operand?_immediate gap value
  | absolute address =>
    have hnumber := address.number?_eq Text.ended_nil
    rw [List.append_nil] at hnumber
    rw [text, Scan.operand?_of_number hnumber, Scan.indexed?, Scan.absolute?, hnumber]
    rfl
  | indexed base before after index capital =>
    have hnumber := base.number?_eq (ended_indexText before after index capital [])
    have hcomma := comma?_indexText before after index capital []
    rw [List.append_nil] at hnumber hcomma
    rw [text, Scan.operand?_of_number hnumber, Scan.indexed?, hnumber]
    simp only [Option.bind_eq_bind, Option.bind_some, hcomma, indexRegister?_indexLetter]
    rfl
  | indirectY inner pointer outer before after capital =>
    exact operand?_indirectY inner pointer outer before after capital
  | indirectX inner pointer before after capital outer =>
    exact operand?_indirectX inner pointer before after capital outer
  | indirect inner address outer => exact operand?_indirect inner address outer
  | symbolic name notAccumulator => exact operand?_symbolic name notAccumulator

theorem head?_ne_colon (form : OperandForm) : form.text.head? ≠ some ':' := by
  intro hcolon
  obtain ⟨rest, hrest⟩ := List.head?_eq_some_iff.mp hcolon
  have hnone : Scan.operand? (':' :: rest) = none := rfl
  rw [← hrest, form.operand?_eq] at hnone
  cases hnone

theorem framed_indexText {text : List Char} (h : Text.Framed text) (before after : Gap)
    (index : IndexRegister) (capital : Bool) :
    Text.Framed (text ++ indexText before after index capital) := by
  have hletter : Text.isSolid (indexLetter capital index) = true := by
    cases index <;> cases capital <;> decide
  have hbetween : ∀ c ∈ before.val ++ ',' :: after.val, (c != ';') = true := by
    rw [List.forall_mem_append, List.forall_mem_cons]
    exact ⟨plain_of_gap before, by decide, plain_of_gap after⟩
  have hframed := h.append hbetween (Text.framed_singleton hletter)
  rwa [List.append_assoc] at hframed

theorem framed_text (form : OperandForm) : Text.Framed form.text := by
  have hopen : Text.Framed ['('] := Text.framed_singleton (by decide)
  have hclose : Text.Framed [')'] := Text.framed_singleton (by decide)
  cases form with
  | accumulator capital => exact Text.framed_singleton (by cases capital <;> decide)
  | immediate gap value =>
    exact (Text.framed_singleton (by decide)).append (plain_of_gap gap) value.framed_text
  | absolute address => exact address.framed_text
  | indexed base before after index capital =>
    exact framed_indexText base.framed_text before after index capital
  | indirectY inner pointer outer before after capital =>
    have hpointer := (hopen.append (plain_of_gap inner) pointer.framed_text).append
      (plain_of_gap outer) hclose
    rw [text, List.append_cons]
    exact framed_indexText hpointer before after .y capital
  | indirectX inner pointer before after capital outer =>
    have hpointer := framed_indexText (hopen.append (plain_of_gap inner) pointer.framed_text) before
      after .x capital
    exact hpointer.append (plain_of_gap outer) hclose
  | indirect inner address outer =>
    exact (hopen.append (plain_of_gap inner) address.framed_text).append (plain_of_gap outer) hclose
  | symbolic name notAccumulator => exact framed_name name

end OperandForm

end Grammar

end Lift6502
