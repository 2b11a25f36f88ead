import Lift6502.Listing.Scan
import Lift6502.Proofs.Text.Printed

/-!
# Reading printed instructions

Every operation that a line can hold is legible: its mnemonic has three letters, and its label, if
it has one, is a name that is not taken for the accumulator. A legible instruction is printed as a
line that holds it again, in every addressing mode.
-/

namespace Lift6502

/-- Whether a mnemonic is found again from its text. -/
structure Mnemonic.IsLegible (mnemonic : Mnemonic) : Prop where
  length : mnemonic.text.toList.length = 3
  isAlpha : ∀ c ∈ mnemonic.text.toList, c.isAlpha = true
  read : Mnemonic.read mnemonic.text = mnemonic

/-- Whether an operand is found again from its text, which is in doubt only for labels. -/
def Operand.IsLegible : Operand → Prop
  | symbolic label =>
    Text.takeName? label.toList = some (label.toList, []) ∧ label ≠ "a" ∧ label ≠ "A"
  | _ => True

structure Operation.IsLegible (operation : Operation) : Prop where
  mnemonic : operation.mnemonic.IsLegible
  operand : operation.operand.IsLegible

/-! ### What is read is legible -/

namespace Mnemonic

theorem text_read (token : String) : (read token).text = token.map Char.toUpper := by
  unfold read
  simp only
  cases hfound : documented.find? fun mnemonic => mnemonic.text == token.map Char.toUpper with
  | none => rfl
  | some mnemonic =>
    have hsame := List.find?_some hfound
    exact eq_of_beq hsame

/-- Only the capitals of a token matter. -/
theorem read_congr {token other : String} (h : token.map Char.toUpper = other.map Char.toUpper) :
    read token = read other := by
  unfold read
  rw [h]

theorem isLegible_read {letters : List Char} (hlength : letters.length = 3)
    (halpha : ∀ c ∈ letters, c.isAlpha = true) : (read (String.ofList letters)).IsLegible := by
  have htext : (read (String.ofList letters)).text.toList = letters.map Char.toUpper := by
    rw [text_read, String.toList_map, String.toList_ofList]
  refine ⟨?_, ?_, ?_⟩
  · rw [htext, List.length_map, hlength]
  · rw [htext]
    exact List.forall_mem_map.mpr fun c hc => (Text.toUpper_of_isAlpha (halpha c hc)).1
  · refine read_congr (String.toList_inj.mp ?_)
    rw [String.toList_map, htext, List.map_map, String.toList_map, String.toList_ofList]
    exact List.map_congr_left fun c hc => (Text.toUpper_of_isAlpha (halpha c hc)).2

theorem IsLegible.printed_text {mnemonic : Mnemonic} (h : mnemonic.IsLegible) :
    Text.Printed mnemonic.text.toList := by
  refine Text.printed_of_solid ?_ (List.all_eq_true.mpr fun c hc => ?_)
  · exact List.ne_nil_of_length_eq_add_one h.length
  · exact Text.isSolid_of_isNameChar (Text.isNameChar_of_isAlpha (h.isAlpha c hc))

end Mnemonic

namespace Scan

theorem complete_eq_some {α : Type} {scanned : Option (α × List Char)} {result : α}
    (h : complete scanned = some result) : scanned = some (result, []) := by
  unfold complete at h
  split at h
  · cases h
    rfl
  · cases h

/-- The addressing modes without a label, in the order in which they are tried. -/
def plainModes : List (List Char → Option (Operand × List Char)) :=
  [immediate?, indirectY?, indirectX?, indirect?, indexed?, absolute?, accumulator?]

theorem operand?_eq (text : List Char) :
    operand? text
      = (plainModes.findSome? fun scan => complete (scan text)).or
        (complete (symbolic? text)) := by
  simp only [operand?, plainModes, List.findSome?_cons, List.findSome?_nil]
  cases complete (immediate? text) <;> cases complete (indirectY? text)
    <;> cases complete (indirectX? text) <;>
    cases complete (indirect? text) <;> cases complete (indexed? text)
      <;> cases complete (absolute? text) <;>
    cases complete (accumulator? text) <;> rfl

theorem plainModes_ne_symbolic {text rest : List Char} {label : String} :
    ∀ scan ∈ plainModes, scan text ≠ some (.symbolic label, rest) := by
  simp only [plainModes, List.forall_mem_cons]
  refine ⟨?immediate, ?indirectY, ?indirectX, ?indirect, ?indexed, ?absolute, ?accumulator, by simp⟩
  case indirectY =>
    simp only [indirectY?, Option.bind_eq_bind, ne_eq, Option.bind_eq_some_iff, not_exists, not_and]
    intros
    split <;> simp
  case indirectX =>
    simp only [indirectX?, Option.bind_eq_bind, ne_eq, Option.bind_eq_some_iff, not_exists, not_and]
    intros
    split <;> simp [Option.bind_eq_some_iff]
  case accumulator =>
    unfold accumulator?
    split <;> simp
  all_goals simp [immediate?, indirect?, indexed?, absolute?, Option.bind_eq_some_iff]

theorem isLegible_mnemonic {text : List Char} {parts : Parts} (h : parts? text = some parts) :
    parts.mnemonic.IsLegible := by
  simp only [parts?] at h
  split at h
  · rename_i hlength
    have hlegible :=
      Mnemonic.isLegible_read (eq_of_beq hlength) (List.all_eq_true.mp List.all_takeWhile)
    split at h
    · cases h
      exact hlegible
    · obtain ⟨_, -, rfl⟩ := Option.map_eq_some_iff.mp h
      exact hlegible
  · cases h

theorem isLegible_operand {text : List Char} {operand : Operand}
    (h : operand? text = some operand) : operand.IsLegible := by
  cases operand with
  | symbolic label =>
    rw [operand?_eq, Option.or_eq_some_iff] at h
    rcases h with hplain | ⟨hnone, hsymbolic⟩
    · obtain ⟨scan, hscan, hfound⟩ := List.exists_of_findSome?_eq_some hplain
      exact absurd (complete_eq_some hfound) (plainModes_ne_symbolic scan hscan)
    · have hsymbolic := complete_eq_some hsymbolic
      simp only [symbolic?, Option.bind_eq_bind, Option.bind_eq_some_iff, Option.pure_def,
        Option.some.injEq, Prod.mk.injEq, Operand.symbolic.injEq] at hsymbolic
      obtain ⟨⟨name, _⟩, hname, rfl, rfl⟩ := hsymbolic
      obtain ⟨htext, -, -⟩ := Text.of_takeName? hname
      rw [List.append_nil] at htext
      subst htext
      rw [Operand.IsLegible, String.toList_ofList]
      -- The accumulator is tried before any label, and would have been found.
      refine ⟨hname, ?_, ?_⟩ <;> intro haccumulator
        <;> rw [← String.toList_inj, String.toList_ofList] at haccumulator <;>
        subst haccumulator <;> cases hnone
  | _ => trivial

/-! ### Printed operands -/

/-- A run of digits is read up to its end. -/
theorem digits?_append {base : Nat} {isDigit : Char → Bool} {digits : List Char} {word : Address}
    (hne : digits ≠ []) (hdigits : ∀ c ∈ digits, isDigit c = true)
    (hword : Text.wordOfDigits? base digits = some word) {rest : List Char}
    (hrest : rest.head?.all (fun c => !isDigit c) = true) :
    digits? base isDigit (digits ++ rest) = some (word, rest) := by
  obtain ⟨htake, hdrop⟩ := Text.cut_append hdigits hrest
  rw [digits?, htake, hdrop]
  obtain ⟨c, tail, rfl⟩ := List.exists_cons_of_ne_nil hne
  simp [hword]

theorem number?_of_spells {digits : List Char} {word : Address} (h : Text.Spells digits word)
    (rest : List Char) (hrest : rest.head?.all (fun c => !Text.isHexDigit c) = true) :
    number? ('$' :: (digits ++ rest)) = some (word, rest) := by
  rw [number?, hexNumber?, digits?_append h.ne_nil h.isHexDigit h.value hrest]
  rfl

theorem byte?_hex2 (value : UInt8) (rest : List Char)
    (hrest : rest.head?.all (fun c => !Text.isHexDigit c) = true) :
    byte? ('$' :: ((Text.hex2 value.toNat).toList ++ rest)) = some (value, rest) := by
  rw [byte?, number?_of_spells (Text.spells_hex2 value.toNat value.toNat_lt) rest hrest]
  have hword : UInt16.ofNat value.toNat = value.toUInt16 := by simp
  have hle : value.toUInt16 ≤ 0xFF := by
    rw [UInt16.le_iff_toNat_le, UInt8.toNat_toUInt16]
    exact Nat.le_of_lt_succ value.toNat_lt
  simp only [hword, if_pos hle, UInt8.toUInt8_toUInt16]

/-- Nothing is hexadecimal without a mark. -/
theorem hexNumber?_eq_none {c : Char} {rest : List Char} (hdollar : c ≠ '$')
    (hzero : c ≠ '0' ∨ rest.head?.all (fun c => c != 'x' && c != 'X') = true) :
    hexNumber? (c :: rest) = none := by
  unfold hexNumber?
  split
  case h_4 => rfl
  all_goals
    rename_i heq
    obtain ⟨rfl, rfl⟩ := List.cons.inj heq
    simp at hdollar hzero

theorem binaryNumber?_eq_none {c : Char} (h : c ≠ '%') (rest : List Char) :
    binaryNumber? (c :: rest) = none := by
  unfold binaryNumber?
  split
  · rename_i heq
    exact absurd (List.cons.inj heq).1 h
  · rfl

theorem number?_of_isNameStart {c : Char} (h : Text.isNameStart c = true) (rest : List Char) :
    number? (c :: rest) = none := by
  have hdigit : c.isDigit = false :=
    Text.of_isNameChar (fun c => Text.isNameStart c = true → c.isDigit = false)
      (Text.isNameChar_of_isNameStart h)
      (by decide) h
  have hne {expected : Char} (hexpected : Text.isNameStart expected = false) : c ≠ expected := by
    rintro rfl
    rw [hexpected] at h
    cases h
  have hdecimal : decimalNumber? (c :: rest) = none := by
    simp [decimalNumber?, digits?, hdigit]
  rw [number?, hexNumber?_eq_none (hne (by decide)) (.inl (hne (by decide))),
    binaryNumber?_eq_none (hne (by decide)), hdecimal]
  rfl

theorem complete_accumulator? {text : List Char} (hlower : text ≠ ['a']) (hupper : text ≠ ['A']) :
    complete (accumulator? text) = none := by
  unfold accumulator?
  split
  · rename_i rest
    cases rest with
    | nil => exact absurd rfl hlower
    | cons _ _ => rfl
  · rename_i rest
    cases rest with
    | nil => exact absurd rfl hupper
    | cons _ _ => rfl
  · rfl

/-- Where a number stands there is an address, with or without an index. -/
theorem operand?_of_number {text : List Char} {found : Address × List Char}
    (h : number? text = some found) :
    operand? text = (complete (indexed? text)).or (complete (absolute? text)) := by
  cases text with
  | nil => cases h
  | cons c rest =>
    have hne {expected : Char} (hnone : number? (expected :: rest) = none) : c ≠ expected := by
      rintro rfl
      rw [hnone] at h
      cases h
    have hstart : Text.isNameStart c = false := by
      refine Bool.eq_false_iff.mpr fun hstart => ?_
      rw [number?_of_isNameStart hstart] at h
      cases h
    have hhash : char? '#' (c :: rest) = none := if_neg (by simpa using hne rfl)
    have hparen : openParen? (c :: rest) = none := by
      have hchar : char? '(' (c :: rest) = none := if_neg (by simpa using hne rfl)
      rw [openParen?, hchar, Option.map_none]
    have hname : Text.takeName? (c :: rest) = none := by simp [Text.takeName?, hstart]
    have haccumulator : complete (accumulator? (c :: rest)) = none := by
      refine complete_accumulator? ?_ ?_ <;> intro hcons <;> exact hne rfl (List.cons.inj hcons).1
    rw [operand?, immediate?, hhash, indirectY?, indirectX?, indirect?, hparen, haccumulator,
      symbolic?, hname]
    cases complete (indexed? (c :: rest)) <;> cases complete (absolute? (c :: rest)) <;> rfl

/-- After a parenthesis stands a pointer. -/
theorem operand?_paren (rest : List Char) :
    operand? ('(' :: rest) = (complete (indirectY? ('(' :: rest))).or
      ((complete (indirectX? ('(' :: rest))).or (complete (indirect? ('(' :: rest)))) := by
  have himmediate : complete (immediate? ('(' :: rest)) = none := rfl
  have hindexed : complete (indexed? ('(' :: rest)) = none := rfl
  have habsolute : complete (absolute? ('(' :: rest)) = none := rfl
  have haccumulator : complete (accumulator? ('(' :: rest)) = none := rfl
  have hsymbolic : complete (symbolic? ('(' :: rest)) = none := rfl
  rw [operand?, himmediate, hindexed, habsolute, haccumulator, hsymbolic]
  cases complete (indirectY? ('(' :: rest)) <;> cases complete (indirectX? ('(' :: rest)) <;>
    cases complete (indirect? ('(' :: rest)) <;> rfl

/-- A name is not taken for anything but a label, apart from that of the accumulator. -/
theorem plainModes_of_name {label : String}
    (hname : Text.takeName? label.toList = some (label.toList, []))
    (haccumulator : label ≠ "a" ∧ label ≠ "A") :
    ∀ scan ∈ plainModes, complete (scan label.toList) = none := by
  obtain ⟨-, hstart, -⟩ := Text.of_takeName? hname
  rw [Ne, ← String.toList_inj, Ne, ← String.toList_inj] at haccumulator
  generalize label.toList = chars at hstart haccumulator
  cases chars with
  | nil => cases hstart
  | cons c tail =>
    have hstart : Text.isNameStart c = true := hstart
    have hchar {expected : Char} (hexpected : Text.isNameStart expected = false) :
        char? expected (c :: tail) = none := by
      refine if_neg fun heq => ?_
      rw [eq_of_beq heq, hexpected] at hstart
      cases hstart
    have hnumber := number?_of_isNameStart hstart tail
    have hhash : char? '#' (c :: tail) = none := hchar (by decide)
    have hparen : openParen? (c :: tail) = none := by
      rw [openParen?, hchar (by decide), Option.map_none]
    simp only [plainModes, List.forall_mem_cons]
    refine ⟨?_, ?_, ?_, ?_, ?_, ?_, ?_, by simp⟩
    · rw [immediate?, hhash]
      rfl
    · rw [indirectY?, hparen]
      rfl
    · rw [indirectX?, hparen]
      rfl
    · rw [indirect?, hparen]
      rfl
    · rw [indexed?, hnumber]
      rfl
    · rw [absolute?, hnumber]
      rfl
    · exact complete_accumulator? haccumulator.1 haccumulator.2

theorem openParen_dollar (rest : List Char) :
    openParen? ('(' :: '$' :: rest) = some ('$' :: rest) := rfl

theorem operand?_text {operand : Operand} (hlegible : operand.IsLegible)
    (hoperand : operand ≠ .implied) : operand? operand.text.toList = some operand := by
  cases operand with
  | implied => exact absurd rfl hoperand
  | accumulator => rfl
  | immediate value =>
    have htext : (Operand.immediate value).text.toList
        = '#' :: '$' :: ((Text.hex2 value.toNat).toList ++ []) := by
      simp [Operand.text]
    have himmediate : immediate? ('#' :: '$' :: ((Text.hex2 value.toNat).toList ++ []))
        = some (.immediate value, []) := by
      have hhash (rest : List Char) : char? '#' ('#' :: rest) = some rest := rfl
      have hskip (rest : List Char) : skipGap ('$' :: rest) = '$' :: rest := rfl
      rw [immediate?, hhash, Option.bind_eq_bind, Option.bind_some, hskip, byte?_hex2 value [] rfl]
      rfl
    rw [htext, operand?, himmediate]
    rfl
  | absolute address =>
    have htext : (Operand.absolute address).text.toList
        = '$' :: ((Text.hexShort address).toList ++ []) := by
      simp [Operand.text]
    have hnumber := number?_of_spells (Text.spells_hexShort address) [] rfl
    rw [htext, operand?_of_number hnumber, indexed?, absolute?, hnumber]
    rfl
  | indexed base index =>
    have htext : (Operand.indexed base index).text.toList
        = '$' :: ((Text.hexShort base).toList ++ ',' :: index.text.toList) := by
      simp [Operand.text]
    have hnumber := number?_of_spells (Text.spells_hexShort base) (',' :: index.text.toList) rfl
    rw [htext, operand?_of_number hnumber, indexed?, hnumber]
    cases index <;> rfl
  | indirectIndexed pointer index =>
    cases index with
    | x =>
      have htext : (Operand.indirectIndexed pointer .x).text.toList
          = '(' :: '$' :: ((Text.hex2 pointer.toNat).toList ++ [',', 'X', ')']) := by
        simp [Operand.text]
      rw [htext, operand?_paren, indirectY?, indirectX?, openParen_dollar]
      simp only [Option.bind_eq_bind, Option.bind_some, byte?_hex2 pointer [',', 'X', ')'] rfl]
      rfl
    | y =>
      have htext : (Operand.indirectIndexed pointer .y).text.toList
          = '(' :: '$' :: ((Text.hex2 pointer.toNat).toList ++ [')', ',', 'Y']) := by
        simp [Operand.text]
      rw [htext, operand?_paren, indirectY?, openParen_dollar]
      simp only [Option.bind_eq_bind, Option.bind_some, byte?_hex2 pointer [')', ',', 'Y'] rfl]
      rfl
  | indirect address =>
    have htext : (Operand.indirect address).text.toList = '(' :: '$' :: ((Text.hex4 address).toList
        ++ [')']) := by
      simp [Operand.text]
    -- An address below 256 is a byte too, so the indexed forms fail only behind it.
    have hnumber := number?_of_spells (Text.spells_hex4 address) [')'] rfl
    rw [htext, operand?_paren, indirectY?, indirectX?, indirect?, openParen_dollar]
    simp only [Option.bind_eq_bind, Option.bind_some, byte?, hnumber]
    split <;> rfl
  | symbolic label =>
    obtain ⟨hname, haccumulator⟩ := hlegible
    rw [Operand.text, operand?_eq,
      List.findSome?_eq_none_iff.mpr (plainModes_of_name hname haccumulator), symbolic?, hname]
    simp [complete]

/-! ### Printed lines -/

theorem address?_hex4 (address : Address) (rest : List Char) :
    address? ('$' :: ((Text.hex4 address).toList ++ ':' :: rest)) = some (address, rest) := by
  have hhex : hexNumber? ('$' :: ((Text.hex4 address).toList ++ ':' :: rest))
      = some (address, ':' :: rest) :=
    have hspells := Text.spells_hex4 address
    digits?_append hspells.ne_nil hspells.isHexDigit hspells.value rfl
  simp [address?, hhex, skipColon]

theorem isGap_of_isSolid {c : Char} (h : Text.isSolid c = true) : isGap c = false := by
  rw [isGap, Bool.or_eq_false_iff, beq_eq_false_iff_ne, beq_eq_false_iff_ne]
  constructor <;> rintro rfl <;> revert h <;> decide

theorem skipGap_of_first {text : List Char} (h : text.head?.any Text.isSolid = true) :
    skipGap text = text := by
  cases text with
  | nil => rfl
  | cons c rest =>
    have hc : isGap c = false := isGap_of_isSolid h
    simp [skipGap, hc]

/-- The letters of a mnemonic are not taken for bytes. -/
theorem skipBytes_of_isAlpha {letters : List Char} (hlength : letters.length = 3)
    (halpha : ∀ c ∈ letters, c.isAlpha = true) (rest : List Char) :
    skipBytes (letters ++ rest) = letters ++ rest := by
  match letters with
  | [high, low, last] =>
    have hlast : isGap last = false :=
      isGap_of_isSolid
        (Text.isSolid_of_isNameChar (Text.isNameChar_of_isAlpha (halpha last (by simp))))
    have hgap : gap? (last :: rest) = none := by simp [gap?, hlast]
    simp only [List.cons_append, List.nil_append]
    rw [skipBytes]
    simp only [ite_eq_right_iff]
    intro _
    split
    · rename_i hsome
      rw [hgap] at hsome
      cases hsome
    · rfl

/-- The code of a line is what stands between the blanks around it and in front of a comment. -/
theorem code_framed {text : List Char} (h : Text.Framed text) {lead trail comment : List Char}
    (hlead : ∀ c ∈ lead, Text.isBlank c = true) (htrail : ∀ c ∈ trail, Text.isBlank c = true)
    (hcomment : comment.head?.all (fun c => !(c != ';')) = true) :
    code (lead ++ text ++ trail ++ comment) = text := by
  have hblank (c : Char) (hc : Text.isBlank c = true) : (c != ';') = true := by
    rw [bne_iff_ne]
    rintro rfl
    revert hc
    decide
  have hplain : ∀ c ∈ lead ++ text ++ trail, (c != ';') = true := by
    refine List.forall_mem_append.mpr ⟨List.forall_mem_append.mpr ⟨?_, h.plain⟩, ?_⟩
    · exact fun c hc => hblank c (hlead c hc)
    · exact fun c hc => hblank c (htrail c hc)
  rw [code, (Text.cut_append hplain hcomment).1, h.trim_eq hlead htrail]

theorem parts?_printed {mnemonic : Mnemonic} (hmnemonic : mnemonic.IsLegible) (address : Address)
    (rest : List Char) (hrest : rest.head?.all (fun c => !c.isAlpha) = true) :
    parts? ('$' :: ((Text.hex4 address).toList ++ ':' :: ' ' :: (mnemonic.text.toList ++ rest))) =
      match rest with
      | [] => some { label := none, address := some address, mnemonic, operand := none }
      | rest => (gap? rest).map fun operand =>
        { label := none, address := some address, mnemonic, operand := some operand } := by
  have hlabel (text : List Char) : optional label? ('$' :: text) = (none, '$' :: text) := rfl
  have hgap : skipGap (' ' :: (mnemonic.text.toList ++ rest)) = mnemonic.text.toList ++ rest := by
    obtain ⟨c, letters, hcons⟩ := List.exists_cons_of_ne_nil hmnemonic.printed_text.ne_nil
    have hfirst := hmnemonic.printed_text.first
    rw [hcons] at hfirst ⊢
    change skipGap (c :: (letters ++ rest)) = _
    exact skipGap_of_first hfirst
  have haddress : optional address?
      ('$' :: ((Text.hex4 address).toList ++ ':' :: ' ' :: (mnemonic.text.toList ++ rest)))
      = (some address, mnemonic.text.toList ++ rest) := by
    rw [optional, address?_hex4]
    exact congrArg (some address, ·) hgap
  obtain ⟨htake, hdrop⟩ := Text.cut_append hmnemonic.isAlpha hrest
  simp only [parts?, hlabel, haddress, skipBytes_of_isAlpha hmnemonic.length hmnemonic.isAlpha,
    htake, hdrop, hmnemonic.length, String.ofList_toList, hmnemonic.read]
  cases rest <;> rfl

end Scan

namespace Operand

theorem text_ne_nil {operand : Operand} (hlegible : operand.IsLegible)
    (hoperand : operand ≠ .implied) : operand.text.toList ≠ [] := by
  cases operand with
  | implied => exact absurd rfl hoperand
  | symbolic label =>
    intro hnil
    have hnil : label.toList = [] := hnil
    have hname := hlegible.1
    rw [hnil] at hname
    cases hname
  | indirectIndexed pointer index => cases index <;> simp [text]
  | _ => simp [text]

theorem printed_text {operand : Operand} (hlegible : operand.IsLegible)
    (hoperand : operand ≠ .implied) : Text.Printed operand.text.toList := by
  refine Text.printed_of_solid (text_ne_nil hlegible hoperand) ?_
  have hbyte (value : UInt8) := (Text.spells_hex2 value.toNat value.toNat_lt).isSolid
  have hsigns : ['#', '$', '(', ')', ',', 'A', 'X', 'Y'].all Text.isSolid = true := by decide
  simp only [List.all_cons, Bool.and_eq_true] at hsigns
  cases operand with
  | implied => exact absurd rfl hoperand
  | accumulator => simp [text, hsigns]
  | immediate value => simp [text, hbyte, hsigns]
  | absolute address => simp [text, (Text.spells_hexShort address).isSolid, hsigns]
  | indexed base index =>
    have hindex : index.text.toList.all Text.isSolid = true := by cases index <;> decide
    simp [text, (Text.spells_hexShort base).isSolid, hindex, hsigns]
  | indirectIndexed pointer index => cases index <;> simp [text, hbyte, hsigns]
  | indirect address => simp [text, (Text.spells_hex4 address).isSolid, hsigns]
  | symbolic label =>
    obtain ⟨-, -, hname⟩ := Text.of_takeName? hlegible.1
    exact List.all_eq_true.mpr fun c hc => Text.isSolid_of_isNameChar (hname c hc)

end Operand

namespace Operation

variable {operation : Operation}

theorem text_of_implied (h : operation.operand = .implied) :
    operation.text = operation.mnemonic.text := by
  rw [text, h]

theorem text_of_ne_implied (h : operation.operand ≠ .implied) :
    operation.text.toList
      = operation.mnemonic.text.toList ++ ' ' :: operation.operand.text.toList := by
  have htext : operation.text = operation.mnemonic.text ++ " " ++ operation.operand.text := by
    unfold text
    split
    · contradiction
    · rfl
  simp [htext]

theorem printed_text (h : operation.IsLegible) : Text.Printed operation.text.toList := by
  by_cases himplied : operation.operand = .implied
  · rw [text_of_implied himplied]
    exact h.mnemonic.printed_text
  · rw [text_of_ne_implied himplied]
    exact h.mnemonic.printed_text.append_space (operation.operand.printed_text h.operand himplied)

end Operation

namespace Instruction

variable {instruction : Instruction}

theorem toList_text (instruction : Instruction) :
    instruction.text.toList
      = '$' :: ((Text.hex4 instruction.address).toList
        ++ ':' :: ' ' :: instruction.toOperation.text.toList) := by
  simp [text]

theorem printed_text (h : instruction.toOperation.IsLegible) :
    Text.Printed instruction.text.toList := by
  have haddress : Text.Printed ('$' :: ((Text.hex4 instruction.address).toList ++ [':'])) := by
    refine Text.printed_of_solid (List.cons_ne_nil _ _) ?_
    have hsign : Text.isSolid '$' = true ∧ Text.isSolid ':' = true := by decide
    simp [(Text.spells_hex4 instruction.address).isSolid, hsign]
  have hprinted := haddress.append_space (Operation.printed_text h)
  rw [toList_text]
  simpa using hprinted

end Instruction

namespace Line

/-- A printed instruction is read back. -/
theorem scan_text {instruction : Instruction} (h : instruction.toOperation.IsLegible) :
    scan instruction.text
      = .ok (.operation none (some instruction.address) instruction.toOperation) := by
  have hprinted := Instruction.printed_text h
  have hcode : Scan.code instruction.text.toList = instruction.text.toList := by
    have hnone : ([] : List Char).head?.all (fun c => !(c != ';')) = true := rfl
    have hcode := Scan.code_framed hprinted.framed (List.forall_mem_nil _)
      (List.forall_mem_nil _) hnone
    rwa [List.nil_append, List.append_nil, List.append_nil] at hcode
  rw [scan, hcode, Instruction.toList_text]
  simp only
  have hlabel (rest : List Char) : Scan.complete (Scan.label? ('$' :: rest)) = none := rfl
  rw [hlabel]
  by_cases himplied : instruction.operand = .implied
  · have hparts := Scan.parts?_printed h.mnemonic instruction.address [] rfl
    rw [List.append_nil] at hparts
    rw [Operation.text_of_implied himplied, hparts, ← himplied]
    rfl
  · have hprinted := instruction.operand.printed_text h.operand himplied
    have hgap :
        Scan.gap? (' ' :: instruction.operand.text.toList) = some instruction.operand.text.toList :=
      congrArg some (Scan.skipGap_of_first hprinted.first)
    have hparts := Scan.parts?_printed h.mnemonic instruction.address
      (' ' :: instruction.operand.text.toList) rfl
    simp only [hgap, Option.map_some] at hparts
    rw [Operation.text_of_ne_implied himplied, hparts]
    simp only [Option.map_some, hprinted.trim_eq, Scan.operand?_text h.operand himplied]

/-- Whatever a line holds is legible. -/
theorem isLegible_of_scan {text : String} {label : Option String} {address : Option Address}
    {operation : Operation} (h : scan text = .ok (.operation label address operation)) :
    operation.IsLegible := by
  unfold scan at h
  split at h
  · cases h
  · split at h
    · cases h
    · split at h
      · cases h
      · rename_i parts hparts
        have hmnemonic := Scan.isLegible_mnemonic hparts
        split at h
        · cases h
          exact ⟨hmnemonic, trivial⟩
        · split at h
          · rename_i operand hoperand
            cases h
            exact ⟨hmnemonic, Scan.isLegible_operand hoperand⟩
          · cases h

end Line

end Lift6502
