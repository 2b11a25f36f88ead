import Lift6502.Proofs.Listing.Spelled

/-!
# Every line of the grammar is read

Labels, bare addresses, bytes and mnemonics may all begin with the same letters. They are told apart
by how long they are and by the colon behind them, so every line of the grammar is read as what it
means.
-/

namespace Lift6502

namespace Scan

/-- Whether a text begins with a short word that is neither marked as a number nor followed by a
colon. -/
structure Opening (text : List Char) : Prop where
  first : text.head?.any Text.isNameChar = true
  short : (text.takeWhile Text.isNameChar).length < 4
  noColon : (skipGap (text.dropWhile Text.isNameChar)).head? ≠ some ':'
  unmarked : hexNumber? text = none

theorem char?_eq_none {expected : Char} {text : List Char} (h : text.head? ≠ some expected) :
    char? expected text = none := by
  cases text with
  | nil => rfl
  | cons c rest =>
    refine if_neg fun heq => h ?_
    rw [eq_of_beq heq]
    rfl

/-- Four digits in a row are a word of at least four characters. -/
theorem fourDigits?_eq_none {text : List Char} (h : (text.takeWhile Text.isNameChar).length < 4) :
    fourDigits? text = none := by
  unfold fourDigits?
  split
  · rename_i a b c d rest
    refine if_neg fun hdigits => ?_
    have htake : (a :: b :: c :: d :: rest).takeWhile Text.isNameChar
        = [a, b, c, d] ++ rest.takeWhile Text.isNameChar :=
      List.takeWhile_append_of_pos fun digit hdigit =>
        Text.isNameChar_of_isHexDigit (List.all_eq_true.mp hdigits digit hdigit)
    rw [htake, List.length_append] at h
    exact absurd h (by simp)
  · rfl

namespace Opening

variable {text : List Char}

theorem first_isSolid (h : Opening text) : text.head?.any Text.isSolid = true := by
  obtain ⟨c, hc, hname⟩ := (Option.any_eq_true _ _).mp h.first
  exact (Option.any_eq_true _ _).mpr ⟨c, hc, Text.isSolid_of_isNameChar hname⟩

theorem head?_ne {c : Char} (h : Opening text) (hc : Text.isNameChar c = false) :
    text.head? ≠ some c := by
  intro hhead
  have hfirst := h.first
  rw [hhead] at hfirst
  exact absurd hfirst (by simp [hc])

theorem label?_eq_none (h : Opening text) : label? text = none := by
  cases text with
  | nil => rfl
  | cons c rest =>
    by_cases hstart : Text.isNameStart c = true
    · have hcolon := h.noColon
      rw [List.dropWhile_cons_of_pos (Text.isNameChar_of_isNameStart hstart)] at hcolon
      rw [label?, Text.takeName?, if_pos hstart]
      simp only [char?_eq_none hcolon, Option.map_none, ite_self]
    · rw [label?, Text.takeName?, if_neg hstart]

theorem address?_eq_none (h : Opening text) : address? text = none := by
  have hdot : ∀ rest, text = '.' :: rest → False := by
    rintro rest rfl
    exact h.head?_ne (by decide) rfl
  rw [address?, h.unmarked, fourDigits?_eq_none h.short]
  · rfl
  · exact hdot

end Opening

end Scan

namespace Grammar

/-! ### Labels and addresses -/

theorem Label.label?_eq (label : Label) (rest : List Char) :
    Scan.label? (label.text ++ rest) = some (String.ofList label.name.val, rest) := by
  have htext : label.text ++ rest = label.name.val ++ (label.gap.val ++ ':' :: rest) := by
    simp [text]
  have hended : Text.Ended (label.gap.val ++ ':' :: rest) := ended_append label.gap rfl
  have hbare : Scan.isBareAddress label.name.val = false := by
    refine Bool.eq_false_iff.mpr fun hbare => label.notAddress ?_
    rw [Scan.isBareAddress, Bool.and_eq_true, beq_iff_eq, List.all_eq_true] at hbare
    exact hbare
  rw [htext, Scan.label?, Text.takeName?_append label.name.property.1 label.name.property.2 hended]
  simp only [hbare, skipGap_append label.gap (show (':' :: rest).head?.any Text.isSolid
    = true from rfl)]
  rfl

namespace FourDigits

variable (digits : FourDigits)

/-- The same digits behind a mark. -/
def numeral : Numeral where
  style := .dollar
  digits := digits.val
  nonempty := List.ne_nil_of_length_eq_add_one digits.property.1
  isDigit := digits.property.2
  bound := by
    have hworth := worth_lt digits.property.2
    rw [digits.property.1] at hworth
    exact hworth

theorem fourDigits?_eq (rest : List Char) :
    Scan.fourDigits? (digits.val ++ rest) = some (UInt16.ofNat (worth 16 digits.val), rest) := by
  have hword : Text.wordOfDigits? 16 digits.val = some (UInt16.ofNat (worth 16 digits.val)) :=
    (numeral digits).wordOfDigits?_eq
  have hall := List.all_eq_true.mpr digits.property.2
  obtain ⟨chars, hlength, hdigits⟩ := digits
  match chars with
  | [a, b, c, d] =>
    simp only [List.cons_append, List.nil_append, Scan.fourDigits?, hall, hword, if_true,
      Option.map_some]

theorem label?_eq_none {rest : List Char} (hrest : Text.Ended rest) :
    Scan.label? (digits.val ++ rest) = none := by
  have hbare : Scan.isBareAddress digits.val = true := by
    rw [Scan.isBareAddress, Bool.and_eq_true, beq_iff_eq, List.all_eq_true]
    exact digits.property
  have hname : ∀ c ∈ digits.val, Text.isNameChar c = true :=
    fun c hc => Text.isNameChar_of_isHexDigit (digits.property.2 c hc)
  by_cases hstart : digits.val.head?.any Text.isNameStart = true
  · rw [Scan.label?, Text.takeName?_append hstart hname hrest]
    exact if_pos hbare
  · obtain ⟨c, tail, hcons⟩ :=
      List.exists_cons_of_ne_nil (List.ne_nil_of_length_eq_add_one digits.property.1)
    have hnot : ¬ Text.isNameStart c = true := by rwa [hcons] at hstart
    rw [hcons, List.cons_append, Scan.label?, Text.takeName?, if_neg hnot]

end FourDigits

theorem skipColon_break (gap : Break) (rest : List Char) :
    Scan.skipColon (gap.val ++ rest) = gap.val ++ rest := by
  obtain ⟨chars, hne, hgap⟩ := gap
  obtain ⟨c, tail, rfl⟩ := List.exists_cons_of_ne_nil hne
  have hc := (List.forall_mem_cons.mp hgap).1
  unfold Scan.skipColon
  split
  · rename_i heq
    obtain ⟨rfl, -⟩ := List.cons.inj heq
    exact absurd hc (by decide)
  · rfl

namespace Place

variable (place : Place)

theorem address?_eq (gap : Break) (rest : List Char) :
    Scan.address? (place.text ++ (gap.val ++ rest)) = some (place.address, gap.val ++ rest) := by
  cases place with
  | marked numeral hexadecimal colon =>
    cases colon with
    | false =>
      have hhex := numeral.hexNumber?_eq hexadecimal (ended_break gap rest)
      rw [text, Scan.address?.eq_def, if_neg Bool.false_ne_true, List.append_nil, hhex]
      show some (numeral.word, Scan.skipColon (gap.val ++ rest))
          = some (numeral.word, gap.val ++ rest)
      rw [skipColon_break]
    | true =>
      have hhex :=
        numeral.hexNumber?_eq hexadecimal (show Text.Ended (':' :: (gap.val ++ rest)) from rfl)
      rw [text, Scan.address?.eq_def, if_pos rfl, List.append_assoc, List.singleton_append, hhex]
      rfl
  | bare digits =>
    have hhex :=
      hexNumber?_of_digits (List.ne_nil_of_length_eq_add_one digits.property.1) digits.property.2
      (show Text.Ended (':' :: (gap.val ++ rest)) from rfl)
    have hfour := FourDigits.fourDigits?_eq digits (':' :: (gap.val ++ rest))
    rw [text, Scan.address?.eq_def, List.append_assoc, List.singleton_append, hhex, hfour]
    rfl
  | dotted digits =>
    -- The dot keeps the two forms that are tried before from matching.
    have hhex : Scan.hexNumber? ('.' :: (digits.val ++ (gap.val ++ rest))) = none := rfl
    have hfour : Scan.fourDigits? ('.' :: (digits.val ++ (gap.val ++ rest))) = none :=
      Scan.fourDigits?_eq_none (show ([] : List Char).length < 4 by decide)
    rw [text, Scan.address?.eq_def, List.cons_append, hhex, hfour]
    exact FourDigits.fourDigits?_eq digits (gap.val ++ rest)

theorem label?_eq_none (gap : Break) (rest : List Char) :
    Scan.label? (place.text ++ (gap.val ++ rest)) = none := by
  cases place with
  | marked numeral hexadecimal colon =>
    rw [text, Numeral.text]
    cases hstyle : numeral.style with
    | dollar | lowerHex | upperHex => rfl
    | percent | plain =>
      rw [hstyle] at hexadecimal
      cases hexadecimal
  | bare digits =>
    rw [text, List.append_assoc]
    exact FourDigits.label?_eq_none digits rfl
  | dotted digits => rfl

theorem framed_text : Text.Framed place.text := by
  have hdigits (digits : FourDigits) : ∀ c ∈ digits.val, Text.isSolid c = true :=
    fun c hc => Text.isSolid_of_isNameChar (Text.isNameChar_of_isHexDigit (digits.property.2 c hc))
  cases place with
  | marked numeral hexadecimal colon =>
    cases colon with
    | false =>
      rw [text, if_neg Bool.false_ne_true, List.append_nil]
      exact numeral.framed_text
    | true =>
      apply Text.framed_of_solid (by simp [text])
      exact List.forall_mem_append.mpr ⟨fun c hc => numeral.isSolid_of_mem_text hc,
        List.forall_mem_singleton.mpr (by decide)⟩
  | bare digits =>
    apply Text.framed_of_solid (by simp [text])
    exact List.forall_mem_append.mpr ⟨hdigits digits, List.forall_mem_singleton.mpr (by decide)⟩
  | dotted digits =>
    apply Text.framed_of_solid (by simp [text])
    exact List.forall_mem_cons.mpr ⟨by decide, hdigits digits⟩

end Place

/-! ### Bytes -/

theorem Column.isHexDigit (column : Column) :
    ∀ c ∈ [column.high, column.low], Text.isHexDigit c = true := by
  rw [List.forall_mem_cons, List.forall_mem_singleton]
  exact ⟨column.highDigit, column.lowDigit⟩

theorem Column.opening_append (column : Column) {text : List Char} (h : Scan.Opening text) :
    Scan.Opening (column.text ++ text) := by
  have hended := ended_break column.gap text
  obtain ⟨htake, hdrop⟩ :=
    Text.cut_append (fun c hc => Text.isNameChar_of_isHexDigit (column.isHexDigit c hc)) hended
  show Scan.Opening ([column.high, column.low] ++ (column.gap.val ++ text))
  constructor
  case first => exact Text.isNameChar_of_isHexDigit column.highDigit
  case short =>
    rw [htake]
    show 2 < 4
    decide
  case noColon =>
    rw [hdrop, skipGap_break column.gap h.first_isSolid]
    exact h.head?_ne (by decide)
  case unmarked => exact hexNumber?_of_digits (List.cons_ne_nil _ _) column.isHexDigit hended

theorem opening_columns (columns : List Column) {text : List Char} (h : Scan.Opening text) :
    Scan.Opening (columns.flatMap Column.text ++ text) := by
  induction columns with
  | nil => exact h
  | cons column rest ih =>
    rw [List.flatMap_cons, List.append_assoc]
    exact column.opening_append ih

theorem skipBytes_columns (columns : List Column) {text : List Char} (h : Scan.Opening text)
    (hbytes : Scan.skipBytes text = text) :
    Scan.skipBytes (columns.flatMap Column.text ++ text) = text := by
  induction columns with
  | nil => exact hbytes
  | cons column rest ih =>
    have hgap := gap?_append column.gap (opening_columns rest h).first_isSolid
    rw [List.flatMap_cons, List.append_assoc, Column.text, List.cons_append, List.cons_append,
      Scan.skipBytes, column.highDigit, column.lowDigit]
    simp only [Bool.and_self, if_true]
    split
    · rename_i after hafter
      rw [hgap] at hafter
      cases hafter
      exact ih
    · rename_i hnone
      rw [hgap] at hnone
      cases hnone

theorem framed_columns (columns : List Column) {text : List Char} (h : Text.Framed text) :
    Text.Framed (columns.flatMap Column.text ++ text) := by
  induction columns with
  | nil => exact h
  | cons column rest ih =>
    have hbyte : Text.Framed [column.high, column.low] :=
      Text.framed_of_solid (List.cons_ne_nil _ _) fun c hc =>
        Text.isSolid_of_isNameChar (Text.isNameChar_of_isHexDigit (column.isHexDigit c hc))
    rw [List.flatMap_cons, List.append_assoc]
    exact hbyte.append (plain_of_break column.gap) ih

/-! ### Whole lines -/

namespace LineForm

variable (line : LineForm)

theorem ended_operandText : Text.Ended line.operandText := by
  unfold operandText
  cases line.operand with
  | none => exact Text.ended_nil
  | some found => exact ended_break found.1 found.2.text

theorem opening_statement : Scan.Opening line.statementText := by
  unfold statementText
  have hname : ∀ c ∈ line.mnemonic.val, Text.isNameChar c = true :=
    fun c hc => Text.isNameChar_of_isAlpha (line.mnemonic.property.2 c hc)
  obtain ⟨htake, hdrop⟩ := Text.cut_append hname line.ended_operandText
  obtain ⟨c, tail, hcons⟩ :=
    List.exists_cons_of_ne_nil (List.ne_nil_of_length_eq_add_one line.mnemonic.property.1)
  have hc : c.isAlpha = true := line.mnemonic.property.2 c (hcons ▸ List.mem_cons_self)
  have hne {expected : Char} (hexpected : expected.isAlpha = false) : c ≠ expected := by
    rintro rfl
    rw [hexpected] at hc
    cases hc
  constructor
  case first =>
    rw [hcons]
    exact Text.isNameChar_of_isAlpha hc
  case short =>
    rw [htake, line.mnemonic.property.1]
    decide
  case noColon =>
    rw [hdrop, operandText]
    cases line.operand with
    | none => exact fun h => nomatch h
    | some found =>
      show (Scan.skipGap (found.1.val ++ found.2.text)).head? ≠ some ':'
      rw [skipGap_break found.1 found.2.framed_text.first]
      exact found.2.head?_ne_colon
  case unmarked =>
    rw [hcons]
    exact Scan.hexNumber?_eq_none (hne (by decide)) (.inl (hne (by decide)))

theorem framed_statement : Text.Framed line.statementText := by
  have hmnemonic : Text.Framed line.mnemonic.val := by
    apply Text.framed_of_solid (List.ne_nil_of_length_eq_add_one line.mnemonic.property.1)
    intro c hc
    exact Text.isSolid_of_isNameChar (Text.isNameChar_of_isAlpha (line.mnemonic.property.2 c hc))
  unfold statementText operandText
  cases line.operand with
  | none =>
    show Text.Framed (line.mnemonic.val ++ [])
    rw [List.append_nil]
    exact hmnemonic
  | some found =>
    have hframed := hmnemonic.append (plain_of_break found.1) found.2.framed_text
    rwa [List.append_assoc] at hframed

theorem opening_dump : Scan.Opening line.dumpText :=
  opening_columns line.columns line.opening_statement

theorem framed_placed : Text.Framed line.placedText := by
  have hcolumns := framed_columns line.columns line.framed_statement
  unfold placedText placeText
  cases line.place with
  | none => exact hcolumns
  | some found =>
    exact found.1.framed_text.append (plain_of_break found.2) hcolumns

theorem framed_code : Text.Framed line.code := by
  unfold code labelText
  cases line.label with
  | none => exact line.framed_placed
  | some found =>
    have hlabel : Text.Framed found.1.text :=
      (framed_name found.1.name).append (plain_of_gap found.1.gap)
        (Text.framed_singleton (by decide))
    exact hlabel.append (plain_of_gap found.2) line.framed_placed

theorem code_text : Scan.code line.text.toList = line.code := by
  have hcomment : line.commentText.head?.all (fun c => !(c != ';')) = true := by
    unfold commentText
    cases line.comment <;> rfl
  rw [text, String.toList_ofList]
  exact Scan.code_framed line.framed_code line.lead.property line.trail.property hcomment

theorem optional_place : Scan.optional Scan.address? line.placedText
    = (line.place.map fun (place, _) => place.address, line.dumpText) := by
  unfold placedText placeText
  cases line.place with
  | none =>
    show Scan.optional Scan.address? line.dumpText = _
    rw [Scan.optional, line.opening_dump.address?_eq_none]
    rfl
  | some found =>
    obtain ⟨place, gap⟩ := found
    show Scan.optional Scan.address? (place.text ++ gap.val ++ line.dumpText) = _
    rw [Scan.optional, List.append_assoc, place.address?_eq]
    exact congrArg (some place.address, ·) (skipGap_break gap line.opening_dump.first_isSolid)

theorem label?_placed : Scan.label? line.placedText = none := by
  unfold placedText placeText
  cases line.place with
  | none => exact line.opening_dump.label?_eq_none
  | some found =>
    rw [Option.map_some, Option.getD_some, List.append_assoc]
    exact found.1.label?_eq_none found.2 _

theorem optional_label :
    Scan.optional Scan.label? line.code
      = (line.label.map fun (label, _) => String.ofList label.name.val, line.placedText) := by
  unfold code labelText
  cases line.label with
  | none =>
    rw [Option.map_none, Option.getD_none, List.nil_append, Scan.optional, line.label?_placed]
    rfl
  | some found =>
    obtain ⟨label, gap⟩ := found
    rw [Option.map_some, Option.getD_some, List.append_assoc, Scan.optional, label.label?_eq]
    exact congrArg (some (String.ofList label.name.val), ·)
      (skipGap_append gap line.framed_placed.first)

theorem parts?_code : Scan.parts? line.code = some
    { label := line.label.map fun (label, _) => String.ofList label.name.val
      address := line.place.map fun (place, _) => place.address
      mnemonic := Mnemonic.read (String.ofList line.mnemonic.val)
      operand := line.operand.map fun (_, operand) => operand.text } := by
  have hbytes :=
    Scan.skipBytes_of_isAlpha line.mnemonic.property.1 line.mnemonic.property.2 line.operandText
  have hcolumns : Scan.skipBytes line.dumpText = line.mnemonic.val ++ line.operandText :=
    skipBytes_columns line.columns line.opening_statement hbytes
  have hended := line.ended_operandText.head?_all fun _ h => Text.isNameChar_of_isAlpha h
  obtain ⟨htake, hdrop⟩ := Text.cut_append line.mnemonic.property.2 hended
  simp only [Scan.parts?, optional_label, optional_place, hcolumns, htake, hdrop,
    line.mnemonic.property.1, beq_self_eq_true, if_true]
  unfold operandText
  cases line.operand with
  | none => rfl
  | some found =>
    obtain ⟨gap, operand⟩ := found
    have hgap := gap?_append gap operand.framed_text.first
    simp only [Option.map_some, Option.getD_some]
    split
    · rename_i hnil
      rw [hnil] at hgap
      cases hgap
    · rw [hgap]
      rfl

/-- A line of the grammar is not a label alone: behind its label it goes on. -/
theorem complete_label?_code : Scan.complete (Scan.label? line.code) = none := by
  unfold code labelText
  cases line.label with
  | none =>
    rw [Option.map_none, Option.getD_none, List.nil_append, line.label?_placed]
    rfl
  | some found =>
    have hne := List.append_ne_nil_of_right_ne_nil found.2.val line.framed_placed.ne_nil
    obtain ⟨c, rest, hcons⟩ := List.exists_cons_of_ne_nil hne
    rw [Option.map_some, Option.getD_some, List.append_assoc, found.1.label?_eq, hcons]
    rfl

/-- Every line of the grammar is read as what it means. -/
theorem scan_text_eq_meaning : Line.scan line.text = .ok line.meaning := by
  have hlabel := line.complete_label?_code
  have hparts := line.parts?_code
  obtain ⟨c, rest, hcons⟩ := List.exists_cons_of_ne_nil line.framed_code.ne_nil
  rw [hcons] at hlabel hparts
  rw [Line.scan, line.code_text, hcons]
  simp only [hlabel, hparts, meaning]
  cases line.operand with
  | none => rfl
  | some found =>
    have htrim := found.2.framed_text.trim_eq (List.forall_mem_nil _) (List.forall_mem_nil _)
    rw [List.nil_append, List.append_nil] at htrim
    simp only [Option.map_some, htrim, found.2.operand?_eq, Option.getD_some]

example : (Line.scan "\tadc :.0ADC de ad  adc\t( 0x0FE ,x ) ; DEC").toOption
    = some (.operation (some "adc") (some 0x0ADC) ⟨.adc, .indirectIndexed 0xFE .x⟩) := by
  decide +kernel

end LineForm

end Grammar

end Lift6502
