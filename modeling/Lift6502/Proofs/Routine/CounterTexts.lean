import Lift6502.Proofs.Routine.StatementForms
import Lift6502.Proofs.Routine.Uses

/-!
# Operands with a counter or a parameter

Where the operand of repeated code varies, a loop has its first value and a multiple of the counter
in its place, and a template has a parameter. With a number in the place of the counter or the
parameter such a text means an operand again: the first one moved by so many strides, or the one
that the number was taken from.
-/

namespace Lift6502

/-! ### Texts with a counter -/

namespace Routine

/-- A counter times a stride, as it is written. -/
def scaled (counter : String) (stride : Int) : String :=
  match stride with
  | 1 => counter
  | stride => counter ++ " * " ++ Text.decimalInt stride

/-- An operand that moves by a stride, with a counter. -/
def movingText (symbols : SymbolTable) (counter : String) (stride : Int) : Operand → String
  | .immediate first =>
    if first = 0 then scaled counter stride
      else Text.decimal first.toNat ++ " + " ++ scaled counter stride
  | .absolute first => Reference.memoryText (symbols.dataName first) (scaled counter stride)
  | _ => scaled counter stride

variable {symbols : SymbolTable} {uses : List Use} {calls : List Address} {usage : Usage}

theorem folded_eq_movingText (h : usage.Covers symbols uses calls) {variation : Variation}
    {first : Operand} (hfirst : variation.values.head? = some first) :
    (folded symbols usage variation).2
      = movingText symbols unrollCounter (variation.stride.getD 1) first := by
  have hscaled : scaledCounter variation = scaled unrollCounter (variation.stride.getD 1) := rfl
  have hcovers := covers_folded h variation
  unfold folded at hcovers ⊢
  rw [hfirst] at hcovers ⊢
  cases first with
  | absolute address =>
    rw [movingText, ← hscaled]
    simp only at hcovers ⊢
    rw [hcovers.variableAt_eq]
    rfl
  | _ => rfl

end Routine

theorem isName_unrollCounter : Text.IsName Routine.unrollCounter :=
  Text.isName_of_toList rfl rfl (by simp)

section Counter

variable (new : String) (stride : Int)

theorem not_mentions_decimalInt {word : String} {c : Char} (hc : c ∈ word.toList)
    (hother : Text.isNumeral c = false) (number : Int) :
    ¬ Text.Mentions word (Text.decimalInt number) := by
  intro hmentions
  rw [Text.isNumeral_of_mem_decimalInt c (Text.mem_of_mentions hmentions c hc)] at hother
  cases hother

theorem replaceWord_scaled :
    Text.replaceWord Routine.unrollCounter new (Routine.scaled Routine.unrollCounter stride)
      = Routine.scaled new stride := by
  have hstride : Text.replaceWord Routine.unrollCounter new (Text.decimalInt stride)
      = Text.decimalInt stride :=
    Text.replaceWord_of_not_mentions new
      (not_mentions_decimalInt (c := 'I') (by decide) (by decide) stride)
  unfold Routine.scaled
  split
  · exact Text.replaceWord_self isName_unrollCounter new
  · rw [Text.replaceWord_product isName_unrollCounter,
      Text.replaceWord_self isName_unrollCounter, hstride]

/-- A number takes the place of the counter, unless the counter is the name of the variable too. -/
theorem replaceWord_movingText {symbols : SymbolTable} {operand : Operand}
    (hname : ∀ address, operand = .absolute address →
      Text.IsName (symbols.dataName address) ∧ symbols.dataName address ≠ Routine.unrollCounter) :
    Text.replaceWord Routine.unrollCounter new
      (Routine.movingText symbols Routine.unrollCounter stride operand)
      = Routine.movingText symbols new stride operand := by
  cases operand with
  | immediate first =>
    have hfirst : Text.replaceWord Routine.unrollCounter new (Text.decimal first.toNat)
        = Text.decimal first.toNat :=
      Text.replaceWord_of_not_mentions new
        (not_mentions_decimalInt (c := 'I') (by decide) (by decide) first.toNat)
    rw [Routine.movingText, Routine.movingText]
    split
    · exact replaceWord_scaled new stride
    · rw [Text.replaceWord_sum isName_unrollCounter, hfirst, replaceWord_scaled]
  | absolute first =>
    obtain ⟨hfirst, hother⟩ := hname first rfl
    rw [Routine.movingText, Routine.movingText, Text.replaceWord_memoryText isName_unrollCounter,
      Text.replaceWord_of_not_mentions new (hfirst.not_mentions hother), replaceWord_scaled]
  | _ => exact replaceWord_scaled new stride

theorem mentions_scaled :
    Text.Mentions Routine.unrollCounter (Routine.scaled Routine.unrollCounter stride) := by
  unfold Routine.scaled
  split
  · exact isName_unrollCounter.mentions_self
  · exact Text.mentions_product _ isName_unrollCounter.mentions_self

theorem mentions_movingText (symbols : SymbolTable) (operand : Operand) :
    Text.Mentions Routine.unrollCounter
      (Routine.movingText symbols Routine.unrollCounter stride operand) := by
  have hscaled := mentions_scaled stride
  cases operand with
  | immediate first =>
    rw [Routine.movingText]
    split
    · exact hscaled
    · exact Text.mentions_sum _ hscaled
  | absolute first => exact Text.mentions_memoryText _ hscaled
  | _ => exact hscaled

end Counter

/-! ### Values of texts with a number for the counter -/

section Values

variable (addresses : String → Option Address) (store : Store) {k : Nat} {stride : Int}

/-- What is needed to read numbers. -/
structure InRange (k : Nat) (stride : Int) : Prop where
  count : k ≤ 2147483647
  low : -2147483648 ≤ stride
  high : stride ≤ 2147483647

theorem exists_words_scaled (h : InRange k stride) :
    ∃ words, (Routine.scaled (Text.decimal k) stride).toList = [' '].intercalate words ∧
      (∀ word ∈ words, ' ' ∉ word) ∧
      words ≠ [] ∧ sum? (fun word => wordValue? addresses store (String.ofList word)) words
        = some (k * stride) := by
  have hcount : wordValue? addresses store (Text.decimal k) = some (k : Int) :=
    wordValue?_decimalInt addresses store k (by omega) (by have := h.count; omega)
  have hblank : ' ' ∉ (Text.decimal k).toList := blank_not_mem_decimalInt k
  unfold Routine.scaled
  split
  · refine ⟨[(Text.decimal k).toList], by simp, by simpa using hblank, by simp, ?_⟩
    rw [sum?, String.ofList_toList, hcount, Int.mul_one]
  · refine ⟨[(Text.decimal k).toList, ['*'], (Text.decimalInt stride).toList], ?_, ?_, by simp, ?_⟩
    · simp [List.intercalate, List.intersperse]
    · simpa using ⟨hblank, blank_not_mem_decimalInt stride⟩
    · rw [sum?, String.ofList_toList, String.ofList_toList, hcount, Option.bind_some,
        wordValue?_decimalInt addresses store stride h.low h.high, Option.map_some]

theorem sumValue?_scaled (h : InRange k stride) :
    sumValue? addresses store (Routine.scaled (Text.decimal k) stride) = some (k * stride) := by
  obtain ⟨words, htext, hblank, hne, hsum⟩ := exists_words_scaled addresses store h
  rw [sumValue?_of_intercalate addresses store htext hblank hne, hsum]

theorem sumValue?_add_scaled (h : InRange k stride) (first : UInt8) :
    sumValue? addresses store (Text.decimal first.toNat ++ " + "
      ++ Routine.scaled (Text.decimal k) stride)
      = some (first.toNat + k * stride) := by
  obtain ⟨words, htext, hblank, hne, hsum⟩ := exists_words_scaled addresses store h
  have hlt := first.toNat_lt
  have hfirst : wordValue? addresses store (Text.decimal first.toNat) = some (first.toNat : Int) :=
    wordValue?_decimalInt addresses store first.toNat (by omega) (by omega)
  have hwhole : (Text.decimal first.toNat ++ " + " ++ Routine.scaled (Text.decimal k) stride).toList
      = [' '].intercalate ((Text.decimal first.toNat).toList :: ['+'] :: words) := by
    obtain ⟨word, rest, rfl⟩ := List.exists_cons_of_ne_nil hne
    simp [htext, List.intercalate, List.intersperse]
  have hwords : ∀ word ∈ (Text.decimal first.toNat).toList :: ['+'] :: words, ' ' ∉ word := by
    simpa using ⟨blank_not_mem_decimalInt first.toNat, hblank⟩
  rw [sumValue?_of_intercalate addresses store hwhole hwords (List.cons_ne_nil _ _), sum?,
    String.ofList_toList, hfirst, Option.bind_some, hsum, Option.map_some]

end Values

/-! ### What the texts mean -/

section Meaning

variable {addresses : String → Option Address} {k : Nat} {stride : Int}

/-- A text of the form of a place means an operand if it names the cells that the operand names. -/
theorem Means.of_cell {text : String} {operand : Operand}
    (hvalue : ∀ store, (Reference.read text).value? addresses store
      = ((Reference.read text).cell? addresses store).map store.get)
    (hoperand : ∀ store, operand.valueIn? store = (operand.cellIn? store).map store.get)
    (hcell : ∀ store, (Reference.read text).cell? addresses store = operand.cellIn? store) :
    Means addresses text operand := by
  refine ⟨fun store value h => ?_, fun store cell h => ?_⟩
  · rw [hvalue, hcell, ← hoperand, h]
  · rw [hcell, h]

theorem head?_decimal_append (number : Nat) (rest : String) :
    (Text.decimal number ++ rest).toList.head? ≠ some '[' := by
  obtain ⟨c, digits, hdigits, hdigit⟩ := Text.exists_decimalDigits number
  rw [String.toList_append, Text.decimal, String.toList_ofList, hdigits, List.cons_append,
    List.head?_cons]
  rintro hbracket
  rw [Option.some.inj hbracket] at hdigit
  cases hdigit

theorem head?_scaled (k : Nat) (stride : Int) :
    (Routine.scaled (Text.decimal k) stride).toList.head? ≠ some '[' := by
  unfold Routine.scaled
  split
  · have h := head?_decimal_append k ""
    rwa [String.append_empty] at h
  · rw [String.append_assoc]
    exact head?_decimal_append k _

theorem plus_not_mem_scaled (k : Nat) (stride : Int) :
    '+' ∉ (Routine.scaled (Text.decimal k) stride).toList := by
  have hnumeral (number : Int) : '+' ∉ (Text.decimalInt number).toList :=
    fun hplus => absurd (Text.isNumeral_of_mem_decimalInt '+' hplus) (by decide)
  have hcount : '+' ∉ (Text.decimal k).toList := hnumeral k
  unfold Routine.scaled
  split
  · exact hcount
  · simpa using ⟨hcount, hnumeral stride⟩

/-- A value that moves is what it has become after so many strides. -/
theorem means_moving_immediate (symbols : SymbolTable) (h : InRange k stride) {first value : UInt8}
    (hvalue : (value.toNat : Int) = first.toNat + k * stride) :
    Means addresses (Routine.movingText symbols (Text.decimal k) stride (.immediate first))
      (.immediate value) := by
  refine ⟨fun store found hfound => ?_, fun store cell hcell => by cases hcell⟩
  obtain rfl := Option.some.inj hfound
  rw [Routine.movingText]
  split
  · rename_i hzero
    have hsum : (value.toNat : Int) = k * stride := by simpa [hzero] using hvalue
    rw [Reference.read_of_head? (head?_scaled k stride), Reference.value?,
      sumValue?_scaled addresses store h, ← hsum, Option.map_some, ofInt_toNat_byte]
  · rw [Reference.read_of_head? (by rw [String.append_assoc]; exact head?_decimal_append _ _),
      Reference.value?, sumValue?_add_scaled addresses store h, ← hvalue, Option.map_some,
      ofInt_toNat_byte]

theorem head?_ne_of_isName {name : String} (hname : Text.IsName name) :
    name.toList.head? ≠ some '(' := by
  intro hhead
  have hstart := hname.start
  rw [hhead] at hstart
  cases hstart

/-- An address that moves is what it has become after so many strides. -/
theorem means_moving_absolute {symbols : SymbolTable} (h : InRange k stride)
    {first address : Address} (hname : Text.IsName (symbols.dataName first))
    (hfirst : addresses (symbols.dataName first) = some first)
    (haddress : (address.toNat : Int) = first.toNat + k * stride) :
    Means addresses (Routine.movingText symbols (Text.decimal k) stride (.absolute first))
      (.absolute address) := by
  have hread : Reference.read (Routine.movingText symbols (Text.decimal k) stride (.absolute first))
      = .indexed (symbols.dataName first) (Routine.scaled (Text.decimal k) stride) :=
    Reference.read_memoryText (head?_ne_of_isName hname) (plus_not_mem_scaled k stride)
  have hstart : addressOf? addresses (symbols.dataName first) = some first := by
    rw [addressOf?, hname.readInt?_eq_none]
    exact hfirst
  refine Means.of_cell (fun store => by rw [hread]; rfl) (fun store => rfl) fun store => ?_
  rw [hread, Reference.cell?, hstart, sumValue?_scaled addresses store h, Option.bind_some,
    Option.map_some, ← haddress, ofInt_toNat_word]
  rfl

/-- An address that is handed over as a number. -/
theorem means_pointerText {base : Address} {index : String} {operand : Operand}
    (hindex : '+' ∉ index.toList)
    (hoperand : ∀ store, operand.valueIn? store = (operand.cellIn? store).map store.get)
    (hcell : ∀ store, (sumValue? addresses store index).map
      (fun offset => Cell.memory (UInt16.ofInt (base.toNat + offset)))
      = operand.cellIn? store) :
    Means addresses (Reference.pointerText (Text.decimal base.toNat) index) operand := by
  have hlt := base.toNat_lt
  have hbase : Text.readInt? (Text.decimal base.toNat) = some (base.toNat : Int) :=
    Text.readInt?_decimalInt base.toNat (by omega) (by omega)
  have hread := Reference.read_pointerText (Text.decimal base.toNat) hindex
  refine Means.of_cell (fun store => by rw [hread]; rfl) hoperand fun store => ?_
  rw [hread, Reference.cell?, pointedAddress?, hbase, Option.bind_some]
  exact hcell store

theorem means_pointer_absolute (address : Address) :
    Means addresses (Reference.pointerText (Text.decimal address.toNat) "0")
      (.absolute address) := by
  refine means_pointerText (by decide) (fun store => rfl) fun store => ?_
  have hzero : sumValue? addresses store (Text.decimalInt 0) = some 0 :=
    sumValue?_decimalInt addresses store 0 (by decide) (by decide)
  have htext : "0" = Text.decimalInt 0 := by decide +kernel
  rw [htext, hzero, Option.map_some, Int.add_zero, ofInt_toNat_word]
  rfl

theorem means_pointer_indexed (base : Address) (index : IndexRegister) :
    Means addresses (Reference.pointerText (Text.decimal base.toNat) index.text)
      (.indexed base index) := by
  refine means_pointerText (by cases index <;> decide) (fun store => rfl) fun store => ?_
  rw [IndexRegister.text, sumValue?_register, Option.map_some, ofInt_add_index]
  rfl

theorem means_decimal (value : UInt8) :
    Means addresses (Text.decimal value.toNat) (.immediate value) := by
  refine ⟨fun store found hfound => ?_, fun store cell hcell => by cases hcell⟩
  rw [Reference.value?_decimal]
  exact hfound

/-- A variable that has the name of the counter is lost. -/
theorem means_nothing (addresses : String → Option Address) (k : Nat) (stride : Int)
    (hk : k ≤ 2147483647) (store : Store) :
    (Reference.read (Reference.memoryText (Text.decimal k)
      (Routine.scaled (Text.decimal k) stride))).cell? addresses store = none ∧
      (Reference.read (Reference.memoryText (Text.decimal k)
        (Routine.scaled (Text.decimal k) stride))).value? addresses store
        = none := by
  have hnumber : Text.readInt? (Text.decimal k) = some (k : Int) :=
    Text.readInt?_decimalInt k (by omega) (by omega)
  have hnumeral : ∀ c ∈ (Text.decimalInt k).toList, Text.isNumeral c = true :=
    Text.isNumeral_of_mem_decimalInt
  have hhead : (Text.decimal k).toList.head? ≠ some '(' :=
    fun hhead => absurd (hnumeral '(' (List.mem_of_head? hhead)) (by decide)
  rw [Reference.read_memoryText hhead (plus_not_mem_scaled k stride)]
  simp [Reference.cell?, Reference.value?, addressOf?, hnumber]

end Meaning

/-! ### Parameters -/

theorem isName_parameterName (slot : Nat) : Text.IsName (Routine.parameterName slot) := by
  have hletter : Text.IsName "P" := Text.isName_of_toList rfl rfl (by simp)
  exact hletter.append Text.isNameChar_of_mem_decimal

theorem letter_mem_parameterName (slot : Nat) : 'P' ∈ (Routine.parameterName slot).toList := by
  simp [Routine.parameterName]

section Parameter

variable {operand : Operand} (hnumbered : operand.mode.isNumbered = true) (slot : Nat)
include hnumbered

theorem mentions_parameterText :
    Text.Mentions (Routine.parameterName slot) (Routine.parameterText operand slot) := by
  have hself := (isName_parameterName slot).mentions_self
  cases operand with
  | immediate value => exact hself
  | absolute address | indexed base index => exact Text.mentions_pointerText _ hself
  | _ => cases hnumbered

/-- With the argument of a call for the parameter, the text means the operand that the argument was
taken from. -/
theorem means_parameterText (addresses : String → Option Address) {other : Operand}
    (hmode : other.mode = operand.mode) :
    Means addresses
      (Text.replaceWord (Routine.parameterName slot) (Routine.argumentText other)
        (Routine.parameterText operand slot)) other := by
  have hname := isName_parameterName slot
  have hindex {index : String} (hletter : 'P' ∉ index.toList) :
      Text.replaceWord (Routine.parameterName slot) (Routine.argumentText other) index = index :=
    Text.replaceWord_of_not_mentions _ fun hmentions =>
      hletter (Text.mem_of_mentions hmentions 'P' (letter_mem_parameterName slot))
  cases operand with
  | immediate value =>
    cases other <;> cases hmode
    rw [Routine.parameterText, Text.replaceWord_self hname]
    exact means_decimal _
  | absolute address =>
    cases other <;> cases hmode
    have htext : Routine.parameterText (.absolute address) slot
        = Reference.pointerText (Routine.parameterName slot) "0" := rfl
    rw [htext, Text.replaceWord_pointerText hname, Text.replaceWord_self hname, hindex (by decide)]
    exact means_pointer_absolute _
  | indexed base index =>
    cases other <;> cases hmode
    rw [Routine.parameterText, Text.replaceWord_pointerText hname, Text.replaceWord_self hname,
      hindex (by cases index <;> decide)]
    exact means_pointer_indexed _ index
  | _ => cases hnumbered

end Parameter

end Lift6502
