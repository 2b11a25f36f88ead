import Lift6502.Proofs.Machine.Effects
import Lift6502.Proofs.Text.Decimals
import Lift6502.Proofs.Text.Words
import Lift6502.Tree.Node

/-!
# What the texts of a statement mean

A number stands for itself, `A`, `X` and `Y` for the registers, and any other name for the variable
at its address. A text `[base + index]` is an element of the variable `base`, and `[(base) + index]`
is the byte behind an address, given as a number or held by a variable. Indices and values may be
sums, with a product as the last term. With that an assignment or a test is a change of registers
and memory.
-/

namespace Lift6502

def Register.read? (text : String) : Option Register :=
  [.a, .x, .y].find? fun register => register.text == text

theorem Register.read?_text (register : Register) : read? register.text = some register := by
  cases register <;> decide

namespace Operator

def text : Operator → String
  | add => "+"
  | subtract => "-"
  | multiply => "*"
  | divide => "/"
  | and => "AND"
  | or => "OR"
  | xor => "XOR"

def read? (text : String) : Option Operator :=
  [add, subtract, multiply, divide, and, or, xor].find? fun operator => operator.text == text

theorem read?_text (operator : Operator) : read? operator.text = some operator := by
  cases operator <;> decide

end Operator

/-! ### Values of texts -/

section Values

variable (addresses : String → Option Address) (store : Store)

/-- The address of a variable. A number is not the name of one. -/
def addressOf? (text : String) : Option Address :=
  if (Text.readInt? text).isSome then none else addresses text

/-- The cell that a name stands for. -/
def cellNamed? (text : String) : Option Cell :=
  match Register.read? text with
  | some register => some (.register register)
  | none => (addressOf? addresses text).map .memory

/-- The value of a number or a name. -/
def wordValue? (word : String) : Option Int :=
  match Text.readInt? word with
  | some number => some number
  | none => (cellNamed? addresses word).map fun cell => (store.get cell).toNat

/-- The value of a sum, given as its words and operators. Its last term may be a product. -/
def sum? (value? : List Char → Option Int) : List (List Char) → Option Int
  | [word] => value? word
  | [word, ['*'], factor] => (value? word).bind fun number => (value? factor).map (number * ·)
  | word :: ['+'] :: rest => (value? word).bind fun number => (sum? value? rest).map (number + ·)
  | _ => none

/-- The value of a text that is a sum. -/
def sumValue? (text : String) : Option Int :=
  sum? (fun word => wordValue? addresses store (String.ofList word)) (text.toList.splitOn ' ')

/-- The address that a number is or that a variable holds. -/
def pointedAddress? (text : String) : Option Int :=
  match Text.readInt? text with
  | some number => some number
  | none => (addresses text).map fun address =>
    (store.memory address).toNat + 256 * (store.memory (address + 1)).toNat

namespace Reference

/-- The cell that can be written by way of a reference. -/
def cell? : Reference → Option Cell
  | plain text => cellNamed? addresses text
  | indexed base index =>
    (addressOf? addresses base).bind fun start =>
      (sumValue? addresses store index).map fun offset =>
        .memory (UInt16.ofInt (start.toNat + offset))
  | pointer base index =>
    (pointedAddress? addresses store base).bind fun start =>
      (sumValue? addresses store index).map fun offset => .memory (UInt16.ofInt (start + offset))

/-- The value that a reference stands for. -/
def value? : Reference → Option UInt8
  | plain text => (sumValue? addresses store text).map UInt8.ofInt
  | reference => (reference.cell? addresses store).map store.get

end Reference

/-- The value of `left operator right`. -/
def combined? (left operator right : String) : Option UInt8 :=
  (Operator.read? operator).bind fun operator =>
    ((Reference.read left).value? addresses store).bind fun left =>
      ((Reference.read right).value? addresses store).map (operator.apply left)

/-- What an assignment or a test makes of a store. -/
def Node.effect? (node : Node) : Option Store :=
  match node.kind, node.params with
  | .assign, [target, source] =>
    ((Reference.read target).cell? addresses store).bind fun cell =>
      ((Reference.read source).value? addresses store).map (store.set cell)
  | .assign, [target, left, operator, right] =>
    ((Reference.read target).cell? addresses store).bind fun cell =>
      (combined? addresses store left operator right).map (store.set cell)
  | .expr, [left, operator, right] =>
    if node.value = "FLAGS" then
      (combined? addresses store left operator right).map ({ store with flags := · })
    else none
  | _, _ => none

end Values

/-! ### Reading operand texts -/

namespace Reference

theorem splitSum?_of_not_mem {text : List Char} (h : '+' ∉ text) : splitSum? text = none := by
  induction text with
  | nil => rfl
  | cons c rest ih =>
    rw [List.mem_cons, not_or] at h
    unfold splitSum?
    rw [ih h.2]
    simp only
    split
    · exact absurd List.mem_cons_self h.2
    · rfl

/-- A sum is cut at its last plus sign. -/
theorem splitSum?_sum (base : List Char) {index : List Char} (hindex : '+' ∉ index) :
    splitSum? (base ++ ' ' :: '+' :: ' ' :: index) = some (base, index) := by
  induction base with
  | nil =>
    have hrest : splitSum? ('+' :: ' ' :: index) = none := by
      unfold splitSum?
      rw [splitSum?_of_not_mem (by simp [hindex])]
      rfl
    rw [List.nil_append]
    unfold splitSum?
    rw [hrest]
    rfl
  | cons c rest ih =>
    rw [List.cons_append]
    unfold splitSum?
    rw [ih]

theorem between?_brackets (opening closing : Char) (inner : List Char) :
    between? opening closing (opening :: (inner ++ [closing])) = some inner := by
  simp [between?]

theorem between?_eq_some_iff {opening closing : Char} {text inner : List Char} :
    between? opening closing text = some inner ↔ text = opening :: (inner ++ [closing]) := by
  constructor
  · intro h
    cases text with
    | nil => cases h
    | cons first rest =>
      rw [between?] at h
      split at h
      · rename_i hends
        rw [Bool.and_eq_true, beq_iff_eq, beq_iff_eq] at hends
        obtain ⟨rfl, hlast⟩ := hends
        cases h
        rw [List.dropLast_append_getLast? closing hlast]
      · cases h
  · rintro rfl
    exact between?_brackets opening closing inner

/-- An element of the memory at a name, unless brackets around the name make it a pointer. -/
theorem read_memoryText_eq (base : String) {index : String} (hindex : '+' ∉ index.toList) :
    read (memoryText base index)
      = (between? '(' ')' base.toList).elim (.indexed base index) fun inner =>
        .pointer (String.ofList inner) index := by
  have hinner : (memoryText base index).toList
      = '[' :: ((base.toList ++ ' ' :: '+' :: ' ' :: index.toList) ++ [']']) := by
    simp [Text.toList_memoryText]
  rw [read, hinner, between?_brackets, Option.bind_some, splitSum?_sum _ hindex]
  simp only [String.ofList_toList]
  cases between? '(' ')' base.toList <;> rfl

theorem read_memoryText {base index : String} (hbase : base.toList.head? ≠ some '(')
    (hindex : '+' ∉ index.toList) : read (memoryText base index) = .indexed base index := by
  have hplain : between? '(' ')' base.toList = none := by
    cases htext : base.toList with
    | nil => rfl
    | cons c rest =>
      rw [htext] at hbase
      have hc : c ≠ '(' := by simpa using hbase
      simp [between?, hc]
  rw [read_memoryText_eq base hindex, hplain, Option.elim_none]

theorem read_pointerText (base : String) {index : String} (hindex : '+' ∉ index.toList) :
    read (pointerText base index) = .pointer base index := by
  have hinner : (pointerText base index).toList
      = '[' :: (('(' :: (base.toList ++ [')']) ++ ' ' :: '+' :: ' ' :: index.toList) ++ [']']) := by
    simp [Text.toList_pointerText]
  rw [read, hinner, between?_brackets, Option.bind_some, splitSum?_sum _ hindex]
  simp only [between?_brackets, String.ofList_toList]

theorem read_of_head? {text : String} (h : text.toList.head? ≠ some '[') :
    read text = .plain text := by
  have hplain : between? '[' ']' text.toList = none := by
    cases htext : text.toList with
    | nil => rfl
    | cons c rest =>
      rw [htext] at h
      have hc : c ≠ '[' := by simpa using h
      simp [between?, hc]
  rw [read, hplain]
  rfl

end Reference

/-! ### Values of numbers and registers -/

theorem ofInt_toNat_byte (byte : UInt8) : UInt8.ofInt byte.toNat = byte := by
  apply UInt8.toNat_inj.mp
  have hlt := byte.toNat_lt
  rw [UInt8.ofInt, UInt8.toNat_ofNat']
  omega

theorem ofInt_toNat_word (word : UInt16) : UInt16.ofInt word.toNat = word := by
  apply UInt16.toNat_inj.mp
  have hlt := word.toNat_lt
  rw [UInt16.ofInt, UInt16.toNat_ofNat']
  omega

/-- An index is added as the machine adds it. -/
theorem ofInt_add_index (base : UInt16) (index : UInt8) :
    UInt16.ofInt ((base.toNat : Int) + index.toNat) = base + index.toUInt16 := by
  apply UInt16.toNat_inj.mp
  rw [UInt16.ofInt, UInt16.toNat_ofNat', UInt16.toNat_add, UInt8.toNat_toUInt16]
  omega

section Values

variable (addresses : String → Option Address) (store : Store)

theorem wordValue?_decimalInt (number : Int) (hlow : -2147483648 ≤ number)
    (hhigh : number ≤ 2147483647) :
    wordValue? addresses store (Text.decimalInt number) = some number := by
  rw [wordValue?, Text.readInt?_decimalInt number hlow hhigh]

/-- The words of a sum stand between blanks. -/
theorem sumValue?_of_intercalate {text : String} {words : List (List Char)}
    (htext : text.toList = [' '].intercalate words) (hwords : ∀ word ∈ words, ' ' ∉ word)
    (hne : words ≠ []) :
    sumValue? addresses store text
      = sum? (fun word => wordValue? addresses store (String.ofList word)) words := by
  rw [sumValue?, htext, List.splitOn_intercalate ' ' hwords hne]

theorem sumValue?_of_word {word : String} (hword : ' ' ∉ word.toList) :
    sumValue? addresses store word = wordValue? addresses store word := by
  have htext : word.toList = [' '].intercalate [word.toList] := by simp
  rw [sumValue?_of_intercalate addresses store htext (by simpa using hword) (List.cons_ne_nil _ _),
    sum?, String.ofList_toList]

theorem sumValue?_register (register : Register) :
    sumValue? addresses store register.text = some ((store.registers register).toNat : Int) := by
  have hword : Text.readInt? register.text = none := by cases register <;> decide
  rw [sumValue?_of_word addresses store (by cases register <;> decide), wordValue?, hword,
    cellNamed?, Register.read?_text]
  rfl

theorem blank_not_mem_decimalInt (number : Int) : ' ' ∉ (Text.decimalInt number).toList :=
  fun hblank => absurd (Text.isNumeral_of_mem_decimalInt ' ' hblank) (by decide)

theorem sumValue?_decimalInt (number : Int) (hlow : -2147483648 ≤ number)
    (hhigh : number ≤ 2147483647) :
    sumValue? addresses store (Text.decimalInt number) = some number := by
  rw [sumValue?_of_word addresses store (blank_not_mem_decimalInt number),
    wordValue?_decimalInt addresses store number hlow hhigh]

namespace Reference

theorem read_decimalInt (number : Int) :
    read (Text.decimalInt number) = .plain (Text.decimalInt number) := by
  apply read_of_head?
  intro hhead
  exact absurd (Text.isNumeral_of_mem_decimalInt '[' (List.mem_of_head? hhead)) (by decide)

theorem read_register (register : Register) : read register.text = .plain register.text :=
  read_of_head? (by cases register <;> decide)

theorem cell?_register (register : Register) :
    (read register.text).cell? addresses store = some (.register register) := by
  rw [read_register, cell?, cellNamed?, Register.read?_text]

theorem value?_register (register : Register) :
    (read register.text).value? addresses store = some (store.registers register) := by
  rw [read_register, value?, sumValue?_register, Option.map_some, ofInt_toNat_byte]

theorem value?_decimal (byte : UInt8) : (read (Text.decimal byte.toNat)).value? addresses store
    = some byte := by
  have hlt := byte.toNat_lt
  change (read (Text.decimalInt byte.toNat)).value? addresses store = some byte
  rw [read_decimalInt, value?, sumValue?_decimalInt addresses store _ (by omega) (by omega),
    Option.map_some, ofInt_toNat_byte]

end Reference

end Values

end Lift6502
