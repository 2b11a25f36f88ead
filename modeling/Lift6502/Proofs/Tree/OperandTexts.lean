import Lift6502.Proofs.Listing.Reader
import Lift6502.Proofs.Symbol.Targets
import Lift6502.Proofs.Tree.TextValues
import Lift6502.Statement

/-!
# Operand texts read back

Statements hold their operands as text, and a dialect reads that text again. Names are identifiers
and no number has a bracket, so what is read is what was written: a name or a number for itself, an
element of the memory at a name, or an element behind a pointer. The same holds of every text of
these forms whose index has no plus sign. Only a base in round brackets is taken for a pointer.
-/

namespace Lift6502

/-! ### Operands and tables -/

namespace Operand

/-- The reference that an operand stands for, if it names a value. -/
def reference? (symbols : SymbolTable) : Operand → Option Reference
  | immediate value => some (.plain (Text.decimal value.toNat))
  | absolute address => some (.plain (symbols.dataName address))
  | accumulator => some (.plain "A")
  | symbolic label => some (.plain label)
  | indexed base index => some (.indexed (symbols.dataName base) index.text)
  | indirectIndexed pointer .y => some (.pointer (symbols.dataName pointer.toUInt16) "Y")
  | indirectIndexed pointer .x => some (.pointer (symbols.dataName pointer.toUInt16 ++ " + X") "0")
  | implied | indirect _ => none

/-- Whether a line, or an instruction of a listing once its labels are resolved, can have an
operand. -/
def IsReadable (operand : Operand) : Prop :=
  (∃ line label address operation, Line.scan line = .ok (.operation label address operation) ∧
    operation.operand = operand) ∨
    ∃ text, ∃ i ∈ (Listing.read text).instructions, i.operand = operand

theorem IsReadable.isLegible {operand : Operand} (h : operand.IsReadable) : operand.IsLegible := by
  rcases h with ⟨line, label, address, operation, hscan, rfl⟩ | ⟨text, i, hi, rfl⟩
  · exact (Line.isLegible_of_scan hscan).operand
  · exact (Listing.isLegible_read text i hi).operand

end Operand

namespace SymbolTable

/-- Whether a table names the addresses of some code, or none at all. -/
def IsResolved (symbols : SymbolTable) : Prop :=
  symbols = {} ∨ ∃ candidates sources, symbols = resolve candidates sources

theorem IsResolved.isName_dataName {symbols : SymbolTable} (h : symbols.IsResolved)
    (address : Address) : Text.IsName (symbols.dataName address) := by
  rcases h with rfl | ⟨candidates, sources, rfl⟩
  · exact isName_generatedName? (show Role.generatedName? address .zeroPage = some _ from rfl)
  · exact isName_dataName_resolve candidates sources address

end SymbolTable

/-! ### Reading the texts -/

theorem Text.IsName.head?_ne {name : String} (h : IsName name) {c : Char}
    (hc : isNameStart c = false) : name.toList.head? ≠ some c := by
  intro hhead
  have hstart := h.start
  rw [hhead, Option.any_some, hc] at hstart
  cases hstart

namespace Reference

theorem read_of_isName {name : String} (h : Text.IsName name) : read name = .plain name :=
  read_of_head? (h.head?_ne (by decide))

theorem read_memoryText_of_isName {base index : String} (hbase : Text.IsName base)
    (hindex : '+' ∉ index.toList) : read (memoryText base index) = .indexed base index :=
  read_memoryText (hbase.head?_ne (by decide)) hindex

/-- Only brackets around the base turn an element into one behind a pointer. -/
theorem read_memoryText_iff (base : String) {index : String} (hindex : '+' ∉ index.toList) :
    read (memoryText base index) = .indexed base index ↔ ¬ ∃ inner, base = "(" ++ inner ++ ")" := by
  have hbrackets (inner : List Char) :
      between? '(' ')' base.toList = some inner ↔ base = "(" ++ String.ofList inner ++ ")" := by
    rw [between?_eq_some_iff, ← String.toList_inj]
    simp
  rw [read_memoryText_eq base hindex]
  cases hbetween : between? '(' ')' base.toList with
  | none =>
    simp only [Option.elim_none, true_iff]
    rintro ⟨inner, hbase⟩
    rw [← String.ofList_toList (s := inner)] at hbase
    rw [(hbrackets inner.toList).mpr hbase] at hbetween
    cases hbetween
  | some inner =>
    simp only [Option.elim_some, reduceCtorEq, false_iff, not_not]
    exact ⟨String.ofList inner, (hbrackets inner).mp hbetween⟩

end Reference

theorem Operand.isName_of_isLegible {label : String} (h : (Operand.symbolic label).IsLegible) :
    Text.IsName label := by
  obtain ⟨-, hstart, hchars⟩ := Text.of_takeName? h.1
  exact ⟨hstart, hchars⟩

theorem Operand.map_read_value? {operand : Operand} (hlegible : operand.IsLegible)
    {symbols : SymbolTable} (hnames : ∀ address, Text.IsName (symbols.dataName address)) :
    (operand.value? symbols).map Reference.read = operand.reference? symbols := by
  cases operand with
  | implied => rfl
  | indirect address => rfl
  | accumulator => rfl
  | immediate value => exact congrArg some (Reference.read_decimalInt value.toNat)
  | absolute address => exact congrArg some (Reference.read_of_isName (hnames address))
  | indexed base index =>
    have hindex : '+' ∉ index.text.toList := by cases index <;> decide
    exact congrArg some (Reference.read_memoryText_of_isName (hnames base) hindex)
  | indirectIndexed pointer index =>
    cases index with
    | x => exact congrArg some (Reference.read_pointerText _ (by decide))
    | y => exact congrArg some (Reference.read_pointerText _ (by decide))
  | symbolic label => exact congrArg some (Reference.read_of_isName (isName_of_isLegible hlegible))

/-- The text of every operand that can be read, with the names of any resolved table, is read back
as the reference that the operand stands for. So is every text with an index that has no plus sign:
behind a pointer whatever the base is, and at a name exactly if the base is not put in round
brackets. -/
theorem operand_texts_decode :
    (∀ operand : Operand, operand.IsReadable → ∀ symbols : SymbolTable, symbols.IsResolved →
      (operand.value? symbols).map Reference.read = operand.reference? symbols) ∧
    (∀ base index : String, '+' ∉ index.toList →
      Reference.read (Reference.pointerText base index) = .pointer base index) ∧
    ∀ base index : String, '+' ∉ index.toList →
      (Reference.read (Reference.memoryText base index) = .indexed base index ↔
        ¬ ∃ inner, base = "(" ++ inner ++ ")") :=
  ⟨fun _ hoperand _ hsymbols => Operand.map_read_value? hoperand.isLegible hsymbols.isName_dataName,
    fun base _ hindex => Reference.read_pointerText base hindex,
    fun base _ hindex => Reference.read_memoryText_iff base hindex⟩

/-- A table whose name for a pointer looks like a reference. -/
def misleadingNames : SymbolTable :=
  .resolve { zeroPage := Std.ExtTreeSet.ofList [(0x10 : Address)] }
    { Sources.empty with
      zeroPage := Std.ExtTreeMap.ofList [((0x10 : Address), ({ name := "[(A) + 1]" } : Entry))] }

theorem misleadingNames_decoded :
    ((Operand.indirectIndexed 0x10 .x).IsReadable ∧ misleadingNames.IsResolved ∧
      (Operand.indirectIndexed 0x10 .x).value? misleadingNames = some "[(__A____1_ + X) + 0]" ∧
      ((Operand.indirectIndexed 0x10 .x).value? misleadingNames).map Reference.read
        = some (.pointer "__A____1_ + X" "0")) ∧
    ('+' ∉ "I * 2".toList ∧
      Reference.read (Reference.pointerText "P + Q" "I * 2") = .pointer "P + Q" "I * 2") ∧
    Reference.read (Reference.memoryText "(P) + Q" "I * 2") = .indexed "(P) + Q" "I * 2" := by
  have hreadable : (Operand.indirectIndexed 0x10 .x).IsReadable :=
    Or.inl ⟨"$C000: LDA ($10,X)", none, some 0xC000,
      ⟨.lda, .indirectIndexed 0x10 .x⟩, by decide +kernel, rfl⟩
  have hresolved : misleadingNames.IsResolved := Or.inr ⟨_, _, rfl⟩
  have hindex : '+' ∉ "I * 2".toList := by decide
  have hbase : ¬ ∃ inner, "(P) + Q" = "(" ++ inner ++ ")" := by
    rintro ⟨inner, h⟩
    have hlast := congrArg (fun text => text.toList.reverse.head?) h
    simp at hlast
  obtain ⟨hoperands, hpointers, hmemory⟩ := operand_texts_decode
  refine ⟨⟨hreadable, hresolved, ?_, ?_⟩, ⟨hindex, hpointers _ _ hindex⟩,
    (hmemory _ _ hindex).mpr hbase⟩
  · decide +kernel
  · rw [hoperands _ hreadable _ hresolved]
    decide +kernel

end Lift6502
