import Lift6502.Proofs.Routine.Matches
import Lift6502.Proofs.Shape.Transfers

/-!
# What a record promises

A block that initialises a record stores to neighbouring places only, so the offset of a place from
the lowest one is the number of a field. Only one detector finds records, so this holds of
everything that was recognised as one.
-/

namespace Lift6502

theorem le_getLast?_toList {fields : AddressSet} {last address : Address}
    (hlast : fields.toList.getLast? = some last) (hmem : address ∈ fields.toList) :
    address ≤ last := by
  have hordered := pairwise_toList fields
  obtain ⟨front, hfields⟩ := List.getLast?_eq_some_iff.mp hlast
  rw [hfields] at hordered hmem
  rcases List.mem_append.mp hmem with hfront | hsame
  · exact UInt16.le_of_lt ((List.pairwise_append.mp hordered).2.2 address hfront last
      (List.mem_singleton_self last))
  · rw [List.mem_singleton.mp hsame]
    exact UInt16.le_refl _

/-- A match that claims one block, whose stores go to the places from a base on that the match has
as its operands. -/
structure Match.Fills (found : Match) (base : Address) (block : Block) : Prop where
  blocks : found.blocks = [block]
  subject : found.subject = some (.absolute base)
  field : ∀ i ∈ block.body, ∀ address, Shape.storedPlace? i = some address →
    base ≤ address ∧ address.toNat - base.toNat < found.operands.length

namespace Shape

variable {symbols : SymbolTable} {blocks : List Block} {found : Match}

theorem storedPlace?_eq_some {i : Instruction} {place : Address} :
    storedPlace? i = some place ↔ i.mnemonic = .sta ∧ i.operand = .absolute place := by
  unfold storedPlace?
  split <;> simp_all

theorem detectRecord_fills (h : detectRecord symbols blocks = some found) :
    ∃ base block, found.Fills base block := by
  obtain ⟨block, rest, first, last, -, hfills, rfl⟩ := exists_of_detectRecord h
  refine ⟨first, block, rfl, rfl, fun i hi address haddress => ?_⟩
  have hmem := storedPlace?_mem_recordFields hi haddress
  have hlow := head?_toList_le hfills.head hmem
  have hhigh := UInt16.le_iff_toNat_le.mp (le_getLast?_toList hfills.getLast hmem)
  refine ⟨hlow, ?_⟩
  rw [List.length_map, ← hfills.dense]
  omega

/-- Only one detector finds records. -/
theorem FoundBy.detectRecord (h : FoundBy symbols blocks found) (hshape : found.shape = .record) :
    detectRecord symbols blocks = some found := by
  cases h with
  | record h => exact h
  | counted h =>
    obtain ⟨_, _, loop, -, -, rfl⟩ := detectCounted_eq_some_iff.mp h
    rcases ite_eq_or_eq (0 < loop.step) countUp countDown with hup | hdown
    · cases hup.symm.trans hshape
    · cases hdown.symm.trans hshape
  | topTested h =>
    obtain ⟨_, _, _, test, _, -, -, -, -, -, -, rfl⟩ := detectTopTested_eq_some_iff.mp h
    rcases ite_eq_or_eq (test.onEqual = true) untilLoop whileLoop with huntil | hwhile
    · cases huntil.symm.trans hshape
    · cases hwhile.symm.trans hshape
  | bottomTested h =>
    obtain ⟨_, _, _, _, -, -, -, -, rfl⟩ := detectBottomTested_eq_some_iff.mp h
    cases hshape
  | conditional h =>
    rcases detectConditional_shape h with hother | hother <;> cases hother.symm.trans hshape
  | dispatch h => cases (detectDispatch_shape h).symm.trans hshape
  | call h =>
    obtain ⟨_, _, _, _, -, hcalls, rfl⟩ := exists_of_detectCall h
    cases hcalls <;> cases hshape
  | repetition h =>
    obtain ⟨-, _, _, -, hfolds, rfl⟩ := exists_of_detectRepetition h
    cases hfolds <;> cases hshape
  | trait htrait h =>
    obtain ⟨_, _, _, -, -, rfl⟩ := detectTrait_eq_some_iff.mp h
    obtain rfl := hshape
    cases htrait

end Shape

theorem Routine.fills_of_mem_shapes {symbols : SymbolTable} {blocks : List Block} {found : Match}
    (h : found ∈ shapes symbols blocks) (hshape : found.shape = .record) :
    ∃ base block, found.Fills base block := by
  obtain ⟨block, rest, rfl⟩ := exists_recognise_of_mem_shapes h
  rcases Shape.recognise_cases symbols (block :: rest) with hfound | hplain
  · exact Shape.detectRecord_fills (hfound.detectRecord hshape)
  · rw [hplain] at hshape
    cases hshape

end Lift6502
