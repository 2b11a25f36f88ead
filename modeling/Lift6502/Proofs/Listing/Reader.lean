import Lift6502.Listing.Reader
import Lift6502.Proofs.Flow.Partition
import Lift6502.Proofs.Listing.Scan

/-!
# What a reader accepts

The instructions of a listing stand in strictly ascending order, whatever the order of its lines is,
and all of them are legible: no line brings in an operation that could not be printed and read
again, and resolving labels keeps it so.
-/

namespace Lift6502.Listing

namespace Reader

theorem pairwise_operations (reader : Reader) :
    reader.operations.toList.Pairwise fun left right => left.1 < right.1 := by
  refine List.Pairwise.imp ?_ (Std.ExtTreeMap.ordered_keys_toList (t := reader.operations))
  intro left right hlt
  exact compareOfLessAndEq_eq_lt.mp hlt

theorem ascending_instructions (reader : Reader) : Ascending reader.instructions := by
  rw [Ascending, instructions, List.pairwise_map]
  exact reader.pairwise_operations

theorem mem_instructions {reader : Reader} {i : Instruction} :
    i ∈ reader.instructions ↔
      ∃ operation, reader.operations[i.address]? = some operation ∧
      resolve reader.labels operation = i.toOperation := by
  rw [instructions, List.mem_map]
  constructor
  · rintro ⟨⟨address, operation⟩, hmem, rfl⟩
    exact ⟨operation, Std.ExtTreeMap.mem_toList_iff_getElem?_eq_some.mp hmem, rfl⟩
  · rintro ⟨operation, hfound, hresolve⟩
    refine ⟨(i.address, operation), Std.ExtTreeMap.mem_toList_iff_getElem?_eq_some.mpr hfound, ?_⟩
    simp only [hresolve]

/-- An operation at a new address joins those that were accepted. -/
theorem getElem?_insert_iff {operations : AddressMap Operation} {before : List Instruction}
    (h : ∀ (address : Address) (operation : Operation), operations[address]? = some operation ↔
      ({ operation with address } : Instruction) ∈ before)
    {i : Instruction} (hnew : ∀ j ∈ before, j.address ≠ i.address) (address : Address)
    (operation : Operation) :
    (operations.insert i.address i.toOperation)[address]? = some operation ↔
      ({ operation with address } : Instruction) ∈ before ++ [i] := by
  rw [Std.ExtTreeMap.getElem?_insert, List.mem_append, List.mem_singleton, ← h address operation]
  by_cases haddress : i.address = address
  · subst haddress
    rw [if_pos Std.ReflCmp.compare_self, Option.some.injEq]
    constructor
    · rintro rfl
      exact Or.inr rfl
    · rintro (hfound | hsame)
      · exact (hnew _ ((h i.address operation).mp hfound) rfl).elim
      · exact (congrArg Instruction.toOperation hsame).symm
  · rw [if_neg (fun heq => haddress (Std.LawfulEqCmp.compare_eq_iff_eq.mp heq))]
    constructor
    · exact Or.inl
    · rintro (hfound | rfl)
      · exact hfound
      · exact absurd rfl haddress

/-- Whether every operation that was accepted can be printed and read again. -/
def IsLegible (reader : Reader) : Prop :=
  ∀ (address : Address) (operation : Operation), reader.operations[address]? = some operation →
    operation.IsLegible

variable {reader : Reader}

theorem IsLegible.accept (h : reader.IsLegible) (address : Address) (label : Option String)
    {operation : Operation} (hoperation : operation.IsLegible) :
    (reader.accept address label operation).IsLegible := by
  intro other found hfound
  have hfound : (reader.operations.insert address operation)[other]? = some found := hfound
  rw [Std.ExtTreeMap.getElem?_insert] at hfound
  split at hfound
  · cases hfound
    exact hoperation
  · exact h other found hfound

/-- A line keeps what is accepted legible. -/
theorem IsLegible.feed (h : reader.IsLegible) (number : Nat) (text : String) :
    (reader.feed number text).IsLegible := by
  unfold Reader.feed
  split
  · exact h
  · exact h
  · rename_i label address operation hscan
    split
    · exact h
    · split
      · exact h
      · exact h.accept _ label (Line.isLegible_of_scan hscan)
  · exact h

theorem IsLegible.feedAll (h : reader.IsLegible) (number : Nat) (texts : List String) :
    (reader.feedAll number texts).IsLegible := by
  induction texts generalizing reader number with
  | nil => exact h
  | cons text rest ih => exact ih (h.feed number text) (number + 1)

theorem isLegible_resolve (labels : NameMap Address) {operation : Operation}
    (h : operation.IsLegible) : (resolve labels operation).IsLegible := by
  unfold resolve
  split
  · split
    · split
      · exact ⟨h.mnemonic, trivial⟩
      · exact h
    · exact h
  · exact h

theorem IsLegible.instructions (h : reader.IsLegible) :
    ∀ i ∈ reader.instructions, i.toOperation.IsLegible := by
  intro i hi
  obtain ⟨operation, hfound, hresolve⟩ := mem_instructions.mp hi
  rw [← hresolve]
  exact isLegible_resolve reader.labels (h i.address operation hfound)

end Reader

theorem ascending_read (text : String) : Ascending (read text).instructions :=
  Reader.ascending_instructions _

theorem isLegible_read (text : String) :
    ∀ i ∈ (read text).instructions, i.toOperation.IsLegible := by
  have hempty : ({} : Reader).IsLegible := by
    intro address operation hfound
    have hfound : (∅ : AddressMap Operation)[address]? = some operation := hfound
    rw [Std.ExtTreeMap.getElem?_empty] at hfound
    cases hfound
  exact (hempty.feedAll 1 _).instructions

end Lift6502.Listing
