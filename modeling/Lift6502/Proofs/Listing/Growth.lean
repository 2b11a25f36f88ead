import Lift6502.Proofs.Listing.Verdicts
import Lift6502.Proofs.Machine.Maps

/-!
# Listings that go on

A reader never takes back what it has read. Operations, labels and skipped lines stay as they are
however many lines follow, so a listing that goes on says all that it said before. The one thing
left open is a label that no line has defined yet: a jump to it is resolved as soon as a later line
does.
-/

namespace Lift6502.Listing

namespace Reader

/-- Whether a reader still knows all that another one knew. -/
structure Grows (reader later : Reader) : Prop where
  operations : ∀ (address : Address) (operation : Operation),
    reader.operations[address]? = some operation → later.operations[address]? = some operation
  labels : ∀ (name : String) (address : Address), reader.labels[name]? = some address →
    later.labels[name]? = some address
  sourceLabels : ∀ (address : Address) (name : String),
    reader.sourceLabels[address]? = some name → later.sourceLabels[address]? = some name
  skipped : reader.skipped.toList <+: later.skipped.toList

theorem Grows.refl (reader : Reader) : reader.Grows reader :=
  ⟨fun _ _ h => h, fun _ _ h => h, fun _ _ h => h, List.prefix_rfl⟩

theorem Grows.trans {first second third : Reader} (h : first.Grows second)
    (h' : second.Grows third) : first.Grows third := by
  refine ⟨?_, ?_, ?_, h.skipped.trans h'.skipped⟩
  · intro address operation hfound
    exact h'.operations address operation (h.operations address operation hfound)
  · intro name address hfound
    exact h'.labels name address (h.labels name address hfound)
  · intro address name hfound
    exact h'.sourceLabels address name (h.sourceLabels address name hfound)

theorem grows_define (reader : Reader) (address : Address) (name : String) :
    reader.Grows (reader.define address name) := by
  refine ⟨fun _ _ h => h, ?_, ?_, List.prefix_rfl⟩
  · intro other found hfound
    exact getElem?_insertIfNew_of_some hfound name address
  · intro other found hfound
    exact getElem?_insertIfNew_of_some hfound address name

theorem grows_foldl_define (reader : Reader) (address : Address) (names : List String) :
    reader.Grows (names.foldl (define address) reader) := by
  induction names generalizing reader with
  | nil => exact Grows.refl reader
  | cons name rest ih => exact (grows_define reader address name).trans (ih _)

theorem grows_accept (reader : Reader) {address : Address}
    (hfree : reader.operations[address]? = none) (label : Option String) (operation : Operation) :
    reader.Grows (reader.accept address label operation) := by
  have hlabelled := grows_foldl_define reader address (reader.pending ++ label.toList)
  refine ⟨?_, hlabelled.labels, hlabelled.sourceLabels, hlabelled.skipped⟩
  intro other found hfound
  show (reader.operations.insert address operation)[other]? = some found
  rw [Std.ExtTreeMap.getElem?_insert, if_neg, hfound]
  intro hsame
  obtain rfl := Std.LawfulEqCmp.eq_of_compare hsame
  rw [hfree] at hfound
  cases hfound

theorem grows_skip (reader : Reader) (number : Nat) (text : String) (error : LineError) :
    reader.Grows (reader.skip number text error) := by
  refine ⟨fun _ _ h => h, fun _ _ h => h, fun _ _ h => h, ?_⟩
  rw [skip, Array.toList_push]
  apply List.prefix_append

/-- One line takes nothing back. -/
theorem grows_feed (reader : Reader) (number : Nat) (text : String) :
    reader.Grows (reader.feed number text) := by
  unfold feed
  split
  · exact Grows.refl reader
  · exact ⟨fun _ _ h => h, fun _ _ h => h, fun _ _ h => h, List.prefix_rfl⟩
  · split
    · apply grows_skip
    · split
      · apply grows_skip
      · rename_i hfree
        apply grows_accept
        simpa using hfree
  · apply grows_skip

theorem grows_feedAll (reader : Reader) (number : Nat) (lines : List String) :
    reader.Grows (reader.feedAll number lines) := by
  induction lines generalizing reader number with
  | nil => exact Grows.refl reader
  | cons text rest ih => exact (grows_feed reader number text).trans (ih _ _)

theorem feedAll_append (reader : Reader) (number : Nat) (lines more : List String) :
    reader.feedAll number (lines ++ more)
      = (reader.feedAll number lines).feedAll (number + lines.length) more := by
  induction lines generalizing reader number with
  | nil => rfl
  | cons text rest ih =>
    rw [List.cons_append, feedAll, feedAll, ih, List.length_cons, Nat.add_assoc, Nat.add_comm 1]

/-! ### Labels that are resolved later -/

theorem IsResolved.refl (i : Instruction) : IsResolved i i := ⟨rfl, rfl, Or.inl rfl⟩

theorem IsResolved.eq_of_absolute {written i : Instruction} (h : IsResolved written i)
    {target : Address} (htarget : written.operand = .absolute target) : i = written := by
  have hoperand : i.operand = written.operand := by
    rcases h.operand with hsame | ⟨-, ⟨name, hname⟩, -⟩
    · exact hsame
    · rw [htarget] at hname
      cases hname
  calc i = ⟨⟨i.mnemonic, i.operand⟩, i.address⟩ := rfl
    _ = ⟨⟨written.mnemonic, written.operand⟩, written.address⟩ := by
      rw [h.mnemonic, hoperand, h.address]
    _ = written := rfl

/-- Resolving either leaves an operation alone or finds the label that it names. -/
theorem resolve_cases (labels : NameMap Address) (operation : Operation) :
    resolve labels operation = operation ∨
      ∃ name target, operation.operand = .symbolic name ∧ operation.mnemonic.isControlFlow = true ∧
        labels[name]? = some target := by
  unfold resolve
  split
  · rename_i name hname
    split
    · rename_i hflow
      split
      · rename_i target htarget
        exact Or.inr ⟨name, target, hname, hflow, htarget⟩
      · exact Or.inl rfl
    · exact Or.inl rfl
  · exact Or.inl rfl

theorem isResolved_of_later {labels later : NameMap Address}
    (h : ∀ (name : String) (address : Address), labels[name]? = some address →
      later[name]? = some address)
    (address : Address) (operation : Operation) :
    IsResolved { resolve labels operation with address } { resolve later operation with
      address } := by
  rcases resolve_cases labels operation with hopen | ⟨name, target, hname, hflow, htarget⟩
  · rw [hopen]
    exact isResolved_resolve later address operation
  · -- The label has been found, and later definitions do not move it.
    have hlater := h name target htarget
    have hsame : resolve later operation = resolve labels operation := by
      simp only [resolve, hname, hflow, htarget, hlater]
    rw [hsame]
    apply IsResolved.refl

end Reader

/-- Whether a listing says all that another one said, except that labels which were open may be
resolved in it. -/
structure Extends (short long : Listing) : Prop where
  skipped : short.skipped <+: long.skipped
  sourceLabels : ∀ (address : Address) (name : String),
    short.candidates.sourceLabels[address]? = some name →
    long.candidates.sourceLabels[address]? = some name
  instructions : ∀ i ∈ short.instructions, ∃ j ∈ long.instructions, Reader.IsResolved i j
  settled : ∀ i ∈ short.instructions, ∀ target, i.operand = .absolute target → i ∈ long.instructions

theorem Reader.Grows.finish {reader later : Reader} (h : reader.Grows later) :
    reader.finish.Extends later.finish := by
  have hinstructions : ∀ i ∈ reader.instructions, ∃ j ∈ later.instructions, IsResolved i j := by
    intro i hi
    obtain ⟨operation, hfound, hresolve⟩ := mem_instructions.mp hi
    refine ⟨{ resolve later.labels operation with address := i.address }, ?_, ?_⟩
    · exact mem_instructions.mpr ⟨operation, h.operations i.address operation hfound, rfl⟩
    · have hresolved := isResolved_of_later h.labels i.address operation
      rwa [hresolve] at hresolved
  refine ⟨h.skipped, h.sourceLabels, hinstructions, ?_⟩
  intro i hi target htarget
  obtain ⟨j, hj, hresolved⟩ := hinstructions i hi
  rwa [hresolved.eq_of_absolute htarget] at hj

/-- More lines only add to a listing. -/
theorem more_lines_extend (lines more : List String) :
    (ofLines lines).Extends (ofLines (lines ++ more)) := by
  have hgrows := Reader.grows_feedAll (Reader.feedAll {} 1 lines) (1 + lines.length) more
  rw [← Reader.feedAll_append] at hgrows
  exact hgrows.finish

end Lift6502.Listing
