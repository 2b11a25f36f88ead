import Lift6502.Proofs.Listing.Reader

/-!
# Printing and reading again

The instructions that were read from a listing, printed one on each line, are a listing of the same
code: reading it gives the same instructions and asks for the same names, and no line is skipped.
Only the labels that the first listing defined are gone.
-/

namespace Lift6502.Listing

namespace Reader

/-- Whether a reader has taken exactly these instructions, from lines that held nothing else. -/
structure Holds (reader : Reader) (instructions : List Instruction) : Prop where
  operations : ∀ (address : Address) (operation : Operation), reader.operations[address]?
    = some operation ↔
    ({ operation with address } : Instruction) ∈ instructions
  labels : reader.labels = ∅
  sourceLabels : reader.sourceLabels = ∅
  pending : reader.pending = []
  skipped : reader.skipped = #[]

theorem holds_nil : ({} : Reader).Holds [] := by
  refine ⟨fun address operation => ?_, rfl, rfl, rfl, rfl⟩
  change (∅ : AddressMap Operation)[address]? = _ ↔ _
  simp

variable {reader : Reader} {before : List Instruction}

/-- The printed line of an instruction at a new address only adds its operation. -/
theorem feed_text {i : Instruction} (hlegible : i.toOperation.IsLegible)
    (hnew : reader.operations[i.address]? = none) (hpending : reader.pending = []) (number : Nat) :
    reader.feed number i.text
      = { reader with
          operations := reader.operations.insert i.address i.toOperation
          next := some i.nextAddress } := by
  have hfree : reader.operations.contains i.address = false := by
    rw [Std.ExtTreeMap.contains_eq_isSome_getElem?, hnew]
    rfl
  rw [feed, Line.scan_text hlegible]
  simp [hfree, accept, hpending]

theorem Holds.feed (h : reader.Holds before) {i : Instruction} (hlegible : i.toOperation.IsLegible)
    (hnew : ∀ j ∈ before, j.address ≠ i.address) (number : Nat) :
    (reader.feed number i.text).Holds (before ++ [i]) := by
  have hnone (operation : Operation) : reader.operations[i.address]? ≠ some operation :=
    fun hfound => hnew _ ((h.operations i.address operation).mp hfound) rfl
  rw [feed_text hlegible (Option.eq_none_iff_forall_ne_some.mpr hnone) h.pending]
  exact ⟨getElem?_insert_iff h.operations hnew, h.labels, h.sourceLabels, h.pending, h.skipped⟩

/-- The printed lines of ascending instructions add just these. -/
theorem Holds.feedAll (h : reader.Holds before) {after : List Instruction}
    (hascending : Ascending (before ++ after)) (hlegible : ∀ i ∈ after, i.toOperation.IsLegible)
    (number : Nat) : (reader.feedAll number (after.map (·.text))).Holds (before ++ after) := by
  induction after generalizing reader before number with
  | nil =>
    rw [List.append_nil]
    exact h
  | cons i rest ih =>
    obtain ⟨hfirst, hrest⟩ := List.forall_mem_cons.mp hlegible
    -- In ascending order no earlier line has taken this address.
    have hnew : ∀ j ∈ before, j.address ≠ i.address := fun j hj =>
      UInt16.ne_of_lt ((List.pairwise_append.mp hascending).2.2 j hj i List.mem_cons_self)
    rw [List.append_cons] at hascending ⊢
    rw [List.map_cons, Reader.feedAll]
    exact ih (h.feed hfirst hnew number) hascending hrest (number + 1)

/-- What a reader holds is what it gives. -/
theorem Holds.instructions_eq {instructions : List Instruction} (h : reader.Holds instructions)
    (hascending : Ascending instructions) : reader.instructions = instructions := by
  refine reader.ascending_instructions.ext hascending fun i => ?_
  have hresolve (operation : Operation) : resolve ∅ operation = operation := by
    simp only [resolve, Std.ExtTreeMap.getElem?_empty, ite_self]
    split <;> rfl
  simp only [mem_instructions, h.labels, hresolve, h.operations, exists_eq_right]

end Reader

section Printed

variable {instructions : List Instruction}

/-- Legible instructions in ascending order are all that their printed lines hold. -/
theorem ofLines_printed (hascending : Ascending instructions)
    (hlegible : ∀ i ∈ instructions, i.toOperation.IsLegible) :
    ofLines (instructions.map (·.text))
      = { instructions, candidates := Candidates.collect instructions ∅ } := by
  have hholds := Reader.holds_nil.feedAll hascending hlegible 1
  rw [List.nil_append] at hholds
  rw [ofLines, Reader.finish, hholds.instructions_eq hascending, hholds.sourceLabels,
    hholds.skipped]

private theorem printed_lines (hlegible : ∀ i ∈ instructions, i.toOperation.IsLegible) :
    ∀ line ∈ (instructions.map (·.text)).map String.toList, Text.Printed line := by
  refine List.forall_mem_map.mpr fun line hline => ?_
  obtain ⟨i, hi, rfl⟩ := List.mem_map.mp hline
  exact Instruction.printed_text (hlegible i hi)

private theorem map_ofList_toList (lines : List String) :
    (lines.map String.toList).map String.ofList = lines := by
  simp [Function.comp_def]

theorem read_ended (hlegible : ∀ i ∈ instructions, i.toOperation.IsLegible) :
    read (String.join (instructions.map (·.text ++ "\n")))
      = ofLines (instructions.map (·.text)) := by
  have htext : (String.join (instructions.map (·.text ++ "\n"))).toList
      = ((instructions.map (·.text)).map String.toList).flatMap (· ++ ['\n']) := by
    simp [String.toList_join, List.flatMap_map]
  rw [read, htext, Text.lines_of_ended (printed_lines hlegible), map_ofList_toList]

theorem read_separated (hlegible : ∀ i ∈ instructions, i.toOperation.IsLegible) :
    read ("\n".intercalate (instructions.map (·.text))) = ofLines (instructions.map (·.text)) := by
  have htext : ("\n".intercalate (instructions.map (·.text))).toList
      = ['\n'].intercalate ((instructions.map (·.text)).map String.toList) :=
    String.toList_intercalate
  rw [read, htext, Text.lines_of_separated (printed_lines hlegible), map_ofList_toList]

end Printed

/-- Whether a listing has the code of another one, without its labels and without lines that are
skipped. -/
structure IsCodeOf (listing original : Listing) : Prop where
  instructions : listing.instructions = original.instructions
  skipped : listing.skipped = []
  candidates : listing.candidates = { original.candidates with sourceLabels := ∅ }

theorem isCodeOf_printed (text : String) :
    (ofLines ((read text).instructions.map (·.text))).IsCodeOf (read text) := by
  rw [ofLines_printed (ascending_read text) (isLegible_read text)]
  exact ⟨rfl, rfl, rfl⟩

/-- The instructions of a listing, printed one on each line, are read back as the same code, whether
or not a line feed ends the last line; and the instructions that are read back in this way are those
in ascending order that are legible. -/
theorem printed_code_read_back :
    (∀ text, (read (String.join ((read text).instructions.map (·.text ++ "\n")))).IsCodeOf
      (read text) ∧
      (read ("\n".intercalate ((read text).instructions.map (·.text)))).IsCodeOf (read text)) ∧
    ∀ instructions, (read (String.join (instructions.map (·.text ++ "\n")))).instructions
      = instructions ↔
      Ascending instructions ∧ ∀ i ∈ instructions, i.toOperation.IsLegible := by
  refine ⟨fun text => ⟨?_, ?_⟩, fun instructions => ⟨fun h => ?_, fun ⟨hascending, hlegible⟩ => ?_⟩⟩
  · rw [read_ended (isLegible_read text)]
    exact isCodeOf_printed text
  · rw [read_separated (isLegible_read text)]
    exact isCodeOf_printed text
  · rw [← h]
    exact ⟨ascending_read _, isLegible_read _⟩
  · rw [read_ended hlegible, ofLines_printed hascending hlegible]

end Lift6502.Listing
