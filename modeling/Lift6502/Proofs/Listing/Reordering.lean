import Lift6502.Proofs.Listing.Reader
import Lift6502.Proofs.Machine.Maps

/-!
# Lines in any order

Where a line stands matters for three reasons: an operation without an address follows the one
before it, a label on a line of its own waits for the next operation, and of two lines that claim
one address or one name the first is right. In a listing with none of these, what a reader ends up
with can be said without the order of the lines, so every order of them gives the same instructions
and the same candidates.
-/

namespace Lift6502.Listing

/-- Whether a line needs no other one: it is no label alone, and an operation on it has its
address. -/
def standsAlone (text : String) : Bool :=
  match Line.scan text with
  | .ok (.label _) | .ok (.operation _ none _) => false
  | _ => true

/-- The address that is written in front of the operation of a line. -/
def writtenAddress? (text : String) : Option Address :=
  match Line.scan text with
  | .ok (.operation _ written _) => written
  | _ => none

/-- The label in front of the operation of a line. -/
def inlineLabel? (text : String) : Option String :=
  match Line.scan text with
  | .ok (.operation label _ _) => label
  | _ => none

theorem writtenAddress?_of_scan {text : String} {label : Option String} {written : Option Address}
    {operation : Operation} (h : Line.scan text = .ok (.operation label written operation)) :
    writtenAddress? text = written := by
  rw [writtenAddress?, h]

theorem inlineLabel?_of_scan {text : String} {label : Option String} {written : Option Address}
    {operation : Operation} (h : Line.scan text = .ok (.operation label written operation)) :
    inlineLabel? text = label := by
  rw [inlineLabel?, h]

/-- Whether each line stands alone, and no two of them share an address or a label. -/
structure Independent (lines : List String) : Prop where
  alone : ∀ text ∈ lines, standsAlone text = true
  addresses : (lines.filterMap writtenAddress?).Nodup
  names : (lines.filterMap inlineLabel?).Nodup

namespace Independent

variable {lines others : List String}

theorem perm (h : Independent lines) (hperm : others.Perm lines) : Independent others := by
  refine ⟨?_, (hperm.filterMap _).nodup_iff.mpr h.addresses,
    (hperm.filterMap _).nodup_iff.mpr h.names⟩
  intro text htext
  exact h.alone text (hperm.mem_iff.mp htext)

theorem of_append (h : Independent (lines ++ others)) : Independent lines := by
  have hsublist : lines.Sublist (lines ++ others) := List.sublist_append_left lines others
  refine ⟨?_, h.addresses.sublist (hsublist.filterMap _), h.names.sublist (hsublist.filterMap _)⟩
  intro text htext
  exact h.alone text (List.mem_append_left others htext)

end Independent

/-- What comes last of different things was not there before. -/
theorem ne_of_nodup_filterMap_concat {α : Type} {part : String → Option α} {before : List String}
    {text : String} {found : α} (hnodup : ((before ++ [text]).filterMap part).Nodup)
    (hfound : part text = some found) : ∀ earlier ∈ before, part earlier ≠ some found := by
  intro earlier hearlier hsame
  rw [List.filterMap_append, List.nodup_append] at hnodup
  have hleft : found ∈ before.filterMap part := List.mem_filterMap.mpr ⟨earlier, hearlier, hsame⟩
  have hright : found ∈ [text].filterMap part :=
    List.mem_filterMap.mpr ⟨text, List.mem_singleton_self text, hfound⟩
  exact hnodup.2.2 found hleft found hright rfl

/-- A line that is no line of a listing at all, with what is wrong with it. -/
def malformed? (text : String) : Option (String × LineError) :=
  match Line.scan text with
  | .error error => some (text, error)
  | .ok _ => none

/-- A skipped line without its number. -/
def unnumbered (skipped : SkippedLine) : String × LineError := (skipped.text, skipped.error)

namespace Reader

/-- Whether a reader has taken what each of some lines says for itself. -/
structure Reflects (reader : Reader) (lines : List String) : Prop where
  operations : ∀ (address : Address) (operation : Operation),
    reader.operations[address]? = some operation ↔
      ∃ text ∈ lines, ∃ label, Line.scan text = .ok (.operation label (some address) operation)
  labels : ∀ (name : String) (address : Address),
    reader.labels[name]? = some address ↔
      ∃ text ∈ lines, ∃ operation,
        Line.scan text = .ok (.operation (some name) (some address) operation)
  sourceLabels : ∀ (address : Address) (name : String),
    reader.sourceLabels[address]? = some name ↔
      ∃ text ∈ lines, ∃ operation,
        Line.scan text = .ok (.operation (some name) (some address) operation)
  pending : reader.pending = []
  skipped : reader.skipped.toList.map unnumbered = lines.filterMap malformed?

theorem reflects_nil : ({} : Reader).Reflects [] := by
  refine ⟨?_, ?_, ?_, rfl, rfl⟩
  · intro address operation
    change (∅ : AddressMap Operation)[address]? = _ ↔ _
    simp
  · intro name address
    change (∅ : NameMap Address)[name]? = _ ↔ _
    simp
  · intro address name
    change (∅ : AddressMap String)[address]? = _ ↔ _
    simp

variable {reader : Reader} {before : List String} {text : String}

private theorem exists_mem_concat {holds : String → Prop} :
    (∃ line ∈ before ++ [text], holds line) ↔ (∃ line ∈ before, holds line) ∨ holds text := by
  simp only [List.mem_append, List.mem_singleton, or_and_right, exists_or, exists_eq_left]

/-- A line without an operation at most adds to what is skipped. -/
theorem Reflects.concat_of_no_operation (h : reader.Reflects before)
    (hnone : ∀ label written operation, Line.scan text ≠ .ok (.operation label written operation))
    {skipped : Array SkippedLine}
    (hskipped : skipped.toList.map unnumbered
      = reader.skipped.toList.map unnumbered ++ (malformed? text).toList) :
    ({ reader with skipped } : Reader).Reflects (before ++ [text]) := by
  refine ⟨?_, ?_, ?_, h.pending, ?_⟩
  · intro address operation
    rw [exists_mem_concat, ← h.operations]
    simp [hnone]
  · intro name address
    rw [exists_mem_concat, ← h.labels]
    simp [hnone]
  · intro address name
    rw [exists_mem_concat, ← h.sourceLabels]
    simp [hnone]
  · rw [hskipped, h.skipped, List.filterMap_append]
    cases hmalformed : malformed? text <;> simp [hmalformed]

/-- A reader that waits for no labels gives an operation its own label alone. -/
theorem accept_eq_of_pending_nil (hpending : reader.pending = []) (address : Address)
    (label : Option String) (operation : Operation) :
    reader.accept address label operation =
      { label.elim reader (reader.define address) with
        operations := reader.operations.insert address operation
        next := some ({ operation with address } : Instruction).nextAddress } := by
  cases label <;> simp [accept, hpending, define]

section Operation

variable {label : Option String} {address : Address} {operation : Operation}
  (hscan : Line.scan text = .ok (.operation label (some address) operation))

include hscan

theorem Reflects.operations_free (h : reader.Reflects before)
    (hlines : Independent (before ++ [text])) : reader.operations[address]? = none := by
  rw [Option.eq_none_iff_forall_ne_some]
  intro found hfound
  obtain ⟨earlier, hearlier, other, hother⟩ := (h.operations address found).mp hfound
  exact ne_of_nodup_filterMap_concat hlines.addresses (writtenAddress?_of_scan hscan)
    earlier hearlier
    (writtenAddress?_of_scan hother)

theorem Reflects.sourceLabels_free (h : reader.Reflects before)
    (hlines : Independent (before ++ [text])) : reader.sourceLabels[address]? = none := by
  rw [Option.eq_none_iff_forall_ne_some]
  intro found hfound
  obtain ⟨earlier, hearlier, other, hother⟩ := (h.sourceLabels address found).mp hfound
  exact ne_of_nodup_filterMap_concat hlines.addresses (writtenAddress?_of_scan hscan)
    earlier hearlier
    (writtenAddress?_of_scan hother)

theorem Reflects.labels_free (h : reader.Reflects before) (hlines : Independent (before ++ [text]))
    {name : String} (hname : label = some name) : reader.labels[name]? = none := by
  rw [Option.eq_none_iff_forall_ne_some]
  intro found hfound
  obtain ⟨earlier, hearlier, other, hother⟩ := (h.labels name found).mp hfound
  exact ne_of_nodup_filterMap_concat hlines.names ((inlineLabel?_of_scan hscan).trans hname)
    earlier hearlier
    (inlineLabel?_of_scan hother)

/-- An operation joins what was accepted before, with its label. -/
theorem Reflects.accept (h : reader.Reflects before) (hlines : Independent (before ++ [text])) :
    (reader.accept address label operation).Reflects (before ++ [text]) := by
  have hoperation : ∀ (other : Address) (found : Operation),
      (reader.operations.insert address operation)[other]? = some found ↔
        ∃ line ∈ before ++ [text], ∃ label,
          Line.scan line = .ok (.operation label (some other) found) := by
    intro other found
    rw [getElem?_insert_eq_some_iff (h.operations_free hscan hlines), exists_mem_concat,
      ← h.operations, hscan]
    simp
  have hskipped :
      reader.skipped.toList.map unnumbered = (before ++ [text]).filterMap malformed? := by
    rw [h.skipped, List.filterMap_append]
    simp [malformed?, hscan]
  rw [accept_eq_of_pending_nil h.pending]
  cases hlabel : label with
  | none =>
    refine ⟨hoperation, ?_, ?_, h.pending, hskipped⟩
    · intro name other
      rw [exists_mem_concat, ← h.labels, hscan, hlabel]
      simp
    · intro other name
      rw [exists_mem_concat, ← h.sourceLabels, hscan, hlabel]
      simp
  | some name =>
    refine ⟨hoperation, ?_, ?_, h.pending, hskipped⟩
    · intro other found
      show (reader.labels.insertIfNew name address)[other]? = some found ↔ _
      have hfree := h.labels_free hscan hlines hlabel
      rw [insertIfNew_eq_insert hfree, getElem?_insert_eq_some_iff hfree, exists_mem_concat,
        ← h.labels, hscan, hlabel]
      simp
    · intro other found
      show (reader.sourceLabels.insertIfNew address name)[other]? = some found ↔ _
      have hfree := h.sourceLabels_free hscan hlines
      rw [insertIfNew_eq_insert hfree, getElem?_insert_eq_some_iff hfree, exists_mem_concat,
        ← h.sourceLabels, hscan, hlabel]
      simp [and_comm]

end Operation

/-- One more line that stands alone is taken for what it says. -/
theorem Reflects.feed (h : reader.Reflects before) (hlines : Independent (before ++ [text]))
    (number : Nat) : (reader.feed number text).Reflects (before ++ [text]) := by
  have halone := hlines.alone text (List.mem_append_right before (List.mem_singleton_self text))
  unfold Reader.feed
  cases hscan : Line.scan text with
  | error error =>
    apply h.concat_of_no_operation
    · simp [hscan]
    · simp [malformed?, hscan, unnumbered]
  | ok line =>
    cases line with
    | blank =>
      apply h.concat_of_no_operation
      · simp [hscan]
      · simp [malformed?, hscan]
    | label name => simp [standsAlone, hscan] at halone
    | operation label written operation =>
      cases written with
      | none => simp [standsAlone, hscan] at halone
      | some address =>
        have hfree : reader.operations.contains address = false := by
          rw [Std.ExtTreeMap.contains_eq_isSome_getElem?, h.operations_free hscan hlines]
          rfl
        simpa [hfree] using h.accept hscan hlines

theorem Reflects.feedAll (h : reader.Reflects before) {after : List String}
    (hlines : Independent (before ++ after)) (number : Nat) :
    (reader.feedAll number after).Reflects (before ++ after) := by
  induction after generalizing reader before number with
  | nil =>
    rw [List.append_nil]
    exact h
  | cons text rest ih =>
    rw [List.append_cons] at hlines ⊢
    exact ih (h.feed hlines.of_append number) hlines (number + 1)

/-- What a reader gives depends on which lines it took, not on their order. -/
theorem Reflects.eq_of_perm {other : Reader} {lines others : List String}
    (h : reader.Reflects lines) (hother : other.Reflects others) (hperm : others.Perm lines) :
    other.operations = reader.operations ∧ other.labels = reader.labels ∧
      other.sourceLabels = reader.sourceLabels := by
  refine ⟨?_, ?_, ?_⟩
  · apply Std.ExtTreeMap.ext_getElem?
    intro address
    apply Option.ext
    intro operation
    simp only [h.operations, hother.operations, hperm.mem_iff]
  · apply Std.ExtTreeMap.ext_getElem?
    intro name
    apply Option.ext
    intro address
    simp only [h.labels, hother.labels, hperm.mem_iff]
  · apply Std.ExtTreeMap.ext_getElem?
    intro address
    apply Option.ext
    intro name
    simp only [h.sourceLabels, hother.sourceLabels, hperm.mem_iff]

end Reader

theorem reflects_ofLines {lines : List String} (h : Independent lines) :
    (Reader.feedAll {} 1 lines).Reflects lines := by
  have hlines : Independent ([] ++ lines) := h
  exact Reader.reflects_nil.feedAll hlines 1

/-- Lines that are independent of each other may stand in any order: the instructions and the
candidates are the same, and the same lines are skipped for the same reasons. -/
theorem lines_in_any_order {lines others : List String} (h : Independent lines)
    (hperm : others.Perm lines) :
    (ofLines others).instructions = (ofLines lines).instructions ∧
      (ofLines others).candidates = (ofLines lines).candidates ∧
      ((ofLines others).skipped.map unnumbered).Perm ((ofLines lines).skipped.map unnumbered) := by
  have hlines := reflects_ofLines h
  have hothers := reflects_ofLines (h.perm hperm)
  obtain ⟨hoperations, hlabels, hsourceLabels⟩ := hlines.eq_of_perm hothers hperm
  have hinstructions : (ofLines others).instructions = (ofLines lines).instructions := by
    simp only [ofLines, Reader.finish, Reader.instructions, hoperations, hlabels]
  refine ⟨hinstructions, ?_, ?_⟩
  · show Candidates.collect (ofLines others).instructions _
        = Candidates.collect (ofLines lines).instructions _
    rw [hinstructions, hsourceLabels]
  · show ((Reader.feedAll {} 1 others).skipped.toList.map unnumbered).Perm
      ((Reader.feedAll {} 1 lines).skipped.toList.map unnumbered)
    rw [hlines.skipped, hothers.skipped]
    exact hperm.filterMap malformed?

/-- A loop that is entered in its middle, with a comment and a line that cannot be read. -/
def enteredLoop : List String :=
  ["start: $C000: LDX #$08", "$C002: JMP test", "body: $C005: DEX", "; counts down",
    "test: $C006: CPX #$00", "$C008: BNE body", "$C00A: ???", "$C00B: JSR start"]

theorem enteredLoop_in_any_order :
    Independent enteredLoop ∧ enteredLoop.reverse.Perm enteredLoop ∧
      (ofLines enteredLoop).instructions.length = 6 ∧
      (ofLines enteredLoop.reverse).instructions = (ofLines enteredLoop).instructions ∧
      (ofLines enteredLoop.reverse).candidates = (ofLines enteredLoop).candidates ∧
      ((ofLines enteredLoop.reverse).skipped.map unnumbered).Perm
        ((ofLines enteredLoop).skipped.map unnumbered) := by
  have hindependent : Independent enteredLoop :=
    ⟨by decide +kernel, by decide +kernel, by decide +kernel⟩
  have hperm : enteredLoop.reverse.Perm enteredLoop := List.reverse_perm enteredLoop
  exact ⟨hindependent, hperm, by decide +kernel, lines_in_any_order hindependent hperm⟩

end Lift6502.Listing
