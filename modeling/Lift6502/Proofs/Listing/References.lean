import Lift6502.Proofs.Listing.Growth
import Lift6502.Proofs.Listing.Reordering
import Lift6502.Proofs.Listing.Spelled
import Lift6502.Proofs.Text.Identifiers

/-!
# References to labels

A label belongs to the accepted line it stands on, or to the next accepted line below it. Which
address it names is settled by the first line that it belongs to, wherever that line stands: a jump,
a branch or a call to it goes to this address, also from lines above. One identifier is no
reference: as an operand the letter `A`, of either case, is the accumulator.
-/

namespace Lift6502.Listing

/-! ### Lines and their labels -/

/-- The label on a line that holds nothing else. -/
def labelAlone? (text : String) : Option String :=
  match Line.scan text with
  | .ok (.label name) => some name
  | _ => none

/-- The text of the operand on a line with an operation. -/
def operandText? (text : String) : Option String :=
  ((Scan.parts? (Scan.code text.toList)).bind (·.operand)).map fun operand =>
    String.ofList (Text.trim operand)

/-- The instruction on the line at a position, as it is written, if the line is accepted. -/
def acceptedAt? (lines : List String) (position : Nat) : Option Instruction :=
  ((Verdict.ofLines [] lines)[position]?).bind Verdict.accepted?

/-- Whether a label on a line of its own waits for the line at a position, because no line was
accepted since. -/
def WaitsFor (lines : List String) (name : String) (position : Nat) : Prop :=
  ∃ line < position, (lines[line]?).bind labelAlone? = some name ∧
    ∀ between, line < between → between < position → acceptedAt? lines between = none

/-- Whether a label belongs to the accepted line at a position. -/
def Labels (lines : List String) (name : String) (position : Nat) : Prop :=
  (acceptedAt? lines position).isSome = true ∧
    ((lines[position]?).bind inlineLabel? = some name ∨ WaitsFor lines name position)

/-- Whether a label names an address: that of the first accepted line to which it belongs. -/
def Names (lines : List String) (name : String) (address : Address) : Prop :=
  ∃ position i, acceptedAt? lines position = some i ∧ i.address = address ∧
    Labels lines name position ∧
    ∀ earlier < position, ¬ Labels lines name earlier

/-! ### What a reader knows of labels -/

namespace Reader

theorem labels_foldl_define (address : Address) (names : List String) (reader : Reader) :
    (names.foldl (define address) reader).labels
      = names.foldl (fun labels name => labels.insertIfNew name address) reader.labels := by
  induction names generalizing reader with
  | nil => rfl
  | cons name rest ih => exact ih (reader.define address name)

/-- Names that are new get an address, the others keep theirs. -/
theorem getElem?_foldl_insertIfNew (address : Address) (names : List String)
    (labels : NameMap Address) (name : String) :
    (names.foldl (fun labels name => labels.insertIfNew name address) labels)[name]?
      = (labels[name]?).or (if name ∈ names then some address else none) := by
  induction names generalizing labels with
  | nil => simp
  | cons first rest ih =>
    rw [List.foldl_cons, ih, getElem?_insertIfNew_eq_or, Option.or_assoc]
    congr 1
    by_cases hfirst : first = name
    · simp [hfirst]
    · simp [hfirst, Ne.symm hfirst]

variable {reader : Reader} {before : List Instruction}

/-- An accepted line takes the labels that waited and its own one. -/
theorem Tracks.labels_of_accepted (h : reader.Tracks before) (number : Nat) {text : String}
    {i : Instruction} (haccepted : Verdict.of before text = .accepted i) :
    (reader.feed number text).pending = [] ∧
      ∀ name, (reader.feed number text).labels[name]?
        = (reader.labels[name]?).or (if name ∈ reader.pending ++ (inlineLabel? text).toList
          then some i.address else none) := by
  cases Verdict.of_eq_iff.mp haccepted with
  | @accepted label written operation address hscan hplace hfree =>
    have hplaced : (written <|> reader.next) = some address := by rw [h.next]; exact hplace
    have hnew : reader.operations.contains address = false := by
      rw [h.contains, List.any_eq_false]
      simpa using hfree
    have hfeed : reader.feed number text = reader.accept address label operation := by
      simp only [Reader.feed, hscan, hplaced, hnew, Bool.false_eq_true, if_false]
    rw [hfeed, inlineLabel?_of_scan hscan]
    refine ⟨rfl, fun name => ?_⟩
    rw [← getElem?_foldl_insertIfNew, ← labels_foldl_define]
    rfl

/-- Any other line leaves labels as they are, and one with a label alone adds to those that wait. -/
theorem Tracks.labels_of_not_accepted (h : reader.Tracks before) (number : Nat) {text : String}
    (hother : (Verdict.of before text).accepted? = none) :
    (reader.feed number text).pending = reader.pending ++ (labelAlone? text).toList ∧
      (reader.feed number text).labels = reader.labels := by
  unfold Verdict.of at hother
  unfold Reader.feed labelAlone?
  cases hscan : Line.scan text with
  | error error => exact ⟨(List.append_nil _).symm, rfl⟩
  | ok line =>
    cases line with
    | blank => exact ⟨(List.append_nil _).symm, rfl⟩
    | label name => exact ⟨rfl, rfl⟩
    | operation label written operation =>
      have hplace : (written <|> reader.next) = Verdict.place? before written := by
        rw [h.next, Verdict.place?]
      rw [hscan] at hother
      simp only [hplace]
      cases hplaced : Verdict.place? before written with
      | none => exact ⟨(List.append_nil _).symm, rfl⟩
      | some address =>
        simp only [hplaced] at hother
        simp only [h.contains]
        split at hother
        · rename_i htaken
          rw [if_pos htaken]
          exact ⟨(List.append_nil _).symm, rfl⟩
        · cases hother

end Reader

/-! ### Labels of the lines so far -/

section Lines

variable {lines : List String} {name : String} {address : Address} {position : Nat}

theorem Verdict.ofLines_take (before : List Instruction) (lines : List String) (position : Nat) :
    Verdict.ofLines before (lines.take position)
      = (Verdict.ofLines before lines).take position := by
  induction lines generalizing before position with
  | nil => simp [Verdict.ofLines]
  | cons text rest ih =>
    cases position with
    | zero => rfl
    | succ position =>
      rw [List.take_succ_cons, Verdict.ofLines, ih, Verdict.ofLines, List.take_succ_cons]

/-- What was accepted before a position. -/
def acceptedBefore (lines : List String) (position : Nat) : List Instruction :=
  Verdict.acceptedOf ((Verdict.ofLines [] lines).take position)

theorem acceptedAt?_eq {text : String} (htext : lines[position]? = some text) :
    acceptedAt? lines position = (Verdict.of (acceptedBefore lines position) text).accepted? := by
  rw [acceptedAt?, Verdict.getElem?_ofLines, htext]
  rfl

/-- The reader of the lines in front of a position. -/
def readerAt (lines : List String) (position : Nat) : Reader :=
  Reader.feedAll {} 1 (lines.take position)

theorem tracks_readerAt (lines : List String) (position : Nat) :
    (readerAt lines position).Tracks (acceptedBefore lines position) := by
  have h := (Reader.tracks_nil.feedAll 1 (lines.take position)).1
  rwa [List.nil_append, Verdict.ofLines_take] at h

theorem readerAt_succ {text : String} (htext : lines[position]? = some text) :
    ∃ number, readerAt lines (position + 1) = (readerAt lines position).feed number text := by
  refine ⟨1 + (lines.take position).length, ?_⟩
  rw [readerAt, List.take_add_one, htext, Reader.feedAll_append]
  rfl

theorem waitsFor_succ :
    WaitsFor lines name (position + 1) ↔
      (lines[position]?).bind labelAlone? = some name ∨ WaitsFor lines name position ∧
      acceptedAt? lines position = none := by
  constructor
  · rintro ⟨line, hlt, hname, hbetween⟩
    rcases Nat.lt_or_eq_of_le (Nat.le_of_lt_succ hlt) with hearlier | rfl
    · refine Or.inr ⟨⟨line, hearlier, hname, fun between hafter hbefore => ?_⟩, ?_⟩
      · exact hbetween between hafter (Nat.lt_succ_of_lt hbefore)
      · exact hbetween position hearlier (Nat.lt_succ_self position)
    · exact Or.inl hname
  · rintro (hname | ⟨⟨line, hlt, hname, hbetween⟩, hnone⟩)
    · refine ⟨position, Nat.lt_succ_self position, hname, fun between hafter hbefore => ?_⟩
      omega
    · refine ⟨line, Nat.lt_succ_of_lt hlt, hname, fun between hafter hbefore => ?_⟩
      rcases Nat.lt_or_eq_of_le (Nat.le_of_lt_succ hbefore) with hearlier | rfl
      · exact hbetween between hafter hearlier
      · exact hnone

/-- Whether a label names an address as far as the lines in front of a position say. -/
def NamesBefore (lines : List String) (name : String) (address : Address) (limit : Nat) : Prop :=
  ∃ position < limit, ∃ i, acceptedAt? lines position = some i ∧ i.address = address ∧
    Labels lines name position ∧
    ∀ earlier < position, ¬ Labels lines name earlier

theorem namesBefore_succ :
    NamesBefore lines name address (position + 1) ↔
      NamesBefore lines name address position ∨
        ∃ i, acceptedAt? lines position = some i ∧ i.address = address ∧
        Labels lines name position ∧
          ∀ earlier < position, ¬ Labels lines name earlier := by
  constructor
  · rintro ⟨first, hlt, hfirst⟩
    rcases Nat.lt_or_eq_of_le (Nat.le_of_lt_succ hlt) with hearlier | rfl
    · exact Or.inl ⟨first, hearlier, hfirst⟩
    · exact Or.inr hfirst
  · rintro (⟨first, hlt, hfirst⟩ | hlast)
    · exact ⟨first, Nat.lt_succ_of_lt hlt, hfirst⟩
    · exact ⟨position, Nat.lt_succ_self position, hlast⟩

/-- A label that belongs to some line names the address of the first one. -/
theorem exists_namesBefore {limit : Nat} (hlt : position < limit) (h : Labels lines name position) :
    ∃ address, NamesBefore lines name address limit := by
  induction position using Nat.strongRecOn with
  | ind position ih =>
    by_cases hearlier : ∃ earlier < position, Labels lines name earlier
    · obtain ⟨earlier, hbefore, hlabel⟩ := hearlier
      exact ih earlier hbefore (Nat.lt_trans hbefore hlt) hlabel
    · obtain ⟨i, hi⟩ := Option.isSome_iff_exists.mp h.1
      exact ⟨i.address, position, hlt, i, hi, rfl, h, fun earlier hbefore hlabel =>
        hearlier ⟨earlier, hbefore, hlabel⟩⟩

theorem not_labels_iff {limit : Nat} :
    (∀ position < limit, ¬ Labels lines name position) ↔
      ∀ address, ¬ NamesBefore lines name address limit := by
  constructor
  · rintro hnone address ⟨position, hlt, _, _, _, hlabel, _⟩
    exact hnone position hlt hlabel
  · intro hnone position hlt hlabel
    obtain ⟨address, hnames⟩ := exists_namesBefore hlt hlabel
    exact hnone address hnames

theorem labelAlone?_of_accepted {before : List Instruction} {text : String} {i : Instruction}
    (h : Verdict.of before text = .accepted i) : labelAlone? text = none := by
  cases Verdict.of_eq_iff.mp h with
  | accepted hscan => rw [labelAlone?, hscan]

/-- What the reader of some lines knows of labels: which of them wait, and what the others name. -/
structure KnowsLabels (lines : List String) (position : Nat) : Prop where
  pending : ∀ name, name ∈ (readerAt lines position).pending ↔ WaitsFor lines name position
  labels : ∀ name address, (readerAt lines position).labels[name]? = some address ↔
    NamesBefore lines name address position

theorem KnowsLabels.succ {text : String} (htext : lines[position]? = some text)
    (h : KnowsLabels lines position) : KnowsLabels lines (position + 1) := by
  obtain ⟨number, hfeed⟩ := readerAt_succ htext
  have htracks := tracks_readerAt lines position
  have haccepted := acceptedAt?_eq htext
  cases hi : (Verdict.of (acceptedBefore lines position) text).accepted? with
  | none =>
    obtain ⟨hpending, hlabels⟩ := htracks.labels_of_not_accepted number hi
    rw [hi] at haccepted
    refine ⟨fun name => ?_, fun name address => ?_⟩
    · rw [hfeed, hpending, List.mem_append, h.pending, Option.mem_toList, waitsFor_succ, htext,
        Option.bind_some, and_iff_left haccepted, or_comm]
    · rw [hfeed, hlabels, h.labels, namesBefore_succ]
      simp [haccepted]
  | some i =>
    have hverdict : Verdict.of (acceptedBefore lines position) text = .accepted i := by
      cases hverdict : Verdict.of (acceptedBefore lines position) text <;> rw [hverdict] at hi
        <;> cases hi
      rfl
    obtain ⟨hpending, hlabels⟩ := htracks.labels_of_accepted number hverdict
    rw [hi] at haccepted
    have hlabel : ∀ name, name ∈ (readerAt lines position).pending ++ (inlineLabel? text).toList ↔
        Labels lines name position := by
      intro name
      rw [List.mem_append, h.pending, Option.mem_toList, Labels, haccepted, htext,
        Option.bind_some, or_comm]
      exact (and_iff_right rfl).symm
    refine ⟨fun name => ?_, fun name address => ?_⟩
    · rw [hfeed, hpending, waitsFor_succ, htext, Option.bind_some, labelAlone?_of_accepted hverdict,
        haccepted]
      simp
    · rw [hfeed, hlabels, namesBefore_succ]
      simp only [haccepted, Option.some.injEq, exists_eq_left']
      cases hknown : (readerAt lines position).labels[name]? with
      | none =>
        have hnone : ∀ address, ¬ NamesBefore lines name address position := by
          intro other hother
          rw [(h.labels name other).mpr hother] at hknown
          cases hknown
        rw [Option.none_or, Option.ite_none_right_eq_some, hlabel, Option.some.injEq, and_comm,
          or_iff_right (hnone address), and_iff_left (not_labels_iff.mpr hnone)]
      | some known =>
        have hnames : NamesBefore lines name known position := (h.labels name known).mp hknown
        have hsome : ¬ ∀ earlier < position, ¬ Labels lines name earlier :=
          fun hnone => not_labels_iff.mp hnone known hnames
        rw [Option.some_or, ← hknown, h.labels]
        simp [hsome]

theorem knowsLabels (lines : List String) (position : Nat) (hle : position ≤ lines.length) :
    KnowsLabels lines position := by
  induction position with
  | zero => exact ⟨fun name => by simp [readerAt, Reader.feedAll, WaitsFor], fun name address => by
      simp [readerAt, Reader.feedAll, NamesBefore]⟩
  | succ position ih => exact (ih (Nat.le_of_succ_le hle)).succ (List.getElem?_eq_getElem hle)

/-- The labels known at the end of the listing are the names of addresses. -/
theorem labels_feedAll_eq_some_iff :
    (Reader.feedAll {} 1 lines).labels[name]? = some address ↔ Names lines name address := by
  have h := (knowsLabels lines lines.length (Nat.le_refl _)).labels name address
  rw [readerAt, List.take_length] at h
  rw [h]
  constructor
  · rintro ⟨position, _, hposition⟩
    exact ⟨position, hposition⟩
  · rintro ⟨position, i, hi, hnames⟩
    refine ⟨position, ?_, i, hi, hnames⟩
    rw [acceptedAt?, Verdict.getElem?_ofLines] at hi
    by_contra hlong
    rw [List.getElem?_eq_none (Nat.le_of_not_lt hlong)] at hi
    cases hi

end Lines

/-! ### Operand texts -/

theorem operand?_of_operandText? {text : String} {label : Option String} {written : Option Address}
    {operation : Operation} {operand : String}
    (hscan : Line.scan text = .ok (.operation label written operation))
    (hoperand : operandText? text = some operand) :
    Scan.operand? operand.toList = some operation.operand := by
  unfold operandText? at hoperand
  unfold Line.scan at hscan
  split at hscan
  · cases hscan
  · split at hscan
    · cases hscan
    · split at hscan
      · cases hscan
      · rename_i parts hparts
        rw [hparts, Option.bind_some, Option.map_eq_some_iff] at hoperand
        obtain ⟨chars, hchars, rfl⟩ := hoperand
        rw [hchars, Option.map_some] at hscan
        simp only at hscan
        split at hscan
        · rename_i found hfound
          cases hscan
          rw [String.toList_ofList, hfound]
        · cases hscan

/-- An identifier is a symbolic operand, unless it is the name of the accumulator. -/
theorem operand?_of_isName {name : String} (hname : Text.IsName name)
    (hother : name ≠ "A" ∧ name ≠ "a") : Scan.operand? name.toList = some (.symbolic name) := by
  have hspelled : name.toList ≠ ['a'] ∧ name.toList ≠ ['A'] :=
    ⟨fun h => hother.2 (String.toList_inj.mp h), fun h => hother.1 (String.toList_inj.mp h)⟩
  have hread :=
    Grammar.OperandForm.operand?_symbolic ⟨name.toList, hname.start, hname.chars⟩ hspelled
  rwa [Grammar.OperandForm.text, String.ofList_toList] at hread

/-! ### References in a listing -/

/-- What becomes of the operands that name labels, where only some identifiers are taken for
references. -/
structure Resolves (IsReference : String → Prop) (lines : List String) (listing : Listing) :
    Prop where
  /-- A jump, branch or call to a label of the listing goes to the address that the label names. -/
  found : ∀ position text written name, lines[position]? = some text →
    acceptedAt? lines position = some written →
    written.mnemonic.isControlFlow = true → operandText? text = some name → Text.IsName name →
    IsReference name →
    (∃ line, Labels lines name line) →
    ∃ target, Names lines name target ∧
    ⟨⟨written.mnemonic, .absolute target⟩, written.address⟩ ∈ listing.instructions
  /-- What such an instruction still names is no label of the listing. -/
  foreign : ∀ i ∈ listing.instructions, i.mnemonic.isControlFlow = true →
    ∀ name, i.operand = .symbolic name →
    ∀ line, ¬ Labels lines name line
  /-- The other instructions stand as they were written. -/
  kept : ∀ position written, acceptedAt? lines position = some written →
    written.mnemonic.isControlFlow = false →
    written ∈ listing.instructions

theorem Reader.resolve_of_label {labels : NameMap Address} {operation : Operation} {name : String}
    {target : Address} (hname : operation.operand = .symbolic name)
    (hflow : operation.mnemonic.isControlFlow = true) (htarget : labels[name]? = some target) :
    resolve labels operation = { operation with operand := .absolute target } := by
  simp only [resolve, hname, hflow, if_true, htarget]

section

variable {lines : List String} {position : Nat} {written : Instruction} {name : String}

/-- An accepted instruction is in the listing, once its label has been looked up. -/
theorem mem_instructions_of_accepted (h : acceptedAt? lines position = some written) :
    ⟨Reader.resolve (Reader.feedAll {} 1 lines).labels written.toOperation, written.address⟩
      ∈ (ofLines lines).instructions := by
  have htracks := (Reader.tracks_nil.feedAll 1 lines).1
  obtain ⟨verdict, hverdict, haccepted⟩ := Option.bind_eq_some_iff.mp h
  have hmem : written ∈ Verdict.acceptedOf (Verdict.ofLines [] lines) :=
    List.mem_filterMap.mpr ⟨verdict, List.mem_of_getElem? hverdict, haccepted⟩
  exact Reader.mem_instructions.mpr ⟨written.toOperation, (htracks.operations _ _).mpr hmem, rfl⟩

theorem exists_names {line : Nat} (h : Labels lines name line) :
    ∃ target, Names lines name target := by
  obtain ⟨target, first, _, hfirst⟩ := exists_namesBefore (Nat.lt_succ_self line) h
  exact ⟨target, first, hfirst⟩

/-- The operand of an accepted line is what its text spells. -/
theorem operand?_of_accepted {text : String} (htext : lines[position]? = some text)
    (h : acceptedAt? lines position = some written) (hoperand : operandText? text = some name) :
    Scan.operand? name.toList = some written.operand := by
  rw [acceptedAt?_eq htext] at h
  cases hverdict : Verdict.of (acceptedBefore lines position) text with
  | accepted i =>
    rw [hverdict] at h
    cases h
    cases Verdict.of_eq_iff.mp hverdict with
    | accepted hscan => exact operand?_of_operandText? hscan hoperand
  | blank | label | skipped =>
    rw [hverdict] at h
    cases h

end

/-- A jump, branch or call whose operand is an identifier other than `A` and `a` goes to the first
accepted instruction with that label, if there is one in front of it or behind it. What is left
symbolic in such an instruction names no label, and no other operand changes; `A` and `a` are the
accumulator, whatever the labels are. -/
theorem references_resolve (lines : List String) :
    Resolves (fun name => name ≠ "A" ∧ name ≠ "a") lines (ofLines lines) ∧
      ∀ position text written, lines[position]? = some text →
      acceptedAt? lines position = some written →
        operandText? text = some "A" ∨ operandText? text = some "a" →
        written.operand = .accumulator ∧ written ∈ (ofLines lines).instructions := by
  refine ⟨⟨?_, ?_, ?_⟩, ?_⟩
  · rintro position text written name htext haccepted hflow hoperand hname hother ⟨line, hlabel⟩
    obtain ⟨target, htarget⟩ := exists_names hlabel
    refine ⟨target, htarget, ?_⟩
    have hsymbolic : written.operand = .symbolic name :=
      Option.some.inj ((operand?_of_accepted htext haccepted hoperand).symm.trans
        (operand?_of_isName hname hother))
    have hmem := mem_instructions_of_accepted haccepted
    rwa [Reader.resolve_of_label hsymbolic hflow (labels_feedAll_eq_some_iff.mpr htarget)] at hmem
  · intro i hi hflow name hname line hlabel
    obtain ⟨target, htarget⟩ := exists_names hlabel
    obtain ⟨operation, -, hresolve⟩ := Reader.mem_instructions.mp hi
    change i.toOperation.operand = _ at hname
    change i.toOperation.mnemonic.isControlFlow = true at hflow
    rw [← hresolve] at hname hflow
    rcases Reader.resolve_cases (Reader.feedAll {} 1 lines).labels operation with
      hopen | ⟨written, found, hwritten, hjump, hfound⟩
    · -- A label that stayed open is unknown at the end of the listing.
      rw [hopen] at hname hflow
      rw [Reader.resolve_of_label hname hflow (labels_feedAll_eq_some_iff.mpr htarget)] at hopen
      rw [← hopen] at hname
      cases hname
    · rw [Reader.resolve_of_label hwritten hjump hfound] at hname
      cases hname
  · intro position written haccepted hflow
    have hmem := mem_instructions_of_accepted haccepted
    rcases Reader.resolve_cases (Reader.feedAll {} 1 lines).labels written.toOperation with
      hopen | ⟨_, _, _, hjump, _⟩
    · rwa [hopen] at hmem
    · rw [hflow] at hjump
      cases hjump
  · intro position text written htext haccepted hoperand
    have hread : Scan.operand? "A".toList = some written.operand ∨
        Scan.operand? "a".toList = some written.operand :=
      hoperand.imp (operand?_of_accepted htext haccepted) (operand?_of_accepted htext haccepted)
    have haccumulator : written.operand = .accumulator := by
      rcases hread with hread | hread <;> exact (Option.some.inj hread).symm
    refine ⟨haccumulator, ?_⟩
    have hmem := mem_instructions_of_accepted haccepted
    rwa [Reader.resolve, haccumulator] at hmem

/-- A label may be called `A`, but a jump to it is not one: its operand is the accumulator. -/
theorem accumulator_is_no_reference :
    ¬ Resolves (fun _ => True) ["A: $C000: NOP", "$C001: JMP A"]
      (ofLines ["A: $C000: NOP", "$C001: JMP A"]) := by
  intro h
  have hname : Text.IsName "A" := Text.isName_of_toList rfl rfl (by simp)
  have hlabel : Labels ["A: $C000: NOP", "$C001: JMP A"] "A" 0 :=
    ⟨by decide +kernel, Or.inl (by decide +kernel)⟩
  obtain ⟨target, -, hmem⟩ :=
    h.found 1 "$C001: JMP A" ⟨⟨.jmp, .accumulator⟩, 0xC001⟩ "A" rfl (by decide +kernel) rfl
      (by decide +kernel) hname trivial
      ⟨0, hlabel⟩
  have hinstructions : (ofLines ["A: $C000: NOP", "$C001: JMP A"]).instructions
      = [⟨⟨.nop, .implied⟩, 0xC000⟩, ⟨⟨.jmp, .accumulator⟩, 0xC001⟩] := by decide +kernel
  rw [hinstructions] at hmem
  simp at hmem

end Lift6502.Listing
