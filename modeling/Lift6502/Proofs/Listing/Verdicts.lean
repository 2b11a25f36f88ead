import Lift6502.Proofs.Listing.Reader

/-!
# What becomes of each line

Every line of a listing is blank, a label alone, accepted or skipped, and which it is follows from
the lines before it. The listing that is read consists of just these lines: the accepted ones in
ascending order, the skipped ones where they stood.
-/

namespace Lift6502

/-- Whether an error lies in the line itself, whatever stands before it. -/
def LineError.isMalformed : LineError → Bool
  | unrecognized | operand _ => true
  | missingAddress | duplicateAddress _ => false

theorem Line.isMalformed_of_scan {text : String} {error : LineError}
    (h : Line.scan text = .error error) : error.isMalformed = true := by
  unfold Line.scan at h
  split at h
  · cases h
  · split at h
    · cases h
    · split at h
      · cases h
        rfl
      · split at h
        · cases h
        · split at h
          · cases h
          · cases h
            rfl

namespace Listing

/-- What becomes of a line. -/
inductive Verdict where
  | blank
  | label
  /-- The instruction is as the line has it, with a label that may still be resolved. -/
  | accepted (instruction : Instruction)
  | skipped (error : LineError)
  deriving DecidableEq

namespace Verdict

def accepted? : Verdict → Option Instruction
  | accepted instruction => some instruction
  | _ => none

def error? : Verdict → Option LineError
  | skipped error => some error
  | _ => none

/-- What is recorded of a line that is skipped. -/
def skippedLine? (number : Nat) (text : String) (verdict : Verdict) : Option SkippedLine :=
  verdict.error?.map (SkippedLine.mk number text)

/-- Where a line sits: at the address that is written on it, or else after the line accepted
last. -/
def place? (before : List Instruction) (written : Option Address) : Option Address :=
  written <|> before.getLast?.map (·.nextAddress)

/-- The verdict on a line, after the instructions that were accepted before it. -/
def of (before : List Instruction) (text : String) : Verdict :=
  match Line.scan text with
  | .ok .blank => blank
  | .ok (.label _) => label
  | .ok (.operation _ written operation) =>
    match place? before written with
    | none => skipped .missingAddress
    | some address =>
      if before.any (·.address == address) then skipped (.duplicateAddress address)
      else accepted { operation with address }
  | .error error => skipped error

/-- Which verdict a line gets, and why. -/
inductive Judged (before : List Instruction) (text : String) : Verdict → Prop where
  | blank (hscan : Line.scan text = .ok .blank) : Judged before text blank
  | label {name : String} (hscan : Line.scan text = .ok (.label name)) : Judged before text label
  | malformed {error : LineError} (hscan : Line.scan text = .error error)
      (hmalformed : error.isMalformed = true) :
    Judged before text (skipped error)
  | missing {label : Option String} {operation : Operation}
    (hscan : Line.scan text = .ok (.operation label none operation)) (hfirst : before = []) :
    Judged before text (skipped .missingAddress)
  | duplicate {label : Option String} {written : Option Address} {operation : Operation}
    {address : Address}
    (hscan : Line.scan text = .ok (.operation label written operation))
    (hplace : place? before written = some address)
    (htaken : ∃ earlier ∈ before, earlier.address = address) :
    Judged before text (skipped (.duplicateAddress address))
  | accepted {label : Option String} {written : Option Address} {operation : Operation}
    {address : Address}
    (hscan : Line.scan text = .ok (.operation label written operation))
    (hplace : place? before written = some address)
    (hfree : ∀ earlier ∈ before, earlier.address ≠ address) :
    Judged before text (accepted { operation with address })

theorem judged_of (before : List Instruction) (text : String) :
    Judged before text (of before text) := by
  unfold of
  split
  · exact .blank ‹_›
  · exact .label ‹_›
  · rename_i label written operation hscan
    split
    · rename_i hplace
      cases written with
      | some address => cases hplace
      | none =>
        refine .missing hscan ?_
        simpa [place?] using hplace
    · rename_i hplace
      split
      · rename_i htaken
        refine .duplicate hscan hplace ?_
        simpa using htaken
      · rename_i hfree
        refine .accepted hscan hplace ?_
        simpa using hfree
  · rename_i hscan
    exact .malformed hscan (Line.isMalformed_of_scan hscan)

theorem of_eq_iff {before : List Instruction} {text : String} {verdict : Verdict} :
    of before text = verdict ↔ Judged before text verdict := by
  constructor
  · rintro rfl
    exact judged_of before text
  · intro h
    unfold of
    cases h with
    | blank hscan | label hscan | malformed hscan _ => rw [hscan]
    | missing hscan hfirst =>
      rw [hscan, hfirst]
      rfl
    | @duplicate _ _ _ address hscan hplace htaken =>
      have htaken : before.any (·.address == address) = true := by simpa using htaken
      simp only [hscan, hplace, htaken, if_true]
    | @accepted _ _ _ address hscan hplace hfree =>
      have hfree : before.any (·.address == address) = false := by simpa using hfree
      simp only [hscan, hplace, hfree, Bool.false_eq_true, if_false]

def ofLines (before : List Instruction) : List String → List Verdict
  | [] => []
  | text :: rest => of before text :: ofLines (before ++ (of before text).accepted?.toList) rest

/-- The instructions of the accepted lines, in the order of the lines. -/
def acceptedOf (verdicts : List Verdict) : List Instruction := verdicts.filterMap accepted?

/-- What is recorded of the lines that are skipped, if the numbers of the lines go up from a first
one. -/
def skippedOf (number : Nat) (lines : List String) (verdicts : List Verdict) : List SkippedLine :=
  ((lines.zip verdicts).zipIdx number).filterMap fun ((text, verdict), number) =>
    verdict.skippedLine? number text

theorem acceptedOf_cons (verdict : Verdict) (verdicts : List Verdict) :
    acceptedOf (verdict :: verdicts) = verdict.accepted?.toList ++ acceptedOf verdicts := by
  cases h : verdict.accepted? <;> simp [acceptedOf, h]

theorem skippedOf_cons (number : Nat) (text : String) (lines : List String) (verdict : Verdict)
    (verdicts : List Verdict) :
    skippedOf number (text :: lines) (verdict :: verdicts)
      = (verdict.skippedLine? number text).toList ++ skippedOf (number + 1) lines verdicts := by
  cases h : verdict.skippedLine? number text <;> simp [skippedOf, h]

theorem getElem?_ofLines (before : List Instruction) (lines : List String) (k : Nat) :
    (ofLines before lines)[k]?
      = lines[k]?.map (of (before ++ acceptedOf ((ofLines before lines).take k))) := by
  induction lines generalizing before k with
  | nil => rfl
  | cons text rest ih =>
    cases k with
    | zero => simp [ofLines, acceptedOf]
    | succ k =>
      rw [ofLines, List.getElem?_cons_succ, List.getElem?_cons_succ, List.take_succ_cons,
        acceptedOf_cons, ← List.append_assoc]
      exact ih _ k

end Verdict

namespace Reader

/-- Whether a reader has accepted these instructions, in this order. -/
structure Tracks (reader : Reader) (before : List Instruction) : Prop where
  operations : ∀ (address : Address) (operation : Operation), reader.operations[address]?
    = some operation ↔
    ({ operation with address } : Instruction) ∈ before
  nodup : (before.map (·.address)).Nodup
  next : reader.next = before.getLast?.map (·.nextAddress)

theorem tracks_nil : ({} : Reader).Tracks [] := by
  refine ⟨fun address operation => ?_, List.nodup_nil, rfl⟩
  change (∅ : AddressMap Operation)[address]? = _ ↔ _
  simp

variable {reader : Reader} {before : List Instruction}

theorem Tracks.contains (h : reader.Tracks before) (address : Address) :
    reader.operations.contains address = before.any (·.address == address) := by
  rw [Bool.eq_iff_iff, List.any_eq_true, Std.ExtTreeMap.contains_eq_isSome_getElem?,
    Option.isSome_iff_exists]
  simp only [h.operations, beq_iff_eq]
  constructor
  · rintro ⟨operation, hmem⟩
    exact ⟨_, hmem, rfl⟩
  · rintro ⟨i, hmem, rfl⟩
    exact ⟨i.toOperation, hmem⟩

theorem skipped_accept (reader : Reader) (address : Address) (label : Option String)
    (operation : Operation) : (reader.accept address label operation).skipped = reader.skipped := by
  have hdefine (names : List String) (reader : Reader) :
      (names.foldl (define address) reader).skipped = reader.skipped := by
    induction names generalizing reader with
    | nil => rfl
    | cons name rest ih => exact ih _
  exact hdefine _ reader

theorem Tracks.accept (h : reader.Tracks before) {address : Address}
    (hnew : before.any (·.address == address) = false) (label : Option String)
    (operation : Operation) :
    (reader.accept address label operation).Tracks (before ++ [{ operation with address }]) := by
  have hnew : ∀ i ∈ before, i.address ≠ address := by simpa using hnew
  refine ⟨getElem?_insert_iff (i := { operation with address }) h.operations hnew, ?_, ?_⟩
  · rw [List.map_append, List.nodup_append]
    refine ⟨h.nodup, by simp, ?_⟩
    simpa using hnew
  · rw [List.getLast?_concat]
    rfl

/-- One line changes what is accepted and what is skipped by its verdict. -/
theorem Tracks.feed (h : reader.Tracks before) (number : Nat) (text : String) :
    (reader.feed number text).Tracks (before ++ (Verdict.of before text).accepted?.toList) ∧
      (reader.feed number text).skipped.toList
        = reader.skipped.toList ++ ((Verdict.of before text).skippedLine? number text).toList := by
  have hkept : reader.Tracks (before ++ (none : Option Instruction).toList) := by
    rw [Option.toList_none, List.append_nil]
    exact h
  have hskip (error : LineError) :
      (reader.skip number text error).Tracks (before ++ (none : Option Instruction).toList) ∧
      (reader.skip number text error).skipped.toList
        = reader.skipped.toList ++ ((Verdict.skipped error).skippedLine? number text).toList :=
    ⟨⟨hkept.operations, hkept.nodup, hkept.next⟩, Array.toList_push⟩
  have hsame :
      reader.skipped.toList = reader.skipped.toList ++ (none : Option SkippedLine).toList :=
    (List.append_nil _).symm
  -- Only an operation at a free address changes what is tracked; every other exit keeps it.
  unfold Reader.feed Verdict.of
  cases Line.scan text with
  | error error => exact hskip error
  | ok line =>
    cases line with
    | blank => exact ⟨hkept, hsame⟩
    | label name => exact ⟨⟨hkept.operations, hkept.nodup, hkept.next⟩, hsame⟩
    | operation label written operation =>
      have hplace : (written <|> reader.next) = Verdict.place? before written := by
        rw [h.next, Verdict.place?]
      simp only [hplace]
      cases Verdict.place? before written with
      | none => exact hskip _
      | some address =>
        simp only [h.contains]
        split
        · exact hskip _
        · rename_i hnew
          refine ⟨h.accept (Bool.not_eq_true _ ▸ hnew) label operation, ?_⟩
          rw [skipped_accept]
          exact hsame

theorem Tracks.feedAll (h : reader.Tracks before) (number : Nat) (lines : List String) :
    (reader.feedAll number lines).Tracks
        (before ++ Verdict.acceptedOf (Verdict.ofLines before lines)) ∧
      (reader.feedAll number lines).skipped.toList
        = reader.skipped.toList
          ++ Verdict.skippedOf number lines (Verdict.ofLines before lines) := by
  induction lines generalizing reader before number with
  | nil =>
    have hnil : Verdict.acceptedOf (Verdict.ofLines before []) = [] := rfl
    rw [hnil, List.append_nil]
    exact ⟨h, (List.append_nil _).symm⟩
  | cons text rest ih =>
    obtain ⟨htracks, hskipped⟩ := h.feed number text
    obtain ⟨hrest, hrestSkipped⟩ := ih htracks (number + 1)
    rw [Verdict.ofLines, Verdict.acceptedOf_cons, Verdict.skippedOf_cons, ← List.append_assoc,
      ← List.append_assoc, ← hskipped]
    exact ⟨hrest, hrestSkipped⟩

/-- Whether an instruction is another one, in which at most a label was resolved. -/
structure IsResolved (written instruction : Instruction) : Prop where
  address : instruction.address = written.address
  mnemonic : instruction.mnemonic = written.mnemonic
  operand : instruction.operand = written.operand ∨
    written.mnemonic.isControlFlow = true ∧ (∃ name, written.operand = .symbolic name) ∧
      ∃ target, instruction.operand = .absolute target

theorem isResolved_resolve (labels : NameMap Address) (address : Address) (operation : Operation) :
    IsResolved { operation with address } { resolve labels operation with address } := by
  unfold resolve
  split
  · rename_i name hname
    split
    · rename_i hflow
      split
      · exact ⟨rfl, rfl, Or.inr ⟨hflow, ⟨name, hname⟩, _, rfl⟩⟩
      · exact ⟨rfl, rfl, Or.inl rfl⟩
    · exact ⟨rfl, rfl, Or.inl rfl⟩
  · exact ⟨rfl, rfl, Or.inl rfl⟩

/-- The instructions of a reader are those that it accepted, in ascending order. -/
theorem Tracks.instructions (h : reader.Tracks before) :
    ∃ ordered, ordered.Perm before ∧ List.Forall₂ IsResolved ordered reader.instructions := by
  let ordered : List Instruction := reader.operations.toList.map fun entry =>
    { entry.2 with address := entry.1 }
  have hascending : Ascending ordered := List.pairwise_map.mpr reader.pairwise_operations
  refine ⟨ordered, ?_, ?_⟩
  · rw [List.perm_ext_iff_of_nodup hascending.nodup_addresses.of_map h.nodup.of_map]
    intro i
    rw [List.mem_map]
    constructor
    · rintro ⟨⟨address, operation⟩, hmem, rfl⟩
      exact (h.operations address operation).mp
        (Std.ExtTreeMap.mem_toList_iff_getElem?_eq_some.mp hmem)
    · intro hmem
      exact ⟨(i.address, i.toOperation),
        Std.ExtTreeMap.mem_toList_iff_getElem?_eq_some.mpr
          ((h.operations i.address i.toOperation).mpr hmem), rfl⟩
  · rw [Reader.instructions, List.forall₂_map_left_iff, List.forall₂_map_right_iff,
      List.forall₂_same]
    rintro ⟨address, operation⟩ -
    exact isResolved_resolve reader.labels address operation

end Reader

/-- Whether a line is neither blank nor a label alone. -/
def holdsCode (text : String) : Bool :=
  match Line.scan text with
  | .ok .blank | .ok (.label _) => false
  | _ => true

/-- Whether verdicts are a full account of how a listing came from its lines. -/
structure Accounts (lines : List String) (verdicts : List Verdict) (listing : Listing) : Prop where
  judged : ∀ (k : Nat) (verdict : Verdict), verdicts[k]? = some verdict ↔
    ∃ text, lines[k]? = some text ∧
    Verdict.Judged (Verdict.acceptedOf (verdicts.take k)) text verdict
  skipped : listing.skipped = Verdict.skippedOf 1 lines verdicts
  instructions : ∃ ordered, ordered.Perm (Verdict.acceptedOf verdicts) ∧
    List.Forall₂ Reader.IsResolved ordered listing.instructions
  ascending : Ascending listing.instructions
  total : listing.instructions.length + listing.skipped.length = lines.countP holdsCode

theorem Verdict.Judged.accepted_or_skipped {before : List Instruction} {text : String}
    {verdict : Verdict} (h : Verdict.Judged before text verdict) (number : Nat) :
    verdict.accepted?.toList.length + (verdict.skippedLine? number text).toList.length
      = if holdsCode text then 1 else 0 := by
  unfold holdsCode
  cases h with
  | blank hscan | label hscan | malformed hscan | missing hscan | duplicate hscan
  | accepted hscan =>
    rw [hscan]
    rfl

theorem length_acceptedOf_add_length_skippedOf (before : List Instruction) (number : Nat)
    (lines : List String) :
    (Verdict.acceptedOf (Verdict.ofLines before lines)).length
      + (Verdict.skippedOf number lines (Verdict.ofLines before lines)).length
        = lines.countP holdsCode := by
  induction lines generalizing before number with
  | nil => rfl
  | cons text rest ih =>
    have hfirst := (Verdict.judged_of before text).accepted_or_skipped number
    have hrest := ih (before ++ (Verdict.of before text).accepted?.toList) (number + 1)
    rw [Verdict.ofLines, Verdict.acceptedOf_cons, Verdict.skippedOf_cons, List.countP_cons,
      List.length_append, List.length_append]
    omega

theorem accounts_ofLines (lines : List String) :
    Accounts lines (Verdict.ofLines [] lines) (ofLines lines) := by
  obtain ⟨htracks, hskipped⟩ := Reader.tracks_nil.feedAll 1 lines
  rw [List.nil_append] at htracks
  obtain ⟨ordered, hperm, hresolved⟩ := htracks.instructions
  refine ⟨fun k verdict => ?_, hskipped, ⟨ordered, hperm, hresolved⟩,
    Reader.ascending_instructions _, ?_⟩
  · rw [Verdict.getElem?_ofLines, Option.map_eq_some_iff]
    simp only [Verdict.of_eq_iff, List.nil_append]
  · rw [← length_acceptedOf_add_length_skippedOf [] 1 lines, ← hperm.length_eq, hresolved.length_eq]
    congr 1
    exact congrArg List.length hskipped

/-- What becomes of a line is settled by the lines before it. -/
theorem Accounts.unique {lines : List String} {left right : List Verdict} {listing other : Listing}
    (hleft : Accounts lines left listing) (hright : Accounts lines right other) : left = right := by
  -- A verdict depends on those before it alone, so two accounts agree line by line.
  refine List.ext_getElem? fun k => ?_
  induction k using Nat.strongRecOn with
  | ind k ih =>
    have htake : left.take k = right.take k := by
      refine List.ext_getElem? fun j => ?_
      by_cases hj : j < k
      · rw [List.getElem?_take_of_lt hj, List.getElem?_take_of_lt hj, ih j hj]
      · rw [List.getElem?_take_eq_none (Nat.le_of_not_lt hj),
          List.getElem?_take_eq_none (Nat.le_of_not_lt hj)]
    refine Option.ext fun verdict => ?_
    rw [hleft.judged, hright.judged, htake]

/-- There is exactly one account of every listing. -/
theorem lines_accounted_once (text : String) :
    ∃! verdicts, Accounts ((Text.lines text.toList).map String.ofList) verdicts (read text) :=
  ⟨_, accounts_ofLines _, fun _ h => h.unique (accounts_ofLines _)⟩

end Listing

end Lift6502
