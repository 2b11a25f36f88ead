import Lift6502.Proofs.Listing.Verdicts
import Lift6502.Proofs.Text.Segments

/-!
# Lines that change nothing

A line that is blank or skipped leaves no trace but the record of it. It does not move the next
address, take an address, use up the labels that wait or define its own. A text from which the
skipped lines are taken out, and with them all blank lines or only some, is therefore read as the
same code with the same names, and none of its lines is skipped.
-/

namespace Lift6502.Listing

namespace Reader

/-- The reader without its record of skipped lines. -/
def forget (reader : Reader) : Reader := { reader with skipped := #[] }

theorem forget_foldl_define (reader : Reader) (address : Address) (names : List String) :
    (names.foldl (define address) reader).forget = names.foldl (define address) reader.forget := by
  induction names generalizing reader with
  | nil => rfl
  | cons name rest ih => exact ih (reader.define address name)

theorem forget_accept (reader : Reader) (address : Address) (label : Option String)
    (operation : Operation) :
    (reader.accept address label operation).forget
      = reader.forget.accept address label operation := by
  have hlabels := forget_foldl_define reader address (reader.pending ++ label.toList)
  simp only [forget, accept] at hlabels ⊢
  rw [← hlabels]

end Reader

namespace Verdict

variable (goes : String → Bool)

/-- Whether a line with a verdict is kept, where a test says which of the blank lines go. -/
def isKept (text : String) : Verdict → Bool
  | label | accepted _ => true
  | blank => !goes text
  | skipped _ => false

def keptOf (lines : List String) (verdicts : List Verdict) : List String :=
  ((lines.zip verdicts).filter fun entry => entry.2.isKept goes entry.1).map (·.1)

theorem keptOf_cons (text : String) (lines : List String) (verdict : Verdict)
    (verdicts : List Verdict) :
    keptOf goes (text :: lines) (verdict :: verdicts)
      = if verdict.isKept goes text then text :: keptOf goes lines verdicts
        else keptOf goes lines verdicts := by
  cases h : verdict.isKept goes text <;> simp [keptOf, h]

end Verdict

namespace Reader

variable {reader : Reader} {before : List Instruction} (goes : String → Bool)

/-- A line is read in the same way whatever was skipped before it, and changes nothing if it is not
kept. -/
theorem Tracks.forget_feed (h : reader.Tracks before) (number other : Nat) (text : String) :
    (reader.feed number text).forget
      = if (Verdict.of before text).isKept goes text then reader.forget.feed other text
        else reader.forget := by
  unfold Reader.feed Verdict.of
  cases Line.scan text with
  | error error => rfl
  | ok line =>
    cases line with
    | blank => exact (ite_self reader.forget).symm
    | label name => rfl
    | operation label written operation =>
      have hplace : (written <|> reader.next) = Verdict.place? before written := by
        rw [h.next, Verdict.place?]
      have hforget : (written <|> reader.forget.next) = Verdict.place? before written := hplace
      simp only [hplace, hforget]
      cases Verdict.place? before written with
      | none => rfl
      | some address =>
        have htaken : reader.forget.operations.contains address
            = before.any (·.address == address) := h.contains address
        simp only [h.contains, htaken]
        by_cases hbefore : before.any (·.address == address) = true
        · simp only [hbefore, if_true]
          rfl
        · simp only [hbefore]
          exact forget_accept reader address label operation

/-- Reading the kept lines alone gives the same, but for the record of skipped lines. -/
theorem Tracks.feedAll_keptOf (h : reader.Tracks before) (number other : Nat)
    (lines : List String) :
    reader.forget.feedAll other (Verdict.keptOf goes lines (Verdict.ofLines before lines))
      = (reader.feedAll number lines).forget := by
  induction lines generalizing reader before number other with
  | nil => rfl
  | cons text rest ih =>
    have hfeed := h.forget_feed goes number other text
    have hrest := fun other => ih (h.feed number text).1 (number + 1) other
    rw [Verdict.ofLines, Verdict.keptOf_cons, Reader.feedAll]
    split at hfeed
    · rename_i hkept
      rw [if_pos hkept, Reader.feedAll, ← hfeed]
      exact hrest (other + 1)
    · rename_i hkept
      rw [if_neg hkept, ← hfeed]
      exact hrest other

end Reader

/-! ### Which lines are taken out -/

/-- Whether a line holds nothing, or a comment alone. -/
def isBlankLine (text : String) : Bool :=
  match Line.scan text with
  | .ok .blank => true
  | _ => false

/-- Whether the line with a number was skipped. -/
def skips (listing : Listing) (number : Nat) : Bool := listing.skipped.any (·.number == number)

variable (goes : String → Bool)

/-- The lines without those that are skipped, and without the blank lines that go. -/
def keptLines (lines : List String) : List String :=
  ((lines.zipIdx 1).filter fun entry =>
    !(isBlankLine entry.1 && goes entry.1) && !(ofLines lines).skips entry.2).map (·.1)

theorem Verdict.Judged.isKept_eq {before : List Instruction} {text : String} {verdict : Verdict}
    (h : Verdict.Judged before text verdict) :
    verdict.isKept goes text = (!(isBlankLine text && goes text) && verdict.error?.isNone) := by
  unfold isBlankLine
  cases h with
  | blank hscan | label hscan | malformed hscan | missing hscan | duplicate hscan
  | accepted hscan =>
    rw [hscan]
    simp [Verdict.isKept, Verdict.error?]

theorem number_le_of_mem_skippedOf {number : Nat} {lines : List String} {verdicts : List Verdict}
    {skipped : SkippedLine} (h : skipped ∈ Verdict.skippedOf number lines verdicts) :
    number ≤ skipped.number := by
  rw [Verdict.skippedOf, List.mem_filterMap] at h
  obtain ⟨⟨⟨text, verdict⟩, position⟩, hmem, hskipped⟩ := h
  have hle := (List.mem_zipIdx hmem).1
  obtain ⟨error, -, rfl⟩ := Option.map_eq_some_iff.mp hskipped
  exact hle

/-- The record of a line says whether its verdict was to skip it. -/
theorem any_number_skippedOf (number : Nat) (text : String) (lines : List String)
    (verdict : Verdict) (verdicts : List Verdict) :
    (Verdict.skippedOf number (text :: lines) (verdict :: verdicts)).any (·.number == number)
      = verdict.error?.isSome := by
  have hlater : (Verdict.skippedOf (number + 1) lines verdicts).any (·.number == number)
      = false := by
    rw [List.any_eq_false]
    intro skipped hskipped
    have hle := number_le_of_mem_skippedOf hskipped
    simp only [beq_iff_eq]
    omega
  rw [Verdict.skippedOf_cons, List.any_append, hlater, Bool.or_false, Verdict.skippedLine?]
  cases verdict.error? <;> simp

/-- Lines behind the first one are recorded as if it were not there. -/
theorem any_number_skippedOf_cons {number other : Nat} (hlater : number < other) (text : String)
    (lines : List String) (verdict : Verdict) (verdicts : List Verdict) :
    (Verdict.skippedOf number (text :: lines) (verdict :: verdicts)).any (·.number == other)
      = (Verdict.skippedOf (number + 1) lines verdicts).any (·.number == other) := by
  have hne : ¬ number = other := by omega
  rw [Verdict.skippedOf_cons, List.any_append, Verdict.skippedLine?]
  cases verdict.error? <;> simp [hne]

theorem filter_recorded_eq_keptOf (before : List Instruction) (number : Nat) (lines : List String) :
    ((lines.zipIdx number).filter fun entry => !(isBlankLine entry.1 && goes entry.1) &&
        !(Verdict.skippedOf number lines (Verdict.ofLines before lines)).any
          (·.number == entry.2)).map (·.1)
      = Verdict.keptOf goes lines (Verdict.ofLines before lines) := by
  induction lines generalizing before number with
  | nil => rfl
  | cons text rest ih =>
    rw [Verdict.ofLines, Verdict.keptOf_cons,
      ← ih (before ++ (Verdict.of before text).accepted?.toList) (number + 1), List.zipIdx_cons,
      List.filter_cons, any_number_skippedOf, Option.not_isSome,
      ← (Verdict.judged_of before text).isKept_eq goes]
    -- The lines that follow have greater numbers, so the record of this one does not concern them.
    rw [List.filter_congr fun entry hentry => by
      rw [any_number_skippedOf_cons (Nat.lt_of_succ_le (List.mem_zipIdx hentry).1)]]
    split <;> rfl

theorem keptLines_eq_keptOf (lines : List String) :
    keptLines goes lines = Verdict.keptOf goes lines (Verdict.ofLines [] lines) := by
  rw [← filter_recorded_eq_keptOf goes [] 1 lines, ← (accounts_ofLines lines).skipped]
  rfl

theorem ofLines_keptLines (lines : List String) :
    ofLines (keptLines goes lines) = { ofLines lines with skipped := [] } := by
  have hkept := Reader.tracks_nil.feedAll_keptOf goes 1 1 lines
  rw [← keptLines_eq_keptOf] at hkept
  have hempty : ({} : Reader).forget = {} := rfl
  rw [hempty] at hkept
  rw [ofLines, hkept]
  rfl

/-- A text without the lines that are skipped, and without the blank lines that go. -/
def withoutInert (text : String) : String :=
  String.ofList (Text.keepLines
    (fun number line => !(isBlankLine (String.ofList line) && goes (String.ofList line)) &&
      !(read text).skips number)
    text.toList)

theorem lines_withoutInert (text : String) :
    (Text.lines (withoutInert goes text).toList).map String.ofList
      = keptLines goes ((Text.lines text.toList).map String.ofList) := by
  rw [withoutInert, String.toList_ofList, Text.lines_keepLines, keptLines, List.zipIdx_map,
    List.filter_map, List.map_map, List.map_map]
  rfl

/-- Skipped lines and blank lines are inert: a text without the skipped ones, and without whichever
blank ones, has the same instructions and candidates, and no line of it is skipped. -/
theorem read_withoutInert (goes : String → Bool) (text : String) :
    read (withoutInert goes text) = { read text with skipped := [] } := by
  rw [read, lines_withoutInert, ofLines_keptLines]
  rfl

end Lift6502.Listing
