import Lift6502.Dialect.Classic
import Lift6502.Dialect.Curly
import Lift6502.Dialect.Modern
import Lift6502.Proofs.Routine.CountedRuns
import Lift6502.Proofs.Tree.TextValues

/-!
# What written loops count

A machine steps a byte and then looks whether it has come to the bound, so that a bound behind the
first value is reached over the end of a byte, and one that the step jumps over perhaps never. Loops
with a byte as counter say the same and take the same values. A range of numbers stops at the first
value beyond its end instead: it takes the same values only if the step does not jump over the bound
on its first turn.
-/

namespace Lift6502

/-- A loop that runs its body on one value of a counter after the other. -/
structure CounterLoop where
  first : Int
  /-- Whether the first value is tested too. -/
  testsFirst : Bool
  next : Int → Int
  goesOn : Int → Bool

namespace CounterLoop

/-- The value on which the body is run after some passes, if it is run once more. -/
def visit (loop : CounterLoop) : Nat → Option Int
  | 0 => if loop.testsFirst && !loop.goesOn loop.first then none else some loop.first
  | passes + 1 => (loop.visit passes).bind fun value =>
      if loop.goesOn (loop.next value) then some (loop.next value) else none

theorem visit_eq_some_iff (loop : CounterLoop) {passes : Nat} {value : Int} :
    loop.visit passes = some value ↔
      (loop.testsFirst = true → loop.goesOn loop.first = true) ∧
        (∀ k, 0 < k → k ≤ passes → loop.goesOn (loop.next^[k] loop.first) = true) ∧
        value = loop.next^[passes] loop.first := by
  induction passes generalizing value with
  | zero =>
    rw [visit, Function.iterate_zero, id]
    have hnone : ∀ k, 0 < k → k ≤ 0 → loop.goesOn (loop.next^[k] loop.first) = true := by omega
    rw [and_iff_right hnone]
    cases loop.testsFirst <;> cases loop.goesOn loop.first <;> simp [eq_comm]
  | succ passes ih =>
    rw [visit, Option.bind_eq_some_iff]
    constructor
    · rintro ⟨last, hlast, hvalue⟩
      obtain ⟨hfirst, hbefore, rfl⟩ := ih.mp hlast
      split at hvalue
      · rename_i hgoes
        rw [← Function.iterate_succ_apply' loop.next] at hgoes hvalue
        refine ⟨hfirst, fun k hpos hle => ?_, (Option.some.inj hvalue).symm⟩
        rcases Nat.lt_or_eq_of_le hle with hlt | rfl
        · exact hbefore k hpos (Nat.le_of_lt_succ hlt)
        · exact hgoes
      · cases hvalue
    · rintro ⟨hfirst, hbefore, rfl⟩
      refine ⟨_, ih.mpr ⟨hfirst, fun k hpos hle => hbefore k hpos (Nat.le_succ_of_le hle), rfl⟩, ?_⟩
      rw [← Function.iterate_succ_apply' loop.next,
        if_pos (hbefore (passes + 1) (Nat.succ_pos passes) (Nat.le_refl _))]

/-- Whether the first value is tested makes no difference if it passes. -/
theorem visit_testsFirst (loop : CounterLoop) {testsFirst : Bool}
    (h : testsFirst = true → loop.goesOn loop.first = true) :
    { loop with testsFirst := testsFirst }.visit = { loop with testsFirst := false }.visit := by
  funext passes
  refine Option.ext fun value => ?_
  rw [visit_eq_some_iff, visit_eq_some_iff]
  exact and_congr_left fun _ => iff_of_true h fun hfalse => absurd hfalse Bool.false_ne_true

/-! ### Bytes -/

/-- The loop that a machine runs: its counter is a byte, and is compared with the bound after each
step. -/
def ofBytes (first bound : UInt8) (step : Int) : CounterLoop where
  first := first.toNat
  testsFirst := false
  next value := (value + step) % 256
  goesOn value := value != bound.toNat

variable (first bound : UInt8) (step : Int)

theorem iterate_next_ofBytes (passes : Nat) :
    (ofBytes first bound step).next^[passes] (ofBytes first bound step).first
      = CountedLoop.tally first step passes := by
  induction passes with
  | zero => exact (CountedLoop.tally_zero first step).symm
  | succ passes ih =>
    rw [Function.iterate_succ_apply', ih, CountedLoop.tally_succ]
    rfl

theorem visit_ofBytes_eq_some_iff {passes : Nat} {value : Int} :
    (ofBytes first bound step).visit passes = some value ↔
      (∀ k, 0 < k → k ≤ passes → CountedLoop.tally first step k ≠ bound.toNat) ∧
        value = CountedLoop.tally first step passes := by
  rw [visit_eq_some_iff]
  simp only [iterate_next_ofBytes]
  simp [ofBytes]

/-- How far the bound is ahead of the first value in the direction of the step, a whole turn if they
are the same. -/
def distance : Int :=
  ((if 0 < step then (bound.toNat : Int) - first.toNat else first.toNat - bound.toNat) - 1)
    % 256 + 1

theorem distance_bounds : 0 < distance first bound step ∧ distance first bound step ≤ 256 := by
  rw [distance]
  omega

/-- The counter has come to the bound once it has gone the distance, or whole turns more. -/
theorem tally_eq_bound_iff (hmoves : step ≠ 0) (passes : Nat) :
    CountedLoop.tally first step passes = bound.toNat ↔
      256 ∣ passes * |step| - distance first bound step := by
  have hbound := bound.toNat_lt
  rw [CountedLoop.tally, distance]
  rcases lt_or_gt_of_ne hmoves with hdown | hup
  · have hpassed : passes * step = -(passes * -step) := by rw [Int.mul_neg, Int.neg_neg]
    rw [abs_of_neg hdown, if_neg (Int.not_lt.mpr (Int.le_of_lt hdown)), hpassed]
    omega
  · rw [abs_of_pos hup, if_pos hup]
    omega

/-! ### Ranges -/

/-- The loop of BASIC over the numbers from a first to a last one. Dialects differ in whether the
body is run on a first value that is beyond the last. -/
def ofRange (testsFirst : Bool) (first last step : Int) : CounterLoop where
  first
  testsFirst
  next value := value + step
  goesOn value := if step < 0 then last ≤ value else value ≤ last

theorem iterate_next_ofRange (testsFirst : Bool) (first last step : Int) (passes : Nat) :
    (ofRange testsFirst first last step).next^[passes] (ofRange testsFirst first last step).first
      = first + passes * step := by
  induction passes with
  | zero => simp [ofRange]
  | succ passes ih =>
    rw [Function.iterate_succ_apply', ih, Nat.cast_succ, Int.add_mul, Int.one_mul, ← Int.add_assoc]
    rfl

/-- A range starts at the first value of the counter, perhaps one turn later. -/
theorem ofNumbers_first_emod : (LoopRange.ofNumbers first.toNat bound.toNat step).1 % 256
    = first.toNat := by
  have hfirst := first.toNat_lt
  rw [LoopRange.ofNumbers]
  split
  · dsimp only
    omega
  · dsimp only
    split <;> omega

/-- A range goes on as long as the next step does not lead beyond the bound. -/
theorem goesOn_ofNumbers (hmoves : step ≠ 0) (testsFirst : Bool) (passes : Nat) :
    (ofRange testsFirst (LoopRange.ofNumbers first.toNat bound.toNat step).1
        (LoopRange.ofNumbers first.toNat bound.toNat step).2 step).goesOn
        ((LoopRange.ofNumbers first.toNat bound.toNat step).1 + passes * step) = true ↔
      passes * |step| + |step| ≤ distance first bound step := by
  have hfirst := first.toNat_lt
  have hbound := bound.toNat_lt
  rw [LoopRange.ofNumbers, distance]
  rcases lt_or_gt_of_ne hmoves with hdown | hup
  · have hpassed : passes * step = -(passes * -step) := by rw [Int.mul_neg, Int.neg_neg]
    have hnot := Int.not_lt.mpr (Int.le_of_lt hdown)
    simp only [ofRange, abs_of_neg hdown, if_neg hnot, hpassed, if_pos hdown, decide_eq_true_eq]
    split <;> omega
  · have hnot := Int.not_lt.mpr (Int.le_of_lt hup)
    simp only [ofRange, abs_of_pos hup, if_pos hup, if_neg hnot, decide_eq_true_eq]
    split <;> omega

theorem visit_ofNumbers_eq_some_iff (hmoves : step ≠ 0) (testsFirst : Bool) {passes : Nat}
    {value : Int} :
    (ofRange testsFirst (LoopRange.ofNumbers first.toNat bound.toNat step).1
        (LoopRange.ofNumbers first.toNat bound.toNat step).2 step).visit passes = some value ↔
      (testsFirst = true → |step| ≤ distance first bound step) ∧
        (∀ k : Nat, 0 < k → k ≤ passes → k * |step| + |step| ≤ distance first bound step) ∧
        value = (LoopRange.ofNumbers first.toNat bound.toNat step).1 + passes * step := by
  have hstart := goesOn_ofNumbers first bound step hmoves testsFirst 0
  rw [Nat.cast_zero, Int.zero_mul, Int.zero_mul, Int.add_zero, Int.zero_add] at hstart
  rw [visit_eq_some_iff]
  simp only [iterate_next_ofRange, goesOn_ofNumbers first bound step hmoves]
  rw [← hstart]
  rfl

/-- On the first turn the counter does not come to the bound before it has gone the distance. -/
theorem tally_ne_bound (hmoves : step ≠ 0) {passes : Nat} (hpos : 0 < passes)
    (hshort : passes * |step| < distance first bound step) :
    CountedLoop.tally first step passes ≠ bound.toNat := by
  have hpassed : 0 < passes * |step| := Int.mul_pos (Int.natCast_pos.mpr hpos) (abs_pos.mpr hmoves)
  have hturn := (distance_bounds first bound step).2
  rw [ne_eq, tally_eq_bound_iff first bound step hmoves]
  omega

/-- If the step jumps over the bound, the counter goes on where the range ends. -/
theorem exists_visit_beyond (hmoves : step ≠ 0) (hsize : |step| ≤ 255)
    (hover : ¬ |step| ∣ distance first bound step) :
    ∃ passes : Nat, 0 < passes ∧ distance first bound step < passes * |step| + |step| ∧
      ((ofBytes first bound step).visit passes).isSome = true := by
  have hpos : 0 < |step| := abs_pos.mpr hmoves
  have hahead := (distance_bounds first bound step).1
  have hrest : distance first bound step % |step| ≠ 0 := fun h => hover (Int.dvd_of_emod_eq_zero h)
  have hless := Int.emod_lt_of_pos (distance first bound step) hpos
  have hleft := Int.emod_nonneg (distance first bound step) (Int.ne_of_gt hpos)
  have hparts := Int.mul_ediv_add_emod (distance first bound step) |step|
  have hwhole : 0 ≤ distance first bound step / |step| :=
    Int.ediv_nonneg (Int.le_of_lt hahead) (Int.le_of_lt hpos)
  obtain ⟨rounds, hrounds⟩ := Int.eq_ofNat_of_zero_le hwhole
  rw [hrounds, Int.mul_comm] at hparts
  refine ⟨max 1 rounds, by omega, ?_, ?_⟩
  · have hle : (rounds : Int) * |step| ≤ (max 1 rounds : Nat) * |step| :=
      Int.mul_le_mul_of_nonneg_right (by omega) (Int.le_of_lt hpos)
    omega
  · rw [Option.isSome_iff_exists]
    refine ⟨_, (visit_ofBytes_eq_some_iff first bound step).mpr ⟨fun k hk hle => ?_, rfl⟩⟩
    by_cases hinside : k ≤ rounds
    · have hle : (k : Int) * |step| ≤ rounds * |step| :=
        Int.mul_le_mul_of_nonneg_right (by omega) (Int.le_of_lt hpos)
      exact tally_ne_bound first bound step hmoves hk (by omega)
    · -- The very first step leads beyond the bound, but not by a whole turn.
      obtain ⟨rfl, rfl⟩ : k = 1 ∧ rounds = 0 := by omega
      rw [ne_eq, tally_eq_bound_iff first bound step hmoves]
      omega

/-- If whole steps lead to the bound, the range ends where the counter comes to it. -/
theorem visit_ofNumbers_of_rounds (hmoves : step ≠ 0) (testsFirst : Bool) {rounds : Nat}
    (hrounds : distance first bound step = rounds * |step|) (passes : Nat) :
    ((ofRange testsFirst (LoopRange.ofNumbers first.toNat bound.toNat step).1
        (LoopRange.ofNumbers first.toNat bound.toNat step).2 step).visit passes).map (· % 256)
      = (ofBytes first bound step).visit passes := by
  have hpos : 0 < |step| := abs_pos.mpr hmoves
  have hsome : 0 < rounds := by
    apply Nat.pos_of_ne_zero
    rintro rfl
    have hahead := (distance_bounds first bound step).1
    omega
  by_cases hinside : passes < rounds
  · have hleft (k : Nat) (hk : k < rounds) : k * |step| + |step| ≤ distance first bound step := by
      have hle : ((k + 1 : Nat) : Int) * |step| ≤ rounds * |step| :=
        Int.mul_le_mul_of_nonneg_right (by omega) (Int.le_of_lt hpos)
      rwa [Nat.cast_succ, Int.add_mul, Int.one_mul, ← hrounds] at hle
    have hrange := (visit_ofNumbers_eq_some_iff first bound step hmoves testsFirst).mpr
      ⟨fun _ => by simpa using hleft 0 hsome,
        fun k _ hle => hleft k (Nat.lt_of_le_of_lt hle hinside), rfl⟩
    have hshort (k : Nat) (hk : 0 < k) (hle : k ≤ passes) :
        CountedLoop.tally first step k ≠ bound.toNat := by
      have hgone := hleft k (Nat.lt_of_le_of_lt hle hinside)
      exact tally_ne_bound first bound step hmoves hk (by omega)
    rw [hrange, (visit_ofBytes_eq_some_iff first bound step).mpr ⟨hshort, rfl⟩, Option.map_some,
      CountedLoop.tally, ← Int.emod_add_emod, ofNumbers_first_emod]
  · have hrange : (ofRange testsFirst (LoopRange.ofNumbers first.toNat bound.toNat step).1
        (LoopRange.ofNumbers first.toNat bound.toNat step).2 step).visit passes = none := by
      refine Option.eq_none_iff_forall_ne_some.mpr fun value hvalue => ?_
      have hgoes := ((visit_ofNumbers_eq_some_iff first bound step hmoves testsFirst).mp hvalue).2.1
        passes (by omega)
        (Nat.le_refl passes)
      have hle : (rounds : Int) * |step| ≤ passes * |step| :=
        Int.mul_le_mul_of_nonneg_right (by omega) (Int.le_of_lt hpos)
      omega
    have hbytes : (ofBytes first bound step).visit passes = none := by
      refine Option.eq_none_iff_forall_ne_some.mpr fun value hvalue => ?_
      apply ((visit_ofBytes_eq_some_iff first bound step).mp hvalue).1 rounds hsome
        (Nat.not_lt.mp hinside)
      rw [tally_eq_bound_iff first bound step hmoves, hrounds, Int.sub_self]
      exact Int.dvd_zero 256
    rw [hrange, hbytes, Option.map_none]

/-- A range takes the values of the counter exactly if whole steps lead to the bound. -/
theorem visits_ofNumbers_iff (hmoves : step ≠ 0) (hsize : |step| ≤ 255) (testsFirst : Bool) :
    (∀ passes, ((ofRange testsFirst (LoopRange.ofNumbers first.toNat bound.toNat step).1
        (LoopRange.ofNumbers first.toNat bound.toNat step).2 step).visit passes).map (· % 256)
          = (ofBytes first bound step).visit passes) ↔
      |step| ∣ distance first bound step := by
  constructor
  · intro hsame
    by_contra hover
    obtain ⟨passes, hpasses, hbeyond, hvisits⟩ :=
      exists_visit_beyond first bound step hmoves hsize hover
    rw [← hsame passes, Option.isSome_map, Option.isSome_iff_exists] at hvisits
    obtain ⟨value, hvalue⟩ := hvisits
    have hgoes := ((visit_ofNumbers_eq_some_iff first bound step hmoves testsFirst).mp hvalue).2.1
      passes hpasses
      (Nat.le_refl passes)
    omega
  · intro hdvd
    have hahead := (distance_bounds first bound step).1
    have hwhole : 0 ≤ distance first bound step / |step| :=
      Int.ediv_nonneg (Int.le_of_lt hahead) (abs_nonneg step)
    obtain ⟨rounds, hrounds⟩ := Int.eq_ofNat_of_zero_le hwhole
    apply visit_ofNumbers_of_rounds first bound step hmoves testsFirst
    rw [← hrounds, Int.ediv_mul_cancel hdvd]

end CounterLoop

/-! ### Numbers as operands -/

theorem Text.readInt?_decimal_byte (byte : UInt8) :
    readInt? (decimal byte.toNat) = some (byte.toNat : Int) := by
  have hlt := byte.toNat_lt
  exact readInt?_decimalInt byte.toNat (by omega) (by omega)

theorem Curly.read_decimalInt (number : Int) :
    Curly.read (Text.decimalInt number) = Text.decimalInt number := by
  rw [Curly.read, Reference.read_decimalInt]

theorem BasicText.read_decimalInt (fieldMark : Char) (number : Int) :
    BasicText.read fieldMark (Text.decimalInt number) = Text.decimalInt number := by
  rw [BasicText.read, Reference.read_decimalInt]
  apply String.toList_injective
  rw [String.toList_map]
  refine (List.map_congr_left fun c hc => ?_).trans (List.map_id _)
  have hnumeral := Text.isNumeral_of_mem_decimalInt c hc
  rw [id, if_neg]
  rintro rfl
  exact absurd hnumeral (by decide)

/-! ### Loops with a byte as counter -/

namespace Curly

/-- The statements that step a counter. -/
inductive CounterStep where
  | increment
  | decrement
  | add (amount : Int)

namespace CounterStep

def amount : CounterStep → Int
  | increment => 1
  | decrement => -1
  | add amount => amount

def text (counter : String) : CounterStep → String
  | increment => counter ++ "++"
  | decrement => counter ++ "--"
  | add amount => counter ++ " += " ++ Text.decimalInt amount

/-- The statement for a step. -/
def ofStep (step : Int) : CounterStep :=
  if step = 1 then increment else if step = -1 then decrement else add step

theorem amount_ofStep (step : Int) : (ofStep step).amount = step := by
  rw [ofStep]
  split
  · rename_i hone
    exact hone.symm
  · split
    · rename_i hone
      exact hone.symm
    · rfl

theorem text_ofStep (counter : String) (step : Int) :
    stepText counter (some (Text.decimalInt step)) = (ofStep step).text counter := by
  have hone : Text.decimalInt 1 = "1" := by decide +kernel
  have hminusOne : Text.decimalInt (-1) = "-1" := by decide +kernel
  unfold stepText ofStep
  split
  · rename_i hnone
    cases hnone
  · rename_i htext
    have hup : step = 1 := Text.decimalInt_injective ((Option.some.inj htext).trans hone.symm)
    rw [if_pos hup]
    rfl
  · rename_i htext
    have hdown : step = -1 :=
      Text.decimalInt_injective ((Option.some.inj htext).trans hminusOne.symm)
    rw [if_neg (by omega), if_pos hdown]
    rfl
  · rename_i hup hdown htext
    obtain rfl := Option.some.inj htext
    have hnotUp : step ≠ 1 := by
      rintro rfl
      exact hup hone
    have hnotDown : step ≠ -1 := by
      rintro rfl
      exact hdown hminusOne
    rw [if_neg hnotUp, if_neg hnotDown]
    rfl

theorem text_injective (counter : String) {left right : CounterStep}
    (h : left.text counter = right.text counter) : left = right := by
  have hplus : "++" ≠ "--" := by decide
  have hsum (amount : Int) : " += " ++ Text.decimalInt amount ≠ "++" ∧
      " += " ++ Text.decimalInt amount ≠ "--" := by
    constructor <;> intro heq <;> have hhead := congrArg (fun text => text.toList.head?) heq <;>
      rw [String.toList_append] at hhead <;> cases hhead
  cases left <;> cases right <;> simp only [text, String.append_assoc, String.append_right_inj] at h
  · rfl
  · exact absurd h hplus
  · exact absurd h.symm (hsum _).1
  · exact absurd h.symm hplus
  · rfl
  · exact absurd h.symm (hsum _).2
  · exact absurd h (hsum _).1
  · exact absurd h (hsum _).2
  · rw [Text.decimalInt_injective h]

end CounterStep

/-- A loop over a counter. It is tested in front of every pass, or behind every pass. -/
structure ByteLoop where
  testsFirst : Bool
  first : Nat
  bound : Nat
  step : CounterStep

namespace ByteLoop

/-- The lines of a loop. -/
def rendered (counter : String) (loop : ByteLoop) : Rendered :=
  if loop.testsFirst then
    .around
      ["for (" ++ counter ++ " = " ++ Text.decimal loop.first ++ "; " ++ counter ++ " != "
        ++ Text.decimal loop.bound ++ "; "
        ++ loop.step.text counter ++ ") \x7b"]
      ["\x7d"]
  else
    .around [counter ++ " = " ++ Text.decimal loop.first ++ ";", "do \x7b"]
      ["    " ++ loop.step.text counter ++ ";",
       "\x7d while (" ++ counter ++ " != " ++ Text.decimal loop.bound ++ ");"]

/-- What a loop runs through if its counter is a byte, which keeps what is stored in it modulo
256. -/
def run (loop : ByteLoop) : CounterLoop where
  first := loop.first % 256
  testsFirst := loop.testsFirst
  next value := (value + loop.step.amount) % 256
  goesOn value := value != loop.bound

/-- A loop can be told from its lines. -/
theorem rendered_injective (counter : String) {left right : ByteLoop}
    (h : left.rendered counter = right.rendered counter) : left = right := by
  obtain ⟨leftTests, leftFirst, leftBound, leftStep⟩ := left
  obtain ⟨rightTests, rightFirst, rightBound, rightStep⟩ := right
  have hopening := congrArg Rendered.opening h
  have hclosing := congrArg Rendered.closing h
  cases leftTests <;> cases rightTests
  · simp only [rendered, Rendered.around, Bool.false_eq_true, if_false, List.cons.injEq, and_true,
      String.append_assoc, String.append_right_inj, String.append_left_inj] at hopening hclosing
    rw [Text.decimal_injective hopening, Text.decimal_injective hclosing.2,
      CounterStep.text_injective counter hclosing.1]
  · simp [rendered, Rendered.around] at hopening
  · simp [rendered, Rendered.around] at hopening
  · have hstops (rest : String) : ("; " ++ rest).toList.head?.all (fun c => !Text.isNumeral c)
        = true := by
      rw [String.toList_append]
      rfl
    simp only [rendered, Rendered.around, if_true, List.cons.injEq, and_true, String.append_assoc,
      String.append_right_inj] at hopening
    obtain ⟨hfirst, hrest⟩ := Text.decimal_append_inj (hstops _) (hstops _) hopening
    simp only [String.append_right_inj] at hrest
    obtain ⟨hbound, hrest⟩ := Text.decimal_append_inj (hstops _) (hstops _) hrest
    simp only [String.append_right_inj, String.append_left_inj] at hrest
    rw [hfirst, hbound, CounterStep.text_injective counter hrest]

/-- With a byte as first value, only whether the first value is tested tells a loop from that of the
machine. -/
theorem run_eq (testsFirst : Bool) (first bound : UInt8) (step : Int) :
    run { testsFirst, first := first.toNat, bound := bound.toNat, step := .ofStep step }
      = { CounterLoop.ofBytes first bound step with testsFirst := testsFirst } := by
  have hfirst := first.toNat_lt
  have hwhole : (first.toNat : Int) % 256 = first.toNat := by omega
  simp only [run, CounterLoop.ofBytes, CounterStep.amount_ofStep, hwhole]

end ByteLoop

theorem distinctNumbers_decimal (first bound : UInt8) :
    distinctNumbers (Text.decimal first.toNat) (Text.decimal bound.toNat)
      = decide (first ≠ bound) := by
  rw [distinctNumbers, Text.readInt?_decimal_byte, Text.readInt?_decimal_byte]
  simp [UInt8.toNat_inj]

end Curly

/-! ### Loops over ranges -/

/-- A loop of BASIC over a range of numbers. -/
structure BasicText.ForLoop where
  first : Int
  last : Int
  step : Int

namespace BasicText.ForLoop

def range (loop : ForLoop) : LoopRange :=
  { first := Text.decimalInt loop.first, last := Text.decimalInt loop.last, step := loop.step }

/-- The line that opens a loop. -/
def line (counter : String) (loop : ForLoop) : String :=
  "FOR " ++ counter ++ " = " ++ Text.decimalInt loop.first ++ " TO " ++ Text.decimalInt loop.last
    ++ (if loop.step = 1 then "" else " STEP " ++ Text.decimalInt loop.step)

/-- What a loop runs through, in a dialect that tests the first value or in one that does not. -/
def run (testsFirst : Bool) (loop : ForLoop) : CounterLoop :=
  CounterLoop.ofRange testsFirst loop.first loop.last loop.step

/-- The loop from a byte to another. -/
def ofBytes (first bound : UInt8) (step : Int) : ForLoop :=
  let (start, last) := LoopRange.ofNumbers first.toNat bound.toNat step
  { first := start, last, step }

end BasicText.ForLoop

/-- A node of a loop that counts from one byte to another. -/
structure Node.CountsBytes (node : Node) (first bound : UInt8) (step : Int) : Prop where
  kind : node.kind = .forLoop
  first : node.params[0]? = some (Text.decimal first.toNat)
  bound : node.params[1]? = some (Text.decimal bound.toNat)
  step : node.params[2]? = some (Text.decimalInt step)

namespace Node.CountsBytes

variable {node : Node} {first bound : UInt8} {step : Int} (h : node.CountsBytes first bound step)
include h

theorem render_curly (places : Places) :
    Curly.render places node = Curly.ByteLoop.rendered node.value
      { testsFirst := decide (first ≠ bound), first := first.toNat, bound := bound.toNat,
        step := .ofStep step } := by
  have hrender : Curly.render places node = Curly.countedLoop node := by
    unfold Curly.render
    rw [h.kind]
  have hread (byte : UInt8) : Curly.read (Text.decimal byte.toNat) = Text.decimal byte.toNat :=
    Curly.read_decimalInt byte.toNat
  rw [hrender]
  unfold Curly.countedLoop Curly.ByteLoop.rendered
  simp only [h.first, h.bound, h.step, Option.map_some, Option.getD_some, hread,
    Curly.distinctNumbers_decimal, Curly.CounterStep.text_ofStep]

/-- The range of a loop is one of numbers, each with its decimal text. -/
theorem ofNode_eq (hsize : |step| ≤ 255) :
    LoopRange.ofNode node = (BasicText.ForLoop.ofBytes first bound step).range := by
  have hhigh := le_abs_self step
  have hlow := neg_le_abs step
  have hstep : Text.readInt? (Text.decimalInt step) = some step :=
    Text.readInt?_decimalInt step (by omega) (by omega)
  simp only [LoopRange.ofNode, h.first, h.bound, h.step, Option.bind_some, Option.getD_some, hstep,
    Text.readInt?_decimal_byte]
  split
  · -- A first value that stays what it is keeps its text.
    rename_i hup
    rw [BasicText.ForLoop.ofBytes, LoopRange.ofNumbers, if_pos hup]
    rfl
  · rfl

theorem forLine_eq (hsize : |step| ≤ 255) (fieldMark : Char) :
    BasicText.forLine (BasicText.read fieldMark) node
      = (BasicText.ForLoop.ofBytes first bound step).line node.value := by
  unfold BasicText.forLine BasicText.ForLoop.line
  simp only [h.ofNode_eq hsize, BasicText.ForLoop.range, BasicText.read_decimalInt]

theorem render_classic (hsize : |step| ≤ 255) (places : Places) :
    Classic.render places node
      = .level [(BasicText.ForLoop.ofBytes first bound step).line node.value]
        [BasicText.nextLine node] := by
  rw [← h.forLine_eq hsize '_']
  unfold Classic.render
  rw [h.kind]
  rfl

theorem render_modern (hsize : |step| ≤ 255) (places : Places) :
    Modern.render places node
      = .around [(BasicText.ForLoop.ofBytes first bound step).line node.value]
        [BasicText.nextLine node] := by
  rw [← h.forLine_eq hsize '.']
  unfold Modern.render
  rw [h.kind]
  rfl

end Node.CountsBytes

/-- Loops with a byte as counter run through the values that the machine's counter takes, however
long it takes to come to the bound. The range that the dialects of BASIC share runs through the same
values, modulo 256, exactly if whole steps lead from the first value to the bound. -/
theorem written_loops_count {node : Node} {first bound : UInt8} {step : Int}
    (h : node.CountsBytes first bound step) (hmoves : 1 ≤ |step|) (hsize : |step| ≤ 255)
    (places : Places) :
    ((∃ loop : Curly.ByteLoop, Curly.render places node = loop.rendered node.value) ∧
      ∀ loop : Curly.ByteLoop, Curly.render places node = loop.rendered node.value →
        (loop.testsFirst = true ↔ first ≠ bound) ∧
        loop.run.visit = (CounterLoop.ofBytes first bound step).visit) ∧
    ∃ loop : BasicText.ForLoop, LoopRange.ofNode node = loop.range ∧
      Classic.render places node = .level [loop.line node.value] ["NEXT " ++ node.value] ∧
      Modern.render places node = .around [loop.line node.value] ["NEXT " ++ node.value] ∧
      ∀ testsFirst,
        (∀ passes, ((loop.run testsFirst).visit passes).map (· % 256)
          = (CounterLoop.ofBytes first bound step).visit passes) ↔
          |step| ∣ CounterLoop.distance first bound step := by
  have hne : step ≠ 0 := by
    rintro rfl
    simp at hmoves
  refine ⟨⟨⟨_, h.render_curly places⟩, fun loop hloop => ?_⟩, _, h.ofNode_eq hsize,
    h.render_classic hsize places, h.render_modern hsize places,
    CounterLoop.visits_ofNumbers_iff first bound step hne hsize⟩
  obtain rfl :=
    Curly.ByteLoop.rendered_injective node.value (hloop.symm.trans (h.render_curly places))
  refine ⟨decide_eq_true_iff, ?_⟩
  rw [Curly.ByteLoop.run_eq, CounterLoop.visit_testsFirst]
  · rfl
  · -- A first value that is not the bound passes the test.
    intro hdistinct
    simpa [CounterLoop.ofBytes, UInt8.toNat_inj] using hdistinct

/-- A loop whose counter runs over the end of a byte to its bound. -/
def wrappingNode : Node := { kind := .forLoop, value := "X", params := ["250", "4", "2"] }

theorem wrappingNode_countsBytes : wrappingNode.CountsBytes 250 4 2 :=
  ⟨rfl, by decide +kernel, by decide +kernel, by decide +kernel⟩

theorem wrappingNode_counted :
    wrappingNode.CountsBytes 250 4 2 ∧
      (∃ loop : Curly.ByteLoop, Curly.render {} wrappingNode = loop.rendered "X" ∧
        (List.range 6).map loop.run.visit = [some 250, some 252, some 254, some 0, some 2, none]) ∧
      ∃ loop : BasicText.ForLoop, LoopRange.ofNode wrappingNode = loop.range ∧
        ∀ passes, ((loop.run true).visit passes).map (· % 256)
          = (CounterLoop.ofBytes 250 4 2).visit passes := by
  obtain ⟨⟨⟨loop, hloop⟩, hcurly⟩, range, hrange, -, -, hvisits⟩ :=
    written_loops_count wrappingNode_countsBytes (by decide) (by decide) {}
  refine ⟨wrappingNode_countsBytes, ⟨loop, hloop, ?_⟩, range, hrange,
    (hvisits true).mpr (by decide)⟩
  rw [(hcurly loop hloop).2]
  decide

/-! ### Numbers of thirty-two bits -/

namespace LoopRange

/-- The first and the last value as they are reckoned in thirty-two bits. -/
def ofWords (first bound step : Int32) : Int32 × Int32 :=
  if 0 < step then (first, (if first < bound then bound else bound + 256) - step)
  else (if bound < first then first else first + 256, bound - step)

/-- Numbers below two to the thirtieth leave room for the turn that is added and for the step. -/
theorem toInt_ofWords {first bound step : Int32} (hfirst : |first.toInt| < 2 ^ 30)
    (hbound : |bound.toInt| < 2 ^ 30) (hstep : |step.toInt| < 2 ^ 30) :
    ((ofWords first bound step).1.toInt, (ofWords first bound step).2.toInt)
      = ofNumbers first.toInt bound.toInt step.toInt := by
  rw [abs_lt] at hfirst hbound hstep
  have hsub (value : Int32) (hlow : -2 ^ 31 ≤ value.toInt - step.toInt)
      (hhigh : value.toInt - step.toInt < 2 ^ 31) :
      (value - step).toInt = value.toInt - step.toInt := by
    rw [Int32.toInt_sub]
    apply Int.bmod_eq_of_le <;> omega
  have hturn (value : Int32) (hvalue : -2 ^ 30 < value.toInt ∧ value.toInt < 2 ^ 30) :
      (value + 256).toInt = value.toInt + 256 := by
    have hnumber : (256 : Int32).toInt = 256 := rfl
    rw [Int32.toInt_add, hnumber]
    apply Int.bmod_eq_of_le <;> omega
  have hzero : (0 : Int32).toInt = 0 := rfl
  simp only [ofWords, ofNumbers, Int32.lt_iff_toInt_lt, hzero]
  split
  · rename_i hup
    split
    · rw [hsub bound (by omega) (by omega)]
    · have hnext := hturn bound hbound
      rw [hsub (bound + 256) (by omega) (by omega), hnext]
  · rename_i hdown
    rw [hsub bound (by omega) (by omega)]
    split
    · rfl
    · rw [hturn first hfirst]

/-- A counter is a byte and its step smaller than a turn, so that thirty-two bits hold its range. -/
theorem ofNumbers_bytes (first bound : UInt8) {step : Int32} (hsize : |step.toInt| ≤ 255) :
    ofNumbers first.toNat bound.toNat step.toInt
      = ((ofWords (.ofNat first.toNat) (.ofNat bound.toNat) step).1.toInt,
        (ofWords (.ofNat first.toNat) (.ofNat bound.toNat) step).2.toInt) := by
  have hbyte (byte : UInt8) :
      (Int32.ofNat byte.toNat).toInt = byte.toNat ∧ |(byte.toNat : Int)| < 2 ^ 30 := by
    have hlt := byte.toNat_lt
    refine ⟨Int32.toInt_ofNat_of_lt (by omega), ?_⟩
    rw [abs_lt]
    omega
  obtain ⟨hfirst, hfirstFits⟩ := hbyte first
  obtain ⟨hbound, hboundFits⟩ := hbyte bound
  rw [toInt_ofWords (hfirst ▸ hfirstFits) (hbound ▸ hboundFits) (by omega), hfirst, hbound]

end LoopRange

end Lift6502
