import Lift6502.Proofs.Shape.Recognition
import Lift6502.Proofs.Shape.StepSums
import Lift6502.Routine.Structured

/-!
# The parts of a counted loop

All that later modules know of a counted loop beyond the order of its parts: that its branch looks
at the comparison or at the last step, where its parts stand in memory, and what a match tells of
all this.
-/

namespace Lift6502

namespace CountedLoop

theorem lap_append_branch (loop : CountedLoop) :
    loop.lap ++ [loop.branch]
      = loop.body ++ (loop.steps ++ loop.compare.toList ++ [loop.branch]) := by
  rw [lap, List.append_assoc, List.append_assoc, List.append_assoc]

theorem mem_absorbed (loop : CountedLoop) {i : Instruction} :
    i ∈ loop.absorbed ↔ i = loop.init ∨ i ∈ loop.steps ++ loop.compare.toList ++ [loop.branch] := by
  rw [absorbed, List.cons_append, List.cons_append, List.mem_cons]

variable {loop : CountedLoop} {block : Block}

theorem IsIn.steps_ne_nil (h : loop.IsIn block) : loop.steps ≠ [] := by
  intro hnil
  apply h.moves
  rw [h.step, hnil]
  rfl

/-- What is added up in sixteen bits is right as a byte. -/
theorem IsIn.step_modEq (h : loop.IsIn block) :
    loop.step.toInt ≡ total loop.register loop.steps [ZMOD 256] := by
  rw [h.step]
  exact (toInt_sum_modEq loop.register loop.steps).of_dvd (by decide)

theorem IsIn.exists_lap (h : loop.IsIn block) :
    ∃ first rest, loop.lap = first :: rest ∧ first.address = loop.top := by
  have hne : loop.lap ≠ [] :=
    List.append_ne_nil_of_left_ne_nil (List.append_ne_nil_of_right_ne_nil _ h.steps_ne_nil) _
  obtain ⟨first, rest, hlap⟩ := List.exists_cons_of_ne_nil hne
  have htop := h.top
  rw [hlap] at htop
  exact ⟨first, rest, hlap, Option.some.inj htop⟩

theorem writes_of_compares? {mnemonic : Mnemonic} {register : Register}
    (h : mnemonic.compares? = some register) (other : Register) :
    mnemonic.writes other = false := by
  cases mnemonic with
  | cmp | cpx | cpy => cases other <;> rfl
  | _ => cases h

theorem IsIn.writes_compare (h : loop.IsIn block) {i : Instruction} (hi : i ∈ loop.compare.toList) :
    i.mnemonic.writes loop.register = false :=
  writes_of_compares? (h.compare i (Option.mem_toList.mp hi)) loop.register

theorem IsIn.writes_branch (h : loop.IsIn block) :
    loop.branch.mnemonic.writes loop.register = false := by
  rw [h.branch.2.1]
  rcases h.index with hregister | hregister <;> rw [hregister] <;> rfl

theorem IsIn.dropLast_parts (h : loop.IsIn block) :
    ∃ front, block.instructions.dropLast = front ++ loop.init :: (loop.between ++ loop.lap) := by
  obtain ⟨front, hparts⟩ := h.parts
  use front
  rw [hparts, ← List.append_assoc loop.between, ← List.cons_append, ← List.append_assoc,
    List.dropLast_concat]

/-- Right before the branch stands the comparison, or the last step if nothing is compared. -/
theorem IsIn.exists_setter (h : loop.IsIn block) :
    ∃ setter, block.instructions.dropLast.getLast? = some setter ∧
      (loop.compare = some setter ∨ loop.compare = none ∧ loop.steps.getLast? = some setter) := by
  obtain ⟨front, hparts⟩ := h.dropLast_parts
  rw [lap] at hparts
  cases hcompare : loop.compare with
  | some compare =>
    refine ⟨compare, ?_, Or.inl rfl⟩
    rw [hparts, hcompare, Option.toList_some, ← List.append_assoc, ← List.cons_append,
      ← List.append_assoc, List.getLast?_concat]
  | none =>
    refine ⟨loop.steps.getLast h.steps_ne_nil, ?_,
      Or.inr ⟨rfl, List.getLast?_eq_some_getLast h.steps_ne_nil⟩⟩
    rw [hparts, hcompare, Option.toList_none, List.append_nil, ← List.append_assoc,
      ← List.cons_append, ← List.append_assoc, List.getLast?_append_of_ne_nil _ h.steps_ne_nil,
      List.getLast?_eq_some_getLast]

/-! ### Addresses -/

variable {front : List Instruction}

/-- The parts of a loop stand one behind the other, with the top between them. -/
structure Ordered (loop : CountedLoop) (front : List Instruction) : Prop where
  ahead : ∀ i ∈ front, i.address < loop.init.address
  between : ∀ i ∈ loop.between, loop.init.address < i.address
  below : ∀ i ∈ front ++ loop.init :: loop.between, i.address < loop.top
  above : ∀ i ∈ loop.lap ++ [loop.branch], loop.top ≤ i.address
  later : ∀ i ∈ (loop.lap ++ [loop.branch]).tail, loop.top < i.address
  body : ∀ i ∈ loop.body, ∀ later ∈ loop.steps ++ loop.compare.toList ++ [loop.branch],
    i.address < later.address

theorem IsIn.ordered (h : loop.IsIn block) (hascending : Ascending block.instructions)
    (hparts : block.instructions
      = front ++ loop.init :: (loop.between ++ (loop.lap ++ [loop.branch]))) :
    loop.Ordered front := by
  rw [hparts, ← List.cons_append, ← List.append_assoc] at hascending
  obtain ⟨hbefore, hlap, hcross⟩ := List.pairwise_append.mp hascending
  obtain ⟨-, hinit, hfront⟩ := List.pairwise_append.mp hbefore
  have hbody := hlap
  rw [lap_append_branch] at hbody
  obtain ⟨first, rest, hfirst, htop⟩ := h.exists_lap
  rw [hfirst, List.cons_append] at hlap hcross
  have hlater := (List.pairwise_cons.mp hlap).1
  refine ⟨?_, (List.pairwise_cons.mp hinit).1, ?_, ?_, ?_, (List.pairwise_append.mp hbody).2.2⟩
  · intro i hi
    exact hfront i hi loop.init List.mem_cons_self
  · intro i hi
    rw [← htop]
    exact hcross i hi first List.mem_cons_self
  · rw [hfirst, List.cons_append, ← htop]
    intro i hi
    rcases List.mem_cons.mp hi with rfl | hi
    · exact UInt16.le_refl i.address
    · exact UInt16.le_of_lt (hlater i hi)
  · rw [hfirst, List.cons_append, ← htop]
    exact hlater

/-! ### What a match tells -/

/-- A match tells of a counted loop: its counter, its first value and its bound, its step, and where
it starts and loops back. The direction is the sign that the step has in sixteen bits, and its size
is kept as a byte. -/
structure RecordedBy (loop : CountedLoop) (symbols : SymbolTable) (block : Block) (found : Match) :
    Prop where
  shape : found.shape = if 0 < loop.step then .countUp else .countDown
  register : found.register = some loop.register
  first : found.subject = some loop.init.operand
  operands : found.operands = [loop.bound, .immediate (stepByte loop.step)]
  anchor : found.anchor = loop.init.address
  top : found.targets = [loop.top]
  blocks : found.blocks = [block]
  control : found.control = Match.addressesOf loop.absorbed
  step : (Routine.boundAndStep symbols found).2 ≡ loop.step.toInt [ZMOD 256]

theorem recordedBy_of_detectCounted {symbols : SymbolTable} {rest : List Block} {found : Match}
    (h : Shape.detectCounted symbols (block :: rest) = some found) :
    ∃ loop, ofBlock? block = some loop ∧ loop.RecordedBy symbols block found := by
  obtain ⟨first, others, loop, hblocks, hloop, rfl⟩ := Shape.detectCounted_eq_some_iff.mp h
  obtain ⟨rfl, rfl⟩ := List.cons.inj hblocks
  refine ⟨loop, hloop, rfl, rfl, rfl, rfl, rfl, rfl, rfl, rfl, ?_⟩
  -- The size of the step is kept as a byte, and its sign in the shape.
  have hsize : ((stepByte loop.step).toNat : Int) = loop.step.toInt.natAbs % 256 := by
    simp [stepByte]
  have hsign : 0 < loop.step ↔ 0 < loop.step.toInt := Int16.lt_iff_toInt_lt
  simp only [Routine.boundAndStep, toMatch, hsize, Int.ModEq]
  by_cases hup : 0 < loop.step
  · have hpos := hsign.mp hup
    rw [if_pos hup, if_neg (by decide)]
    omega
  · have hnonpos := mt hsign.mpr hup
    rw [if_neg hup, if_pos rfl]
    omega

theorem RecordedBy.bound {symbols : SymbolTable} {found : Match}
    (h : loop.RecordedBy symbols block found) : found.operands.head? = some loop.bound := by
  rw [h.operands, List.head?_cons]

theorem RecordedBy.absorbs_iff {symbols : SymbolTable} {found : Match}
    (h : loop.RecordedBy symbols block found) {instruction : Instruction} :
    found.absorbs instruction = true ↔ ∃ i ∈ loop.absorbed, i.address = instruction.address := by
  rw [Match.absorbs, h.control, Std.ExtTreeSet.contains_iff_mem, Match.mem_addressesOf]

end CountedLoop

end Lift6502
