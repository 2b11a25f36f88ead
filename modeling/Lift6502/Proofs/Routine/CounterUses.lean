import Lift6502.Proofs.Routine.Accounting
import Lift6502.Proofs.Routine.Counting

/-!
# What is written in front of a counted loop

A counted loop is written where its top stands, and it takes the initialisation of its counter with
it. Everything else that stands in front of the top is written in front of the loop, in order. What
stood between the initialisation and the top was run with the counter at its first value, but is
written ahead of it; this is right as long as it does not use the counter.
-/

namespace Lift6502

/-- The register that a transfer reads. -/
def Mnemonic.transfers? : Mnemonic → Option Register
  | .tax | .tay => some .a
  | .txa | .txs => some .x
  | .tya => some .y
  | _ => none

/-- The register that the machine adds to find the address of an operand. -/
def Operand.index? : Operand → Option Register
  | .indexed _ index | .indirectIndexed _ index => some index.register
  | _ => none

/-- Whether an instruction stores, transfers or compares a register, or indexes its operand with
it. -/
def Operation.uses (operation : Operation) (register : Register) : Bool :=
  operation.mnemonic.stores? == some register || operation.mnemonic.transfers? == some register
    || operation.mnemonic.compares? == some register || operation.operand.index? == some register

namespace CountedLoop

variable {loop : CountedLoop} {block : Block} {front : List Instruction}

namespace Ordered

variable (h : loop.Ordered front)
include h

theorem filter_lt_top :
    (front ++ loop.init :: (loop.between ++ (loop.lap ++ [loop.branch]))).filter
      (·.address < loop.top)
      = front ++ loop.init :: loop.between := by
  rw [← List.cons_append, ← List.append_assoc, List.filter_append, List.filter_eq_self.mpr,
    List.filter_eq_nil_iff.mpr, List.append_nil]
  · intro i hi
    simpa using h.above i hi
  · intro i hi
    simpa using h.below i hi

theorem filter_top_le :
    (front ++ loop.init :: (loop.between ++ (loop.lap ++ [loop.branch]))).filter
      (loop.top ≤ ·.address)
      = loop.lap ++ [loop.branch] := by
  rw [← List.cons_append, ← List.append_assoc, List.filter_append, List.filter_eq_nil_iff.mpr,
    List.filter_eq_self.mpr, List.nil_append]
  · intro i hi
    simpa using h.above i hi
  · intro i hi
    simpa using h.below i hi

variable {symbols : SymbolTable} {found : Match} (hrecorded : loop.RecordedBy symbols block found)
include hrecorded

theorem absorbs_of_lt_top {i : Instruction} (hi : i.address < loop.top)
    (hinit : i.address ≠ loop.init.address) : found.absorbs i = false := by
  rw [← Bool.not_eq_true, hrecorded.absorbs_iff]
  rintro ⟨absorbed, hmem, haddress⟩
  rw [loop.mem_absorbed] at hmem
  -- What is absorbed besides the initialisation stands at the top or behind it.
  rcases hmem with rfl | hmem
  · exact hinit haddress.symm
  · have hlap : absorbed ∈ loop.lap ++ [loop.branch] := by
      rw [lap_append_branch]
      exact List.mem_append_right _ hmem
    rw [← haddress] at hi
    exact UInt16.not_le.mpr hi (h.above absorbed hlap)

theorem unabsorbed_below :
    found.unabsorbed (front ++ loop.init :: loop.between) = front ++ loop.between := by
  have hfront : found.unabsorbed front = front := by
    apply List.filter_eq_self.mpr
    intro i hi
    simp [h.absorbs_of_lt_top hrecorded (h.below i (List.mem_append_left _ hi))
      (UInt16.ne_of_lt (h.ahead i hi))]
  have hbetween : found.unabsorbed loop.between = loop.between := by
    apply List.filter_eq_self.mpr
    intro i hi
    have hlt := h.below i (List.mem_append_right _ (List.mem_cons_of_mem _ hi))
    simp [h.absorbs_of_lt_top hrecorded hlt (UInt16.ne_of_lt (h.between i hi)).symm]
  have hinit : found.absorbs loop.init = true := hrecorded.absorbs_iff.mpr
    ⟨loop.init, List.mem_cons_self, rfl⟩
  rw [Match.unabsorbed_append, hfront, Match.unabsorbed, List.filter_cons_of_neg (by simp [hinit])]
  exact congrArg (front ++ ·) hbetween

theorem unabsorbed_above : found.unabsorbed (loop.lap ++ [loop.branch]) = loop.body := by
  have hinit : loop.init.address < loop.top :=
    h.below loop.init (List.mem_append_right _ List.mem_cons_self)
  have hbody : found.unabsorbed loop.body = loop.body := by
    apply List.filter_eq_self.mpr
    intro i hi
    rw [Bool.not_eq_true', ← Bool.not_eq_true, hrecorded.absorbs_iff]
    rintro ⟨absorbed, hmem, haddress⟩
    have hle :=
      h.above i (List.mem_append_left _ (List.mem_append_left _ (List.mem_append_left _ hi)))
    rw [loop.mem_absorbed] at hmem
    rcases hmem with rfl | hmem
    · rw [← haddress] at hle
      exact UInt16.not_le.mpr hinit hle
    · exact UInt16.ne_of_lt (h.body i hi absorbed hmem) haddress.symm
  have hrest : found.unabsorbed (loop.steps ++ loop.compare.toList ++ [loop.branch]) = [] := by
    apply Match.unabsorbed_eq_nil
    intro i hi
    exact hrecorded.absorbs_iff.mpr ⟨i, List.mem_cons_of_mem _ hi, rfl⟩
  rw [lap_append_branch, Match.unabsorbed_append, hbody, hrest, List.append_nil]

end Ordered

theorem RecordedBy.instructions_eq {symbols : SymbolTable} {found : Match}
    (h : loop.RecordedBy symbols block found) : found.instructions = block.instructions := by
  rw [Match.instructions, h.blocks, Block.instructionsOf, List.flatMap_singleton]

/-- A counted loop is written behind all that stands in front of its top, and takes its
initialisation along. -/
theorem RecordedBy.structured_eq {symbols : SymbolTable} {found : Match}
    (hrecorded : loop.RecordedBy symbols block found) (h : loop.Ordered front)
    (hparts : block.instructions
      = front ++ loop.init :: (loop.between ++ (loop.lap ++ [loop.branch]))) (usage : Usage) :
    (Routine.structured symbols usage found).2
      = (front ++ loop.between).map (Statement.ofInstruction symbols)
        ++ [{ kind := .forLoop
              value := loop.register.text
              params := [Routine.subjectText symbols found, (Routine.boundAndStep symbols found).1,
                Text.decimalInt (Routine.boundAndStep symbols found).2]
              children := loop.body.map (Statement.ofInstruction symbols)
              address := some loop.init.address }] := by
  have hinstructions := hrecorded.instructions_eq.trans hparts
  have hcounted : (Routine.structured symbols usage found).2 = Routine.counted symbols found := by
    rcases ite_eq_or_eq (0 < loop.step) Shape.countUp Shape.countDown with hshape | hshape <;>
      simp only [Routine.structured, hrecorded.shape, hshape]
  have hbelow : Routine.statements symbols found (·.address < loop.top)
      = (front ++ loop.between).map (Statement.ofInstruction symbols) := by
    rw [Routine.statements_eq_map_filter, Match.unabsorbed, List.filter_comm, hinstructions,
      h.filter_lt_top]
    exact congrArg _ (h.unabsorbed_below hrecorded)
  have habove : Routine.statements symbols found (loop.top ≤ ·.address)
      = loop.body.map (Statement.ofInstruction symbols) := by
    rw [Routine.statements_eq_map_filter, Match.unabsorbed, List.filter_comm, hinstructions,
      h.filter_top_le]
    exact congrArg _ (h.unabsorbed_above hrecorded)
  simp only [hcounted, Routine.counted, hrecorded.top, List.head?_cons, Option.getD_some, hbelow,
    habove, hrecorded.anchor, Routine.registerText, hrecorded.register, Option.map_some]

/-- What is written in front of a loop from behind its initialisation is what stands between that
and the top. -/
theorem RecordedBy.mem_between_iff {symbols : SymbolTable} {found : Match}
    (hrecorded : loop.RecordedBy symbols block found) (h : loop.Ordered front)
    (hparts : block.instructions
      = front ++ loop.init :: (loop.between ++ (loop.lap ++ [loop.branch]))) {i : Instruction} :
    (i ∈ found.unabsorbed found.instructions ∧ found.anchor < i.address ∧ i.address < loop.top) ↔
      i ∈ loop.between := by
  have hunabsorbed :
      found.unabsorbed found.instructions = (front ++ loop.between) ++ loop.body := by
    rw [hrecorded.instructions_eq, hparts, ← List.cons_append, ← List.append_assoc,
      Match.unabsorbed_append, h.unabsorbed_below hrecorded, h.unabsorbed_above hrecorded]
  rw [hunabsorbed, hrecorded.anchor, List.mem_append, List.mem_append]
  constructor
  · rintro ⟨(hfront | hbetween) | hbody, hafter, hbefore⟩
    · exact absurd (h.ahead i hfront) (UInt16.lt_asymm hafter)
    · exact hbetween
    · have hle :=
        h.above i (List.mem_append_left _ (List.mem_append_left _ (List.mem_append_left _ hbody)))
      exact absurd hle (UInt16.not_le.mpr hbefore)
  · intro hbetween
    exact ⟨Or.inl (Or.inr hbetween), h.between i hbetween,
      h.below i (List.mem_append_right _ (List.mem_cons_of_mem _ hbetween))⟩

end CountedLoop

/-- A counted loop is written behind all that stands in front of its top. That moves no use of the
counter ahead of its initialisation exactly if nothing between the two uses it. -/
theorem counter_uses_stay_behind_iff {symbols : SymbolTable} {block : Block} {rest : List Block}
    {found : Match} (hascending : Ascending block.instructions)
    (hfound : Shape.detectCounted symbols (block :: rest) = some found) (usage : Usage) :
    ∃ loop front loopNode, CountedLoop.ofBlock? block = some loop ∧
      found.register = some loop.register ∧
      block.instructions = front ++ loop.init :: (loop.between ++ (loop.lap ++ [loop.branch])) ∧
      (Routine.structured symbols usage found).2
        = (front ++ loop.between).map (Statement.ofInstruction symbols) ++ [loopNode] ∧
      loopNode.kind = .forLoop ∧ loopNode.address = some loop.init.address ∧
      ((∀ i ∈ found.unabsorbed found.instructions, found.anchor < i.address → i.address < loop.top →
          i.uses loop.register = false) ↔
        ∀ i ∈ loop.between, i.uses loop.register = false) := by
  obtain ⟨loop, hblock, hrecorded⟩ := CountedLoop.recordedBy_of_detectCounted hfound
  have hloop := CountedLoop.isIn_of_ofBlock? hblock
  obtain ⟨front, hparts⟩ := hloop.parts
  have hordered := hloop.ordered hascending hparts
  refine ⟨loop, front, _, hblock, hrecorded.register, hparts,
    hrecorded.structured_eq hordered hparts usage, rfl, rfl, ?_⟩
  have hbetween {i : Instruction} := hrecorded.mem_between_iff hordered hparts (i := i)
  constructor
  · intro h i hi
    obtain ⟨hmem, hafter, hbefore⟩ := hbetween.mpr hi
    exact h i hmem hafter hbefore
  · intro h i hmem hafter hbefore
    exact h i (hbetween.mp ⟨hmem, hafter, hbefore⟩)

/-- A loop that gets a character ready after its counter is set. -/
def preparedFill : Block where
  instructions :=
    [{ address := 0xC000, mnemonic := .ldx, operand := .immediate 5 },
     { address := 0xC002, mnemonic := .lda, operand := .immediate 0x20 },
     { address := 0xC004, mnemonic := .sta, operand := .indexed 0x0400 .x },
     { address := 0xC007, mnemonic := .dex, operand := .implied },
     { address := 0xC008, mnemonic := .bne, operand := .absolute 0xC004 }]
  nonempty := List.cons_ne_nil _ _

theorem preparedFill_recognised : (Shape.detectCounted {} [preparedFill]).isSome := by
  decide +kernel

theorem preparedFill_uses_stay :
    Ascending preparedFill.instructions ∧
      ∃ found, Shape.detectCounted {} [preparedFill] = some found ∧
      ∃ loop front, CountedLoop.ofBlock? preparedFill = some loop ∧
        preparedFill.instructions
          = front ++ loop.init :: (loop.between ++ (loop.lap ++ [loop.branch])) ∧
        ∀ i ∈ found.unabsorbed found.instructions, found.anchor < i.address → i.address < loop.top →
          i.uses loop.register = false := by
  have hascending : Ascending preparedFill.instructions := by decide
  have hfound := (Option.some_get preparedFill_recognised).symm
  obtain ⟨loop, front, _, hblock, -, hparts, -, -, -, huses⟩ :=
    counter_uses_stay_behind_iff hascending hfound {}
  refine ⟨hascending, _, hfound, loop, front, hblock, hparts, huses.mpr ?_⟩
  have hbetween : (CountedLoop.ofBlock? preparedFill).all fun loop => loop.between.all fun i =>
      !i.uses loop.register := by
    decide +kernel
  intro i hi
  rw [hblock, Option.all_some, List.all_eq_true] at hbetween
  simpa using hbetween i hi

/-- A loop whose counter is stored before the first round, behind its initialisation. -/
def earlyStore : Block where
  instructions :=
    [{ address := 0xC000, mnemonic := .ldx, operand := .immediate 5 },
     { address := 0xC002, mnemonic := .stx, operand := .absolute 0x0400 },
     { address := 0xC005, mnemonic := .dex, operand := .implied },
     { address := 0xC006, mnemonic := .bne, operand := .absolute 0xC005 }]
  nonempty := List.cons_ne_nil _ _

theorem earlyStore_recognised : (Shape.detectCounted {} [earlyStore]).isSome := by
  decide +kernel

theorem earlyStore_moved :
    ((Shape.detectCounted {} [earlyStore]).map fun found =>
        ((Routine.structured {} {} found).2.map fun node => (node.kind, node.address)))
      = some [(.assign, some 0xC002), (.forLoop, some 0xC000)] ∧
    ∃ found, Shape.detectCounted {} [earlyStore] = some found ∧ found.register = some .x ∧
    found.targets = [0xC005] ∧
      ∃ i ∈ found.unabsorbed found.instructions, found.anchor < i.address ∧ i.address < 0xC005 ∧
      i.uses .x = true := by
  have hwritten : ((Shape.detectCounted {} [earlyStore]).map fun found =>
        ((Routine.structured {} {} found).2.map fun node => (node.kind, node.address)))
      = some [(.assign, some 0xC002), (.forLoop, some 0xC000)] := by decide +kernel
  have hfound := (Option.some_get earlyStore_recognised).symm
  refine ⟨hwritten, _, hfound, by decide +kernel, by decide +kernel, ?_⟩
  exact ⟨{ address := 0xC002, mnemonic := .stx, operand := .absolute 0x0400 }, by decide +kernel,
    by decide +kernel, by decide, by decide⟩

end Lift6502
