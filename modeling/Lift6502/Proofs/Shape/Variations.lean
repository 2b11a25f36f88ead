import Lift6502.Proofs.Shape.Positions

/-!
# Repeated blocks

Repeated blocks agree in everything but the operands that vary, and an operand that names code never
varies. So a call in one of the blocks stands in all of them, at the same position and with the same
target.
-/

namespace Lift6502

namespace Block

/-! ### Operands that vary -/

/-- What was found at a position: that all operands are the same, or how one varies that names no
code. -/
theorem variationAt?_eq_some {blocks : List Block} {position : Nat} {instruction : Instruction}
    {found : Option Variation} (h : variationAt? blocks position instruction = some found) :
    ∃ values, (blocks.map fun block => (block.instructions[position]?).map (·.operand))
      = values.map some ∧
      (found = none ∧ (∀ value ∈ values, value = instruction.operand) ∨
        instruction.mnemonic.isControlFlow = false ∧
          found = some
            { position, values,
              stride := (values.mapM Operand.number?).bind Variation.strideOf? }) := by
  simp only [variationAt?, Option.bind_eq_bind, Option.bind_eq_some_iff] at h
  obtain ⟨values, hvalues, h⟩ := h
  refine ⟨values, Positional.map_eq_of_mapM hvalues, ?_⟩
  split at h
  · rename_i hsame
    refine Or.inl ⟨(Option.some.inj h).symm, fun value hvalue => ?_⟩
    simpa using List.all_eq_true.mp hsame value hvalue
  · obtain ⟨_, hguard, h⟩ := Option.bind_eq_some_iff.mp h
    have hflow : instruction.mnemonic.isControlFlow = false := by
      cases hflow : instruction.mnemonic.isControlFlow with
      | false => rfl
      | true =>
        rw [hflow] at hguard
        cases hguard
    exact Or.inr ⟨hflow, (Option.some.inj h).symm⟩

theorem variationAt?_position {blocks : List Block} {position : Nat} {instruction : Instruction}
    {variation : Variation} (h : variationAt? blocks position instruction = some (some variation)) :
    variation.position = position ∧ instruction.mnemonic.isControlFlow = false := by
  obtain ⟨values, _, ⟨hnone, _⟩ | ⟨hflow, hfound⟩⟩ := variationAt?_eq_some h
  · cases hnone
  · obtain rfl := Option.some.inj hfound
    exact ⟨rfl, hflow⟩

/-- The operands that vary are found one instruction after the other. -/
theorem variations?_eq_some {first : Block} {rest : List Block} {varying : List Variation}
    (h : variations? (first :: rest) = some varying) :
    (∀ pair ∈ first.instructions.zipIdx, ∃ found, variationAt? (first :: rest) pair.2 pair.1
      = some found) ∧
      varying = first.instructions.zipIdx.filterMap fun pair =>
        (variationAt? (first :: rest) pair.2 pair.1).join := by
  simp only [variations?, Option.bind_eq_bind, Option.bind_eq_some_iff, Option.pure_def,
    Option.some.injEq] at h
  obtain ⟨found, hfound, rfl⟩ := h
  have hmap := Positional.map_eq_of_mapM hfound
  constructor
  · intro pair hpair
    have hmem :=
      List.mem_map_of_mem (f := fun pair => variationAt? (first :: rest) pair.2 pair.1) hpair
    obtain ⟨variation, _, hvariation⟩ := List.mem_map.mp (hmap ▸ hmem)
    exact ⟨variation, hvariation.symm⟩
  · have hjoin := congrArg (List.filterMap Option.join) hmap
    rw [List.filterMap_map, List.filterMap_map] at hjoin
    exact hjoin.symm

theorem exists_of_mem_variations {first : Block} {rest : List Block} {varying : List Variation}
    (h : variations? (first :: rest) = some varying) {variation : Variation}
    (hvariation : variation ∈ varying) :
    ∃ pair ∈ first.instructions.zipIdx, variationAt? (first :: rest) pair.2 pair.1
      = some (some variation) := by
  rw [(variations?_eq_some h).2] at hvariation
  obtain ⟨pair, hpair, hat⟩ := List.mem_filterMap.mp hvariation
  exact ⟨pair, hpair, Option.join_eq_some_iff.mp hat⟩

theorem mem_variations {first : Block} {rest : List Block} {varying : List Variation}
    (h : variations? (first :: rest) = some varying) {pair : Instruction × Nat}
    (hpair : pair ∈ first.instructions.zipIdx) {variation : Variation}
    (hat : variationAt? (first :: rest) pair.2 pair.1 = some (some variation)) :
    variation ∈ varying := by
  rw [(variations?_eq_some h).2]
  exact List.mem_filterMap.mpr ⟨pair, hpair, Option.join_eq_some_iff.mpr hat⟩

/-- The first value of an operand that varies is that of the first block. -/
theorem head?_values_of_mem_variations {first : Block} {rest : List Block}
    {varying : List Variation} (h : variations? (first :: rest) = some varying)
    {variation : Variation} (hvariation : variation ∈ varying) :
    ∃ i ∈ first.instructions, i.mnemonic.isControlFlow = false ∧
      variation.values.head? = some i.operand := by
  obtain ⟨⟨i, position⟩, hpair, hat⟩ := exists_of_mem_variations h hvariation
  have hi := List.mk_mem_zipIdx_iff_getElem?.mp hpair
  refine ⟨i, List.mem_of_getElem? hi, (variationAt?_position hat).2, ?_⟩
  obtain ⟨values, hvalues, ⟨hnone, -⟩ | ⟨-, hfound⟩⟩ := variationAt?_eq_some hat
  · cases hnone
  · obtain rfl := Option.some.inj hfound
    have hhead := congrArg List.head? hvalues
    rw [List.map_cons, List.head?_cons, hi, List.head?_map] at hhead
    cases hvalue : values.head? with
    | none => simp [hvalue] at hhead
    | some value => simpa [hvalue, eq_comm] using hhead

/-- At a position of the first block, what is looked up among the operands that vary is what was
found there. -/
theorem find?_variations {first : Block} {rest : List Block} {varying : List Variation}
    (h : variations? (first :: rest) = some varying) {pair : Instruction × Nat}
    (hpair : pair ∈ first.instructions.zipIdx) :
    varying.find? (·.position == pair.2) = (variationAt? (first :: rest) pair.2 pair.1).join := by
  -- A position belongs to one instruction, so that whatever was found at it was found for that
  -- instruction.
  have hunique {variation : Variation} (hvariation : variation ∈ varying)
      (hposition : variation.position = pair.2) :
      (variationAt? (first :: rest) pair.2 pair.1).join = some variation := by
    obtain ⟨other, hother, hat⟩ := exists_of_mem_variations h hvariation
    have hsame : other = pair := by
      have hposition := (variationAt?_position hat).1.symm.trans hposition
      have hother := List.mk_mem_zipIdx_iff_getElem?.mp hother
      have hpair := List.mk_mem_zipIdx_iff_getElem?.mp hpair
      rw [hposition, hpair] at hother
      exact Prod.ext (Option.some.inj hother).symm hposition
    rw [← hsame, hat]
    rfl
  obtain ⟨found, hat⟩ := (variations?_eq_some h).1 pair hpair
  cases hlooked : varying.find? (·.position == pair.2) with
  | some variation =>
    have hposition := List.find?_some hlooked
    exact (hunique (List.mem_of_find?_eq_some hlooked) (by simpa using hposition)).symm
  | none =>
    rw [hat]
    cases found with
    | none => rfl
    | some variation =>
      have hposition := (variationAt?_position hat).1
      have hother := List.find?_eq_none.mp hlooked variation (mem_variations h hpair hat)
      simp [hposition] at hother

/-- Going through the first block meets every operand that varies exactly once. -/
theorem filterMap_find?_variations (first : Block) (rest : List Block) :
    (first.instructions.zipIdx.filterMap fun pair =>
        ((variations? (first :: rest)).getD []).find? (·.position == pair.2))
      = (variations? (first :: rest)).getD [] := by
  cases hvarying : variations? (first :: rest) with
  | none => simp
  | some varying =>
    rw [Option.getD_some]
    conv_rhs => rw [(variations?_eq_some hvarying).2]
    exact List.filterMap_congr fun pair hpair => find?_variations hvarying hpair

/-- An operand that names code is not among those that vary. -/
theorem find?_variations_of_isControlFlow {first : Block} {rest : List Block}
    {pair : Instruction × Nat} (hpair : pair ∈ first.instructions.zipIdx)
    (hflow : pair.1.mnemonic.isControlFlow = true) :
    ((variations? (first :: rest)).getD []).find? (·.position == pair.2) = none := by
  cases hvarying : variations? (first :: rest) with
  | none => rfl
  | some varying =>
    rw [Option.getD_some, find?_variations hvarying hpair]
    obtain ⟨found, hat⟩ := (variations?_eq_some hvarying).1 pair hpair
    rw [hat]
    cases found with
    | none => rfl
    | some variation =>
      have hdata := (variationAt?_position hat).2
      rw [hflow] at hdata
      cases hdata

/-! ### Blocks of one shape -/

theorem sameShape_of_mem_shapeTail {first previous : Block} {blocks : List Block} :
    ∀ block ∈ blocks.take (shapeTail first previous blocks), block.sameShape first = true := by
  induction blocks generalizing previous with
  | nil => simp
  | cons next rest ih =>
    rw [shapeTail]
    split
    · rename_i hnext
      rw [List.take_succ_cons, List.forall_mem_cons]
      exact ⟨(Bool.and_eq_true _ _ ▸ hnext).1, ih⟩
    · simp

theorem exists_mnemonic_of_sameShape {block first : Block} (h : block.sameShape first = true)
    {position : Nat} {instruction : Instruction}
    (hat : block.instructions[position]? = some instruction) :
    ∃ other, first.instructions[position]? = some other ∧
      other.mnemonic = instruction.mnemonic := by
  simp only [sameShape, Bool.and_eq_true, beq_iff_eq, List.all_eq_true] at h
  obtain ⟨hlength, hforms⟩ := h
  obtain ⟨hlt, rfl⟩ := List.getElem?_eq_some_iff.mp hat
  have hother : position < first.instructions.length := hlength ▸ hlt
  refine ⟨first.instructions[position], List.getElem?_eq_getElem hother, ?_⟩
  have hform := hforms (block.instructions[position], first.instructions[position]) (by
    refine List.mem_iff_getElem.mpr ⟨position, by rw [List.length_zip]; omega, ?_⟩
    exact List.getElem_zip)
  simp only [sameForm, Bool.and_eq_true, beq_iff_eq] at hform
  exact hform.1.symm

/-- The blocks at the front that are shaped like the first one have its mnemonics, position by
position. -/
theorem exists_take_shapeLength {blocks : List Block} (h : blocks.take (shapeLength blocks) ≠ []) :
    ∃ first rest, blocks.take (shapeLength blocks) = first :: rest ∧
      ∀ block ∈ first :: rest, ∀ (position : Nat) i,
      block.instructions[position]? = some i →
        ∃ other, first.instructions[position]? = some other ∧ other.mnemonic = i.mnemonic := by
  cases blocks with
  | nil => simp at h
  | cons first rest =>
    rw [shapeLength] at h ⊢
    split at h
    · exact absurd (List.take_zero) h
    · rename_i hlength
      rw [if_neg hlength]
      refine ⟨first, _, List.take_succ_cons,
        List.forall_mem_cons.mpr ⟨fun _ i hat => ⟨i, hat, rfl⟩, ?_⟩⟩
      intro block hblock position i hat
      exact exists_mnemonic_of_sameShape (sameShape_of_mem_shapeTail block hblock) hat

end Block

/-- A match of repeated blocks: what stands at a position of one of them has the mnemonic that the
first one has there, and the operands that vary are known. -/
structure Match.Repeated (found : Match) : Prop where
  alike : ∃ first rest, found.blocks = first :: rest ∧ ∀ block ∈ found.blocks, ∀ (position : Nat) i,
    block.instructions[position]? = some i → ∃ other, first.instructions[position]? = some other ∧
    other.mnemonic = i.mnemonic
  varying : ∃ varying, Block.variations? found.blocks = some varying
  /-- Control runs from the first of unrolled blocks to the end of the last one. -/
  through : found.shape = .unrolled → ∀ block ∈ found.blocks, Shape.runsThrough block = true

namespace Match.Repeated

variable {found : Match} (h : found.Repeated)

include h

/-- Where an instruction names code, the first of repeated blocks says the same at the same
position. -/
theorem exists_toOperation {instruction : Instruction} (hmem : instruction ∈ found.instructions)
    (hflow : instruction.mnemonic.isControlFlow = true) :
    ∃ first rest, found.blocks = first :: rest ∧ ∃ pair ∈ first.instructions.zipIdx,
      pair.1.toOperation = instruction.toOperation := by
  obtain ⟨first, rest, hblocks, halike⟩ := h.alike
  obtain ⟨varying, hvarying⟩ := h.varying
  obtain ⟨block, hblock, hinside⟩ := Block.mem_instructionsOf.mp hmem
  obtain ⟨position, hat⟩ := List.getElem?_of_mem hinside
  obtain ⟨other, hother, hmnemonic⟩ := halike block hblock position instruction hat
  have hpair : (other, position) ∈ first.instructions.zipIdx :=
    List.mk_mem_zipIdx_iff_getElem?.mpr hother
  rw [hblocks] at hvarying
  obtain ⟨found, hfound⟩ := (Block.variations?_eq_some hvarying).1 (other, position) hpair
  obtain ⟨values, hvalues, ⟨-, hsame⟩ | ⟨hdata, -⟩⟩ := Block.variationAt?_eq_some hfound
  · have hvalue : some instruction.operand ∈ values.map some := by
      rw [← hvalues, ← hblocks]
      exact List.mem_map.mpr ⟨block, hblock, by rw [hat]; rfl⟩
    obtain ⟨value, hvalue, hoperand⟩ := List.mem_map.mp hvalue
    have hoperand : other.operand = instruction.operand :=
      (hsame value hvalue).symm.trans (Option.some.inj hoperand)
    refine ⟨first, rest, hblocks, (other, position), hpair, ?_⟩
    change (⟨other.mnemonic, other.operand⟩ : Operation)
        = ⟨instruction.mnemonic, instruction.operand⟩
    rw [hmnemonic, hoperand]
  · rw [hmnemonic, hflow] at hdata
    cases hdata

end Match.Repeated

end Lift6502
