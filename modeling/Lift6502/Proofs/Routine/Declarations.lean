import Lift6502.Proofs.Dialect.Labels
import Lift6502.Proofs.Routine.Parts
import Lift6502.Proofs.Routine.Uses

/-!
# Everything that is used is declared

What has to be declared for a program is collected beside its tree. Both are compared here with the
instructions of the listing: every place that an instruction uses is a variable with the name that
statements call it by, and it is dimensioned or used as a pointer exactly if some instruction or
some folded operand asks for it. What is called is a routine of the program, one of the ROM, or
comes from outside.
-/

namespace Lift6502

/-! ### Uses of single instructions -/

namespace Instruction

variable {instruction : Instruction} {address : Address}

theorem use?_indexed_iff :
    (∃ use, instruction.use? = some use ∧ use.address = address ∧ use.indexed = true) ↔
      instruction.mnemonic ≠ .jsr ∧ ∃ index, instruction.operand = .indexed address index := by
  unfold use?
  by_cases hcall : instruction.mnemonic = .jsr
  · simp [hcall]
  · rw [if_neg hcall]
    cases instruction.operand <;> simp [hcall]

theorem use?_pointer_iff :
    (∃ use, instruction.use? = some use ∧ use.address = address ∧ use.pointer = true) ↔
      instruction.mnemonic ≠ .jsr ∧ ∃ pointer index,
        instruction.operand = .indirectIndexed pointer index ∧ pointer.toUInt16 = address := by
  unfold use?
  by_cases hcall : instruction.mnemonic = .jsr
  · simp [hcall]
  · rw [if_neg hcall]
    cases instruction.operand <;> simp [hcall]

theorem of_use? {use : Use} (h : instruction.use? = some use) :
    instruction.mnemonic ≠ .jsr ∧ instruction.operand.address? = some use.address := by
  unfold use? at h
  by_cases hcall : instruction.mnemonic = .jsr
  · simp [hcall] at h
  · rw [if_neg hcall] at h
    refine ⟨hcall, ?_⟩
    cases hoperand : instruction.operand <;> rw [hoperand] at h <;> simp only at h
      <;> grind [Operand.address?]

theorem ne_jsr_of_data (hflow : instruction.mnemonic.isControlFlow = false) :
    instruction.mnemonic ≠ .jsr := by
  intro hcall
  rw [hcall] at hflow
  cases hflow

/-- An instruction that names no code uses the place that its operand names. -/
theorem exists_use? (hflow : instruction.mnemonic.isControlFlow = false)
    (haddress : instruction.operand.address? = some address) :
    ∃ use, instruction.use? = some use ∧ use.address = address := by
  unfold use?
  rw [if_neg (ne_jsr_of_data hflow), hflow]
  cases hoperand : instruction.operand <;> rw [hoperand] at haddress <;> grind [Operand.address?]

end Instruction

theorem Variation.use?_eq_some {variation : Variation} {use : Use} :
    variation.use? = some use ↔
      variation.values.head? = some (.absolute use.address) ∧ use.indexed = true ∧
      use.pointer = false := by
  obtain ⟨address, indexed, pointer⟩ := use
  unfold use?
  cases variation.values.head? with
  | none => simp
  | some value => cases value <;> simp [eq_comm]

namespace Program

variable (symbols : SymbolTable) (blocks : List Block)

/-! ### All uses -/

theorem instructions_shapes :
    (shapes symbols blocks).flatMap Match.instructions = Block.instructionsOf blocks := by
  rw [shapes, List.flatMap_assoc]
  simp only [Routine.flatMap_instructions_shapes, Block.instructionsOf]
  rw [← List.flatMap_assoc, List.flatMap_id', flatten_divide]

theorem calls_shapes :
    (shapes symbols blocks).flatMap Match.calls = (Block.instructionsOf blocks).filterMap fun i =>
      i.callTarget? := by
  rw [← instructions_shapes symbols blocks, List.filterMap_flatMap]
  rfl

theorem mem_uses_iff {use : Use} :
    use ∈ (shapes symbols blocks).flatMap Match.uses ↔
      (∃ i ∈ Block.instructionsOf blocks, i.use? = some use) ∨
        ∃ found ∈ shapes symbols blocks, ∃ variation ∈ found.folded, variation.use? = some use := by
  rw [← List.mem_filterMap, ← instructions_shapes symbols blocks, List.filterMap_flatMap,
    List.mem_flatMap, List.mem_flatMap]
  simp only [Match.uses, List.mem_append, and_or_left, exists_or]
  simp only [List.mem_filterMap]

/-- A flag of a variable is raised exactly by a use that raises it. -/
theorem any_uses_iff {address : Address} {flag : Use → Bool} :
    (((shapes symbols blocks).flatMap Match.uses).any fun use =>
      use.address == address && flag use) = true ↔
      (∃ i ∈ Block.instructionsOf blocks, ∃ use, i.use? = some use ∧ use.address = address ∧
        flag use = true) ∨
        ∃ found ∈ shapes symbols blocks, ∃ variation ∈ found.folded, ∃ use,
          variation.use? = some use ∧ use.address = address ∧ flag use = true := by
  rw [List.any_eq_true]
  constructor
  · rintro ⟨use, huse, hflag⟩
    rw [Bool.and_eq_true, beq_iff_eq] at hflag
    rcases (mem_uses_iff symbols blocks).mp huse with
      ⟨i, hi, huse⟩ | ⟨found, hfound, variation, hvariation, huse⟩
    · exact Or.inl ⟨i, hi, use, huse, hflag⟩
    · exact Or.inr ⟨found, hfound, variation, hvariation, use, huse, hflag⟩
  · rintro (⟨i, hi, use, huse, hflag⟩ | ⟨found, hfound, variation, hvariation, use, huse, hflag⟩)
    · refine ⟨use, (mem_uses_iff symbols blocks).mpr (Or.inl ⟨i, hi, huse⟩), ?_⟩
      rwa [Bool.and_eq_true, beq_iff_eq]
    · refine ⟨use, (mem_uses_iff symbols blocks).mpr
        (Or.inr ⟨found, hfound, variation, hvariation, huse⟩), ?_⟩
      rwa [Bool.and_eq_true, beq_iff_eq]

theorem exists_instruction_of_folded {symbols : SymbolTable} {blocks : List Block} {found : Match}
    (hfound : found ∈ shapes symbols blocks) {variation : Variation}
    (hvariation : variation ∈ found.folded) :
    ∃ i ∈ Block.instructionsOf blocks, i.mnemonic.isControlFlow = false ∧
      variation.values.head? = some i.operand := by
  unfold Match.folded at hvariation
  split at hvariation
  · cases hvarying : Block.variations? found.blocks with
    | none =>
      rw [hvarying] at hvariation
      cases hvariation
    | some varying =>
      rw [hvarying, Option.getD_some] at hvariation
      cases hblocks : found.blocks with
      | nil =>
        rw [hblocks] at hvarying
        cases hvarying
      | cons first rest =>
        rw [hblocks] at hvarying
        obtain ⟨i, hi, hvalue⟩ := Block.head?_values_of_mem_variations hvarying hvariation
        refine ⟨i, ?_, hvalue⟩
        rw [← instructions_shapes symbols blocks, List.mem_flatMap]
        refine ⟨found, hfound, Block.mem_instructionsOf.mpr ⟨first, ?_, hi⟩⟩
        rw [hblocks]
        exact List.mem_cons_self
  · cases hvariation

/-! ### Variables of a program -/

theorem variableMap_build {address : Address} {place : Variable} :
    (build symbols blocks).variableMap[address]? = some place ↔
      (∃ use ∈ (shapes symbols blocks).flatMap Match.uses, use.address = address) ∧
        place = placeFor symbols ((shapes symbols blocks).flatMap Match.uses) address :=
  (covers_routines symbols blocks).places address place

variable {symbols blocks}

theorem exists_variable (symbols : SymbolTable) {i : Instruction}
    (hi : i ∈ Block.instructionsOf blocks) (hflow : i.mnemonic.isControlFlow = false)
    {address : Address} (haddress : i.operand.address? = some address) :
    ∃ place, (build symbols blocks).variableMap[address]? = some place ∧
      place.name = symbols.dataName address ∧
      place.kind = symbols.kind? address := by
  obtain ⟨use, huse, rfl⟩ := Instruction.exists_use? hflow haddress
  have hmem := (mem_uses_iff symbols blocks).mpr (Or.inl ⟨i, hi, huse⟩)
  exact ⟨_, (variableMap_build symbols blocks).mpr ⟨⟨use, hmem, rfl⟩, rfl⟩, rfl, rfl⟩

section Known

variable {address : Address} {place : Variable}
  (hplace : (build symbols blocks).variableMap[address]? = some place)
include hplace

theorem indexed_iff :
    place.indexed = true ↔
      (∃ i ∈ Block.instructionsOf blocks, i.mnemonic ≠ .jsr ∧ ∃ index, i.operand
        = .indexed address index) ∨
        ∃ found ∈ shapes symbols blocks, ∃ variation ∈ found.folded, variation.values.head?
          = some (.absolute address) := by
  obtain ⟨-, rfl⟩ := (variableMap_build symbols blocks).mp hplace
  refine (any_uses_iff symbols blocks).trans (or_congr ?_ ?_)
  · simp only [Instruction.use?_indexed_iff]
  · simp only [Variation.use?_eq_some]
    constructor
    · rintro ⟨found, hfound, variation, hvariation, use, ⟨hvalue, -⟩, rfl, -⟩
      exact ⟨found, hfound, variation, hvariation, hvalue⟩
    · rintro ⟨found, hfound, variation, hvariation, hvalue⟩
      exact ⟨found, hfound, variation, hvariation, { address, indexed := true }, ⟨hvalue, rfl, rfl⟩,
        rfl, rfl⟩

theorem pointer_iff :
    place.pointer = true ↔ ∃ i ∈ Block.instructionsOf blocks, i.mnemonic ≠ .jsr ∧ ∃ pointer index,
      i.operand = .indirectIndexed pointer index ∧ pointer.toUInt16 = address := by
  obtain ⟨-, rfl⟩ := (variableMap_build symbols blocks).mp hplace
  refine (any_uses_iff symbols blocks).trans ?_
  simp only [Instruction.use?_pointer_iff]
  refine or_iff_left ?_
  -- A folded operand is an array, never a pointer.
  rintro ⟨found, -, variation, -, use, huse, -, hpointer⟩
  rw [(Variation.use?_eq_some.mp huse).2.2] at hpointer
  cases hpointer

/-- Nothing is declared that no instruction names. -/
theorem exists_instruction_of_variable :
    ∃ i ∈ Block.instructionsOf blocks, i.mnemonic ≠ .jsr ∧ i.operand.address? = some address := by
  obtain ⟨⟨use, huse, rfl⟩, -⟩ := (variableMap_build symbols blocks).mp hplace
  rcases (mem_uses_iff symbols blocks).mp huse with
    ⟨i, hi, huse⟩ | ⟨found, hfound, variation, hvariation, huse⟩
  · exact ⟨i, hi, Instruction.of_use? huse⟩
  · obtain ⟨i, hi, hflow, hvalue⟩ := exists_instruction_of_folded hfound hvariation
    have hoperand := Option.some.inj (hvalue.symm.trans (Variation.use?_eq_some.mp huse).1)
    refine ⟨i, hi, Instruction.ne_jsr_of_data hflow, ?_⟩
    rw [hoperand]
    rfl

end Known

/-! ### Calls -/

theorem romCalls_build (symbols : SymbolTable) (blocks : List Block) (target : Address)
    (name : String) :
    (build symbols blocks).romCalls[target]? = some name ↔
      (∃ i ∈ Block.instructionsOf blocks, i.callTarget? = some target) ∧
      symbols.kind? target = some .kernalCall ∧
        name = symbols.codeName target := by
  rw [← List.mem_filterMap, ← calls_shapes symbols]
  exact (covers_routines symbols blocks).romCalls target name

/-- A subroutine that is called has a body or is looked for outside. -/
theorem function_or_external_of_subCall {node : Node}
    (hnode : node ∈ (build symbols blocks).root.walk) (hkind : node.kind = .subCall) :
    (∃ function ∈ (build symbols blocks).root.children, function.kind = .function ∧
      function.value = node.value) ∨
      node.value ∈ (build symbols blocks).externalCalls := by
  by_cases hdefined : node.value ∈ (build symbols blocks).root.children.map (·.value)
  · obtain ⟨function, hfunction, hname⟩ := List.mem_map.mp hdefined
    exact Or.inl ⟨function, hfunction,
      ((isTree_build symbols blocks).routines function hfunction).kind, hname⟩
  · refine Or.inr ?_
    rw [externalCalls, Std.ExtTreeSet.mem_ofList, List.contains_iff_mem, List.mem_map]
    refine ⟨node, List.mem_filter.mpr ⟨hnode, ?_⟩, rfl⟩
    simpa [hkind] using hdefined

/-- Everything that the program for a listing uses is declared. What an instruction uses is a
variable under the name that statements call it by, with an index if the instruction has one and as
a pointer if it goes through one; and a variable is named by some instruction, and is an array or a
pointer only for an instruction or a folded operand that makes it one. The routines of the ROM are
those that are called. A call goes to one of them, to a routine of the program, or outside. -/
theorem everything_used_is_declared (symbols : SymbolTable) (text : String) :
    let instructions := (Listing.read text).instructions
    let program := ofListing symbols text
    (∀ i ∈ instructions, i.mnemonic.isControlFlow = false →
      ∀ address, i.operand.address? = some address →
      ∃ place, program.variableMap[address]? = some place ∧ place.name = symbols.dataName address ∧
        place.kind = symbols.kind? address ∧
        ((∃ index, i.operand = .indexed address index) → place.indexed = true) ∧
        ((∃ pointer index, i.operand = .indirectIndexed pointer index) → place.pointer = true)) ∧
    (∀ address place, program.variableMap[address]? = some place →
      (∃ i ∈ instructions, i.mnemonic ≠ .jsr ∧ i.operand.address? = some address) ∧
      (place.indexed = true ↔
        (∃ i ∈ instructions, i.mnemonic ≠ .jsr ∧ ∃ index, i.operand = .indexed address index) ∨
        ∃ found ∈ shapes symbols (Block.partition instructions), ∃ variation ∈ found.folded,
          variation.values.head? = some (.absolute address)) ∧
      (place.pointer = true ↔ ∃ i ∈ instructions, i.mnemonic ≠ .jsr ∧ ∃ pointer index,
        i.operand = .indirectIndexed pointer index ∧ pointer.toUInt16 = address)) ∧
    (∀ target name, program.romCalls[target]? = some name ↔
      (∃ i ∈ instructions, i.callTarget? = some target) ∧ symbols.kind? target = some .kernalCall ∧
        name = symbols.codeName target) ∧
    (∀ node ∈ program.root.walk, node.kind = .romCall →
      ∃ target : Address, program.romCalls[target]? = some node.value ∧
      node.params = [Text.decimal target.toNat]) ∧
    ∀ node ∈ program.root.walk, node.kind = .subCall →
      (∃ function ∈ program.root.children, function.kind = .function ∧
        function.value = node.value) ∨
        node.value ∈ program.externalCalls := by
  intro instructions program
  have hinstructions : Block.instructionsOf (Block.partition instructions) = instructions :=
    Block.instructionsOf_partition instructions
  have hrom := romCalls_build symbols (Block.partition instructions)
  rw [hinstructions] at hrom
  refine ⟨fun i hi hflow address haddress => ?_, fun address place hplace => ?_, hrom,
    fun node hnode hkind => ?_, fun node hnode hkind => function_or_external_of_subCall hnode hkind⟩
  · have hcall := Instruction.ne_jsr_of_data hflow
    rw [← hinstructions] at hi
    obtain ⟨place, hplace, hname, hkind⟩ := exists_variable symbols hi hflow haddress
    refine ⟨place, hplace, hname, hkind, fun hindex => ?_, ?_⟩
    · exact (indexed_iff hplace).mpr (Or.inl ⟨i, hi, hcall, hindex⟩)
    · rintro ⟨pointer, index, hoperand⟩
      rw [hoperand] at haddress
      exact (pointer_iff hplace).mpr ⟨i, hi, hcall, pointer, index, hoperand,
        Option.some.inj haddress⟩
  · have hnamed := exists_instruction_of_variable hplace
    have hindexed := indexed_iff hplace
    have hpointer := pointer_iff hplace
    rw [hinstructions] at hnamed hindexed hpointer
    exact ⟨hnamed, hindexed, hpointer⟩
  · have hascending := Listing.ascending_read text
    obtain ⟨i, hi, target, hcall, hrouting, hvalue, hparams⟩ :=
      (romCall_mem_walk_iff symbols hascending).mp ⟨node, hnode, hkind, rfl, rfl⟩
    exact ⟨target, (hrom target node.value).mpr ⟨⟨i, hi, hcall⟩, hrouting, hvalue⟩, hparams⟩

end Program

end Lift6502
