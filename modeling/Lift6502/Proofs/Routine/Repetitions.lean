import Lift6502.Proofs.Flow.Cuts
import Lift6502.Proofs.Routine.Transfers
import Lift6502.Proofs.Shape.Adjacency
import Lift6502.Proofs.Shape.Variations
import Lift6502.Proofs.Text.Decimals

/-!
# Repeated code can be written out again

Repeated blocks are written once, with the counter of a loop or with parameters in the operands that
vary. Nothing is lost: each block has the mnemonics and the addressing modes of the first one, an
operand that does not vary is the same in all blocks, and one that varies is known by its number.
That number is the one of the first block and so many times the stride, or the argument of a call.
So the run can be written out again from its first block and the strides, or from its first block
and the arguments.
-/

namespace Lift6502

/-! ### Operands and their numbers -/

namespace Operand

/-- An operand of the same mode with another number. -/
def withNumber (operand : Operand) (number : Int) : Operand :=
  match operand with
  | immediate _ => immediate (UInt8.ofNat number.toNat)
  | absolute _ => absolute (UInt16.ofNat number.toNat)
  | indexed _ index => indexed (UInt16.ofNat number.toNat) index
  | _ => operand

/-- Mode and number are all there is to an operand with a number. -/
theorem eq_withNumber {operand other : Operand} {number : Int} (hmode : other.mode = operand.mode)
    (hnumber : other.number? = some number) : other = operand.withNumber number := by
  cases other <;> cases hnumber <;> cases operand <;> cases hmode <;> simp [withNumber]

/-- Whether the operands of a mode have numbers. -/
def Mode.isNumbered : Mode → Bool
  | immediate | absolute | indexed _ => true
  | _ => false

theorem isSome_number? (operand : Operand) : operand.number?.isSome = operand.mode.isNumbered := by
  cases operand <;> rfl

theorem number?_bounds {operand : Operand} {number : Int} (h : operand.number? = some number) :
    0 ≤ number ∧ number < 65536 := by
  have hword (word : UInt16) : 0 ≤ (word.toNat : Int) ∧ (word.toNat : Int) < 65536 := by
    have hlt := word.toNat_lt
    omega
  have hbyte (byte : UInt8) : 0 ≤ (byte.toNat : Int) ∧ (byte.toNat : Int) < 65536 := by
    have hlt := byte.toNat_lt
    omega
  cases operand <;> cases h
  · exact hbyte _
  · exact hword _
  · exact hword _

end Operand

namespace Routine

/-- The arguments of the call that stands for a block. -/
def argumentTexts (varying : List Variation) (k : Nat) : List String :=
  varying.map fun variation => (variation.values[k]?.map argumentText).getD ""

theorem getElem?_argumentTexts {varying : List Variation} {slot k : Nat} {variation : Variation}
    (hslot : varying[slot]? = some variation) {value : Operand}
    (hvalue : variation.values[k]? = some value) {number : Int}
    (hnumber : value.number? = some number) :
    (argumentTexts varying k)[slot]? = some (Text.decimalInt number) := by
  have hargument : argumentText value = Text.decimalInt number := by
    cases value <;> cases hnumber <;> rfl
  rw [argumentTexts, List.getElem?_map, hslot, Option.map_some, hvalue, Option.map_some,
    Option.getD_some, hargument]

end Routine

namespace Variation

theorem isNumbered_of_isParameter {variation : Variation} (h : variation.isParameter = true)
    {first : Operand} (hfirst : variation.values.head? = some first) :
    first.mode.isNumbered = true := by
  rw [isParameter, hfirst] at h
  cases first <;> first | rfl | cases h

theorem isParameter_of_isFoldable {variation : Variation} (h : variation.isFoldable = true) :
    variation.isParameter = true := by
  unfold isFoldable at h
  unfold isParameter
  cases hfirst : variation.values.head? with
  | none => simp [hfirst] at h
  | some first => cases first <;> simp_all

/-- Numbers with a common difference are a progression. -/
theorem progression {first stride : Int} {rest : List Int}
    (h : ∀ pair ∈ (first :: rest).zip rest, pair.2 - pair.1 = stride) {k : Nat} {number : Int}
    (hnumber : (first :: rest)[k]? = some number) : number = first + k * stride := by
  induction rest generalizing first k with
  | nil =>
    cases k with
    | zero => simpa [eq_comm] using hnumber
    | succ k => simp at hnumber
  | cons second rest ih =>
    rw [List.zip_cons_cons, List.forall_mem_cons] at h
    obtain ⟨hfirst, hrest⟩ := h
    cases k with
    | zero => simpa [eq_comm] using hnumber
    | succ k =>
      have hsecond : second = first + stride := by omega
      rw [ih hrest hnumber, hsecond, Int.natCast_succ, Int.add_mul, Int.one_mul]
      generalize (k : Int) * stride = distance
      omega

theorem progression_of_strideOf? {first stride : Int} {rest : List Int}
    (h : strideOf? (first :: rest) = some stride) {k : Nat} {number : Int}
    (hnumber : (first :: rest)[k]? = some number) : number = first + k * stride := by
  cases rest with
  | nil => cases h
  | cons second rest =>
    simp only [strideOf?, Bool.and_eq_true, List.all_eq_true, beq_iff_eq,
      Option.ite_none_right_eq_some, Option.some.injEq] at h
    obtain ⟨⟨-, hrest⟩, rfl⟩ := h
    refine progression ?_ hnumber
    rw [List.zip_cons_cons, List.forall_mem_cons]
    exact ⟨rfl, hrest⟩

end Variation

/-! ### Blocks of one shape -/

namespace Block

/-- The operand at a position of a block. -/
def operandAt? (block : Block) (position : Nat) : Option Operand :=
  (block.instructions[position]?).map (·.operand)

/-- Whether a block has the mnemonics and the addressing modes of another one. -/
def AlikeTo (first block : Block) : Prop :=
  block.instructions.map (fun i => (i.mnemonic, i.operand.mode)) = first.instructions.map fun i =>
    (i.mnemonic, i.operand.mode)

theorem alikeTo_of_sameShape {first block : Block} (h : block.sameShape first = true) :
    first.AlikeTo block := by
  simp only [sameShape, Bool.and_eq_true, beq_iff_eq, List.all_eq_true] at h
  obtain ⟨hlength, hforms⟩ := h
  unfold AlikeTo
  generalize block.instructions = left at hlength hforms
  generalize first.instructions = right at hlength hforms
  induction left generalizing right with
  | nil => rw [List.length_eq_zero_iff.mp hlength.symm]
  | cons i left ih =>
    cases right with
    | nil => cases hlength
    | cons other right =>
      rw [List.zip_cons_cons, List.forall_mem_cons] at hforms
      obtain ⟨hform, hrest⟩ := hforms
      simp only [sameForm, Bool.and_eq_true, beq_iff_eq] at hform
      rw [List.map_cons, List.map_cons, ih right (Nat.succ.inj hlength) hrest, hform.1, hform.2]

theorem AlikeTo.mnemonics {first block : Block} (h : first.AlikeTo block) :
    block.instructions.map (·.mnemonic) = first.instructions.map (·.mnemonic) := by
  have hmap := congrArg (List.map Prod.fst) h
  rwa [List.map_map, List.map_map] at hmap

theorem AlikeTo.modes {first block : Block} (h : first.AlikeTo block) (position : Nat) :
    (block.operandAt? position).map Operand.mode
      = (first.operandAt? position).map Operand.mode := by
  have hat := congrArg (fun forms => (forms[position]?).map Prod.snd) h
  simp only [List.getElem?_map, Option.map_map] at hat
  rw [operandAt?, operandAt?, Option.map_map, Option.map_map]
  exact hat

/-- The repeated blocks at the front are all like the first one. -/
theorem alikeTo_of_take_shapeLength {blocks rest : List Block} {first : Block}
    (h : blocks.take (shapeLength blocks) = first :: rest) :
    ∀ block ∈ first :: rest, first.AlikeTo block := by
  cases blocks with
  | nil => cases h
  | cons head tail =>
    rw [shapeLength] at h
    split at h
    · cases h
    · rw [List.take_succ_cons, List.cons.injEq] at h
      obtain ⟨rfl, rfl⟩ := h
      rw [List.forall_mem_cons]
      exact ⟨rfl, fun block hblock =>
        alikeTo_of_sameShape (sameShape_of_mem_shapeTail block hblock)⟩

/-! ### Operands that vary -/

section Varying

variable {first : Block} {rest : List Block} {varying : List Variation}
  (h : variations? (first :: rest) = some varying)
include h

theorem values_of_mem_variations {variation : Variation} (hvariation : variation ∈ varying) :
    (first :: rest).map (·.operandAt? variation.position) = variation.values.map some ∧
      variation.stride = (variation.values.mapM Operand.number?).bind Variation.strideOf? := by
  obtain ⟨pair, -, hat⟩ := exists_of_mem_variations h hvariation
  obtain ⟨values, hvalues, ⟨hnone, -⟩ | ⟨-, hfound⟩⟩ := variationAt?_eq_some hat
  · cases hnone
  · obtain rfl := Option.some.inj hfound
    exact ⟨hvalues, rfl⟩

/-- The operand that varies has its value of a block in that block. -/
theorem operandAt?_of_mem_variations {variation : Variation} (hvariation : variation ∈ varying)
    {k : Nat} {block : Block} (hblock : (first :: rest)[k]? = some block) :
    ∃ value, variation.values[k]? = some value ∧
      block.operandAt? variation.position = some value := by
  have hat := congrArg (·[k]?) (values_of_mem_variations h hvariation).1
  rw [List.getElem?_map, List.getElem?_map, hblock, Option.map_some] at hat
  obtain ⟨value, hvalue, hsame⟩ := Option.map_eq_some_iff.mp hat.symm
  exact ⟨value, hvalue, hsame.symm⟩

/-- An operand that does not vary is the same in all blocks. -/
theorem operandAt?_of_not_varying (halike : ∀ block ∈ first :: rest, first.AlikeTo block)
    {position : Nat} (hposition : ∀ variation ∈ varying, variation.position ≠ position)
    {block : Block} (hblock : block ∈ first :: rest) :
    block.operandAt? position = first.operandAt? position := by
  cases hfirst : first.instructions[position]? with
  | none =>
    have hmode := (halike block hblock).modes position
    rw [operandAt?, operandAt?, hfirst, Option.map_none, Option.map_none, Option.map_eq_none_iff]
      at hmode
    rw [operandAt?, operandAt?, hfirst, hmode, Option.map_none]
  | some i =>
    have hpair : (i, position) ∈ first.instructions.zipIdx :=
      List.mk_mem_zipIdx_iff_getElem?.mpr hfirst
    obtain ⟨found, hat⟩ := (variations?_eq_some h).1 (i, position) hpair
    obtain ⟨values, hvalues, ⟨-, hsame⟩ | ⟨-, rfl⟩⟩ := variationAt?_eq_some hat
    · have hvalue : block.operandAt? position ∈ values.map some :=
        hvalues ▸ List.mem_map_of_mem hblock
      obtain ⟨value, hvalue, hoperand⟩ := List.mem_map.mp hvalue
      rw [← hoperand, hsame value hvalue, operandAt?, hfirst, Option.map_some]
    · exact absurd rfl (hposition _ (mem_variations h hpair hat))

end Varying

end Block

/-! ### Runs of blocks -/

/-- A match is a run of blocks that are like the first one, with the operands that vary. -/
structure Match.Repeats (found : Match) (first : Block) (rest : List Block)
    (varying : List Variation) : Prop where
  blocks : found.blocks = first :: rest
  several : 2 ≤ found.blocks.length
  alike : ∀ block ∈ found.blocks, first.AlikeTo block
  variations : Block.variations? (first :: rest) = some varying
  parameters : ∀ variation ∈ varying, variation.isParameter = true
  shape : found.shape = .unrolled ∧ (∀ variation ∈ varying, variation.stride.isSome = true) ∨
    found.shape = .template

theorem Shape.repeats_of_detectRepetition {symbols : SymbolTable} {blocks : List Block}
    {found : Match} (h : detectRepetition symbols blocks = some found) :
    ∃ first rest varying, found.Repeats first rest varying := by
  obtain ⟨hlength, varying, shape, hvarying, hfolds, rfl⟩ := exists_of_detectRepetition h
  have hseveral : 2 ≤ (blocks.take (Block.shapeLength blocks)).length := by
    rwa [List.length_take_of_le (Positional.shapeLength_le_length blocks)]
  obtain ⟨first, rest, hrest⟩ :=
    List.exists_cons_of_length_pos (Nat.lt_of_lt_of_le Nat.zero_lt_two hseveral)
  have halike : ∀ block ∈ blocks.take (Block.shapeLength blocks), first.AlikeTo block := by
    rw [hrest]
    exact Block.alikeTo_of_take_shapeLength hrest
  refine ⟨first, rest, varying, hrest, hseveral, halike, hrest ▸ hvarying, ?_, ?_⟩
  · cases hfolds with
    | unrolled _ hfoldable =>
      exact fun variation hmem => Variation.isParameter_of_isFoldable (hfoldable variation hmem)
    | template hparameter => exact hparameter
  · cases hfolds with
    | unrolled _ hfoldable =>
      exact Or.inl
        ⟨rfl, fun variation hmem => (Bool.and_eq_true_iff.mp (hfoldable variation hmem)).1⟩
    | template => exact Or.inr rfl

namespace Match.Repeats

variable {found : Match} {first : Block} {rest : List Block} {varying : List Variation}
  (h : found.Repeats first rest varying)
include h

/-- Each block has its own number where an operand varies. -/
theorem exists_number {variation : Variation} (hvariation : variation ∈ varying) {k : Nat}
    {block : Block} (hblock : found.blocks[k]? = some block) :
    ∃ operand base value number, first.operandAt? variation.position = some operand ∧
      operand.number? = some base ∧
      block.operandAt? variation.position = some value ∧ variation.values[k]? = some value ∧
      value.mode = operand.mode ∧
      value.number? = some number := by
  have hat := hblock
  rw [h.blocks] at hat
  obtain ⟨operand, hhead, hoperand⟩ :=
    Block.operandAt?_of_mem_variations h.variations hvariation List.getElem?_cons_zero
  obtain ⟨value, hvalues, hvalue⟩ := Block.operandAt?_of_mem_variations h.variations hvariation hat
  have hmode := (h.alike block (List.mem_of_getElem? hblock)).modes variation.position
  rw [hoperand, hvalue, Option.map_some, Option.map_some, Option.some.injEq] at hmode
  have hnumbered := Variation.isNumbered_of_isParameter (h.parameters variation hvariation)
    (List.head?_eq_getElem?.trans hhead)
  obtain ⟨base, hbase⟩ := Option.isSome_iff_exists.mp (operand.isSome_number?.trans hnumbered)
  rw [← hmode] at hnumbered
  obtain ⟨number, hnumber⟩ := Option.isSome_iff_exists.mp (value.isSome_number?.trans hnumbered)
  exact ⟨operand, base, value, number, hoperand, hbase, hvalue, hvalues, hmode, hnumber⟩

/-- Where an operand has a stride, its numbers are a progression. -/
theorem number_of_stride {variation : Variation} (hvariation : variation ∈ varying) {stride : Int}
    (hstride : variation.stride = some stride) {operand : Operand} {number : Int}
    (hoperand : first.operandAt? variation.position = some operand)
    (hnumber : operand.number? = some number) {k : Nat} {value : Operand}
    (hvalue : variation.values[k]? = some value) : value.number? = some (number + k * stride) := by
  rw [(Block.values_of_mem_variations h.variations hvariation).2, Option.bind_eq_some_iff]
    at hstride
  obtain ⟨numbers, hnumbers, hstride⟩ := hstride
  -- The numbers stand where the operands stand.
  have hat {k : Nat} {value : Operand} (hvalue : variation.values[k]? = some value) :
      ∃ number, numbers[k]? = some number ∧ value.number? = some number := by
    have hmap := congrArg (·[k]?) (Positional.map_eq_of_mapM hnumbers)
    rw [List.getElem?_map, List.getElem?_map, hvalue, Option.map_some] at hmap
    obtain ⟨number, hnumber, hsame⟩ := Option.map_eq_some_iff.mp hmap.symm
    exact ⟨number, hnumber, hsame.symm⟩
  obtain ⟨same, hhead, hsame⟩ :=
    Block.operandAt?_of_mem_variations h.variations hvariation List.getElem?_cons_zero
  obtain rfl := Option.some.inj (hoperand.symm.trans hsame)
  obtain ⟨least, hleast, heq⟩ := hat hhead
  obtain rfl := Option.some.inj (hnumber.symm.trans heq)
  obtain ⟨own, hown, hvalue⟩ := hat hvalue
  obtain ⟨tail, rfl⟩ := List.head?_eq_some_iff.mp (List.head?_eq_getElem?.trans hleast)
  rw [hvalue, Variation.progression_of_strideOf? hstride hown]

end Match.Repeats

/-! ### Writing the run out again -/

namespace Block

/-- The operations of a block with other numbers at some positions. -/
def withNumbers (block : Block) (number? : Nat → Option Int) : List Operation :=
  block.instructions.mapIdx fun position i =>
    { mnemonic := i.mnemonic,
      operand := ((number? position).map i.operand.withNumber).getD i.operand }

/-- The operations of a block of a run, from its first block and the strides at some positions. -/
def unrolledAt (first : Block) (strides : List (Nat × Option Int)) (k : Nat) : List Operation :=
  first.withNumbers fun position => do
    let entry ← strides.find? (·.1 == position)
    let stride ← entry.2
    let number ← (first.operandAt? position).bind Operand.number?
    return number + k * stride

/-- The operations of a block of a run, from its first block and the arguments for some
positions. -/
def instantiated (first : Block) (positions : List Nat) (arguments : List String) :
    List Operation :=
  first.withNumbers fun position => do
    let slot ← positions.findIdx? (· == position)
    let argument ← arguments[slot]?
    Text.readInt? argument

theorem AlikeTo.map_toOperation {first block : Block} (h : first.AlikeTo block)
    {number? : Nat → Option Int}
    (hoperands : ∀ position operand value, first.operandAt? position = some operand →
      block.operandAt? position = some value →
      value = ((number? position).map operand.withNumber).getD operand) :
    block.instructions.map (·.toOperation) = first.withNumbers number? := by
  apply List.ext_getElem?
  intro position
  have hforms := congrArg (·[position]?) h
  simp only [List.getElem?_map] at hforms
  rw [withNumbers, List.getElem?_map, List.getElem?_mapIdx]
  cases hfirst : first.instructions[position]? with
  | none =>
    rw [hfirst, Option.map_none, Option.map_eq_none_iff] at hforms
    rw [hforms]
    rfl
  | some i =>
    rw [hfirst] at hforms
    obtain ⟨other, hother, hform⟩ := Option.map_eq_some_iff.mp hforms
    have hoperand :=
      hoperands position i.operand other.operand (by rw [operandAt?, hfirst, Option.map_some])
      (by rw [operandAt?, hother, Option.map_some])
    rw [hother, Option.map_some, Option.map_some, ← hoperand, ← (Prod.mk.inj hform).1]

end Block

namespace Match.Repeats

variable {found : Match} {first : Block} {rest : List Block} {varying : List Variation}
  (h : found.Repeats first rest varying)
  {k : Nat} {block : Block} (hblock : found.blocks[k]? = some block)
include h hblock

/-- Where nothing varies a block says what the first one says. -/
theorem operand_eq {position : Nat}
    (hposition : ∀ variation ∈ varying, variation.position ≠ position) {operand value : Operand}
    (hoperand : first.operandAt? position = some operand)
    (hvalue : block.operandAt? position = some value) : value = operand := by
  have hmem := List.mem_of_getElem? hblock
  have hsame := Block.operandAt?_of_not_varying h.variations (h.blocks ▸ h.alike) hposition
    (h.blocks ▸ hmem)
  exact Option.some.inj (hvalue.symm.trans (hsame.trans hoperand))

theorem map_toOperation_of_strides
    (hstrides : ∀ variation ∈ varying, variation.stride.isSome = true) :
    block.instructions.map (·.toOperation)
      = first.unrolledAt (varying.map fun variation =>
        (variation.position, variation.stride)) k := by
  refine (h.alike block (List.mem_of_getElem? hblock)).map_toOperation
    fun position operand value hoperand hvalue => ?_
  rw [List.find?_map]
  cases hfind : varying.find? ((·.1 == position) ∘ fun variation =>
    (variation.position, variation.stride)) with
  | none =>
    refine h.operand_eq hblock (fun variation hvariation => ?_) hoperand hvalue
    simpa using List.find?_eq_none.mp hfind variation hvariation
  | some variation =>
    have hvariation := List.mem_of_find?_eq_some hfind
    obtain rfl : variation.position = position := by simpa using List.find?_some hfind
    obtain ⟨stride, hstride⟩ := Option.isSome_iff_exists.mp (hstrides variation hvariation)
    obtain ⟨operand', base, value', -, hoperand', hbase, hvalue', hvalues, hmode, -⟩ :=
      h.exists_number hvariation hblock
    obtain rfl := Option.some.inj (hoperand.symm.trans hoperand')
    obtain rfl := Option.some.inj (hvalue.symm.trans hvalue')
    have hnumber := h.number_of_stride hvariation hstride hoperand hbase hvalues
    simpa [hstride, hoperand, hbase] using Operand.eq_withNumber hmode hnumber

theorem map_toOperation_of_arguments :
    block.instructions.map (·.toOperation)
      = first.instantiated (varying.map (·.position)) (Routine.argumentTexts varying k) := by
  refine (h.alike block (List.mem_of_getElem? hblock)).map_toOperation
    fun position operand value hoperand hvalue => ?_
  rw [List.findIdx?_map]
  cases hfind : varying.findIdx? ((· == position) ∘ Variation.position) with
  | none =>
    refine h.operand_eq hblock (fun variation hvariation => ?_) hoperand hvalue
    simpa using List.findIdx?_eq_none_iff.mp hfind variation hvariation
  | some slot =>
    obtain ⟨hlt, hposition, -⟩ := List.findIdx?_eq_some_iff_getElem.mp hfind
    have hslot := List.getElem?_eq_getElem hlt
    obtain rfl : varying[slot].position = position := by simpa using hposition
    obtain ⟨operand', -, value', number, hoperand', -, hvalue', hvalues, hmode, hnumber⟩ :=
      h.exists_number (List.getElem_mem hlt) hblock
    obtain rfl := Option.some.inj (hoperand.symm.trans hoperand')
    obtain rfl := Option.some.inj (hvalue.symm.trans hvalue')
    obtain ⟨hlow, hhigh⟩ := Operand.number?_bounds hnumber
    have hread := Text.readInt?_decimalInt number (by omega) (by omega)
    simpa [Routine.getElem?_argumentTexts hslot hvalues hnumber, hread]
      using Operand.eq_withNumber hmode hnumber

end Match.Repeats

/-! ### Calls -/

/-- What ends a block is not written as a call. -/
theorem Statement.kind_ne_subCall (symbols : SymbolTable) {i : Instruction}
    (hends : i.endsBlock = true) : (ofInstruction symbols i).kind ≠ .subCall := by
  intro hkind
  have hnode :
      ((rule? symbols i.toOperation).getD { kind := .raw, value := i.toOperation.text }).kind
        = .subCall := hkind
  cases hrule : rule? symbols i.toOperation with
  | none =>
    rw [hrule] at hnode
    cases hnode
  | some node =>
    rw [hrule, Option.getD_some] at hnode
    rcases rule?_cases hrule with (hother | hother | hother) | ⟨hmnemonic, -⟩ | ⟨hoperand, himplied⟩
    · rw [hother] at hnode
      cases hnode
    · rw [hother] at hnode
      cases hnode
    · rw [hother] at hnode
      cases hnode
    · rw [Operation.endsBlock, hmnemonic] at hends
      cases hends
    · rcases implied?_cases himplied with hother | hreturn
      · rw [hother] at hnode
        cases hnode
      · have hleaves : i.leaves = true := by simp [Instruction.leaves, hreturn, hoperand]
        rw [ofInstruction_of_leaves hleaves] at hkind
        cases hkind

namespace Routine

/-- The calls among some nodes. -/
def callsIn (nodes : List Node) : List Node := nodes.filter (·.kind == .subCall)

theorem callsIn_templateCall (symbols : SymbolTable) (name : String) (varying : List Variation)
    (block : Block) (k : Nat) :
    callsIn (templateCall symbols name varying block k)
      = [{ kind := .subCall, value := name, params := argumentTexts varying k,
           address := some block.start }] := by
  have hrest : ∀ node ∈ (block.terminator?.map (Statement.ofInstruction symbols)).toList,
      ¬ (node.kind == .subCall) = true := by
    intro node hnode
    obtain ⟨i, hi, rfl⟩ := Option.map_eq_some_iff.mp (Option.mem_toList.mp hnode)
    have hends := (Block.terminator?_eq_some.mp hi).1
    rw [(Block.terminator?_eq_some.mp hi).2] at hends
    simpa using Statement.kind_ne_subCall symbols hends
  rw [callsIn, templateCall, List.filter_cons_of_pos (by rfl), List.filter_eq_nil_iff.mpr hrest,
    argumentTexts]

theorem callsIn_template (symbols : SymbolTable) (usage : Usage) {found : Match} {first : Block}
    {rest : List Block} {varying : List Variation} (h : found.Repeats first rest varying)
    (hshape : found.shape = .template) :
    callsIn (structured symbols usage found).2
      = found.blocks.zipIdx.map fun entry =>
          { kind := .subCall, value := templateName first.start,
            params := argumentTexts varying entry.2,
            address := some entry.1.start } := by
  have hnodes : (structured symbols usage found).2 = found.blocks.zipIdx.flatMap fun entry =>
      templateCall symbols (templateName first.start) varying entry.1 entry.2 := by
    rw [structured, hshape, template, h.blocks, h.variations]
    rfl
  have hcalls (entry : Block × Nat) :=
    callsIn_templateCall symbols (templateName first.start) varying entry.1 entry.2
  simp only [callsIn] at hcalls
  rw [hnodes, callsIn, List.filter_flatMap]
  simp only [hcalls]
  exact List.flatMap_pure_eq_map _ _

end Routine

/-! ### Addresses -/

/-- Operations one behind the other in memory, from an address on. -/
def Instruction.layOut : Address → List Operation → List Instruction
  | _, [] => []
  | address, operation :: operations =>
    { toOperation := operation, address } :: layOut (address + operation.size) operations

theorem Instruction.eq_layOut {instructions : List Instruction} {start : Address}
    (hchain : instructions.IsChain fun i next => next.address = i.nextAddress)
    (hstart : ∀ i ∈ instructions.head?, i.address = start) :
    instructions = layOut start (instructions.map (·.toOperation)) := by
  induction instructions generalizing start with
  | nil => rfl
  | cons i rest ih =>
    obtain rfl := hstart i rfl
    obtain ⟨hnext, hrest⟩ := List.isChain_cons.mp hchain
    rw [List.map_cons, layOut]
    exact congrArg (List.cons i) (ih hrest hnext)

theorem Block.head?_instructionsOf (first : Block) (rest : List Block) :
    (instructionsOf (first :: rest)).head? = some first.first := by
  rw [instructionsOf, List.flatMap_cons, List.head?_append_of_ne_nil _ first.nonempty]
  exact List.head?_eq_some_head first.nonempty

theorem Block.isChain_instructionsOf {blocks : List Block}
    (hinner : ∀ block ∈ blocks, block.instructions.IsChain fun i next =>
      next.address = i.nextAddress) (hjoined : Joined blocks) :
    (instructionsOf blocks).IsChain fun i next => next.address = i.nextAddress := by
  induction blocks with
  | nil => exact List.IsChain.nil
  | cons block rest ih =>
    obtain ⟨hblock, hothers⟩ := List.forall_mem_cons.mp hinner
    obtain ⟨hnext, hrest⟩ := List.isChain_cons.mp hjoined
    rw [instructionsOf, List.flatMap_cons, List.isChain_append]
    refine ⟨hblock, ih hothers hrest, ?_⟩
    intro i hi next hhead
    cases rest with
    | nil => cases hhead
    | cons following more =>
      have hlast : block.last = i :=
        Option.some.inj ((List.getLast?_eq_some_getLast block.nonempty).symm.trans hi)
      have hfirst : following.first = next :=
        Option.some.inj ((head?_instructionsOf following more).symm.trans hhead)
      rw [← hlast, ← hfirst]
      exact (hnext following rfl).symm

/-! ### Whole runs -/

theorem Block.map_toOperation_instructionsOf {blocks : List Block}
    {operations : Nat → List Operation} (h : ∀ (k : Nat) block, blocks[k]? = some block →
      block.instructions.map (·.toOperation) = operations k) :
    (instructionsOf blocks).map (·.toOperation)
      = (List.range blocks.length).flatMap operations := by
  have hmap : blocks.map (fun block => block.instructions.map (·.toOperation))
      = (List.range blocks.length).map operations := by
    apply List.ext_getElem?
    intro k
    rw [List.getElem?_map, List.getElem?_map]
    cases hblock : blocks[k]? with
    | none =>
      rw [List.getElem?_eq_none (by simpa using hblock)]
      rfl
    | some block =>
      obtain ⟨hlt, -⟩ := List.getElem?_eq_some_iff.mp hblock
      rw [List.getElem?_range hlt, Option.map_some, Option.map_some, h k block hblock]
  rw [instructionsOf, List.map_flatMap, List.flatMap_def, hmap, ← List.flatMap_def]

namespace Match

/-- What is known of a run of blocks that is written as a loop. -/
structure Unrolls (found : Match) (first : Block) (varying : List Variation) : Prop where
  /-- Where an operand varies, each block has the mode of the first one, and its number moved by so
  many strides. -/
  moved : ∀ variation ∈ varying, ∃ stride operand number, variation.stride = some stride ∧
    first.operandAt? variation.position = some operand ∧ operand.number? = some number ∧
    ∀ (k : Nat) block, found.blocks[k]? = some block →
    ∃ value, block.operandAt? variation.position = some value ∧
      value.mode = operand.mode ∧ value.number? = some (number + k * stride)
  run : found.instructions.map (·.toOperation) = (List.range found.blocks.length).flatMap
    (first.unrolledAt (varying.map fun variation => (variation.position, variation.stride)))

/-- What is known of a run of blocks that is written as calls. -/
structure Instantiates (found : Match) (first : Block) (varying : List Variation)
    (calls : List Node) : Prop where
  length : calls.length = found.blocks.length
  /-- Where an operand varies, each block has the mode of the first one, and its number is the
  argument of its call. -/
  argument : ∀ (slot : Nat) variation, varying[slot]? = some variation →
    ∀ (k : Nat) block call, found.blocks[k]? = some block →
    calls[k]? = some call →
    ∃ operand value number, first.operandAt? variation.position = some operand ∧
      block.operandAt? variation.position = some value ∧ value.mode = operand.mode ∧
      value.number? = some number ∧
      call.params[slot]? = some (Text.decimalInt number)
  run : found.instructions.map (·.toOperation)
    = calls.flatMap fun call => first.instantiated (varying.map (·.position)) call.params

namespace Repeats

variable {found : Match} {first : Block} {rest : List Block} {varying : List Variation}
  (h : found.Repeats first rest varying)
include h

theorem unrolls (hstrides : ∀ variation ∈ varying, variation.stride.isSome = true) :
    found.Unrolls first varying where
  moved variation hvariation := by
    obtain ⟨stride, hstride⟩ := Option.isSome_iff_exists.mp (hstrides variation hvariation)
    have hfirst : found.blocks[0]? = some first := by rw [h.blocks, List.getElem?_cons_zero]
    obtain ⟨operand, number, -, -, hoperand, hnumber, -⟩ := h.exists_number hvariation hfirst
    refine ⟨stride, operand, number, hstride, hoperand, hnumber, fun k block hblock => ?_⟩
    obtain ⟨operand', -, value, -, hoperand', -, hvalue, hvalues, hmode, -⟩ :=
      h.exists_number hvariation hblock
    obtain rfl := Option.some.inj (hoperand.symm.trans hoperand')
    exact ⟨value, hvalue, hmode, h.number_of_stride hvariation hstride hoperand hnumber hvalues⟩
  run := Block.map_toOperation_instructionsOf fun _ _ hblock =>
    h.map_toOperation_of_strides hblock hstrides

theorem instantiates {calls : List Node}
    (hcalls : calls.map (·.params)
      = (List.range found.blocks.length).map (Routine.argumentTexts varying)) :
    found.Instantiates first varying calls where
  length := by simpa using congrArg List.length hcalls
  argument slot variation hslot k block call hblock hcall := by
    obtain ⟨hlt, -⟩ := List.getElem?_eq_some_iff.mp hblock
    have hparams := congrArg (·[k]?) hcalls
    rw [List.getElem?_map, List.getElem?_map, hcall, List.getElem?_range hlt, Option.map_some,
      Option.map_some, Option.some.injEq] at hparams
    obtain ⟨operand, -, value, number, hoperand, -, hvalue, hvalues, hmode, hnumber⟩ :=
      h.exists_number (List.mem_of_getElem? hslot) hblock
    refine ⟨operand, value, number, hoperand, hvalue, hmode, hnumber, ?_⟩
    rw [hparams]
    exact Routine.getElem?_argumentTexts hslot hvalues hnumber
  run := by
    have hrun := Block.map_toOperation_instructionsOf fun _ _ hblock =>
      h.map_toOperation_of_arguments hblock
    rw [← List.flatMap_map, ← hcalls, List.flatMap_map] at hrun
    exact hrun

end Repeats

end Match

/-- Nothing is lost when repeated blocks are written once. There are two or more of them; each has
the mnemonics of the first one, and where no operand varies also its operand. If they are written as
a loop, an operand that varies has been moved by so many strides; if they are written as calls, it
has the number that its call hands over. So the run can be written out again, from its first block
and the strides or from its first block and the arguments, and in code that was cut into blocks also
the addresses are known. -/
theorem repetitions_are_lossless {symbols : SymbolTable} {blocks : List Block} {found : Match}
    (hfound : Shape.detectRepetition symbols blocks = some found) :
    ∃ first varying, found.blocks.head? = some first ∧ 2 ≤ found.blocks.length ∧
      Block.variations? found.blocks = some varying ∧
      (∀ block ∈ found.blocks, block.instructions.map (·.mnemonic)
        = first.instructions.map (·.mnemonic)) ∧
      (∀ position, (∀ variation ∈ varying, variation.position ≠ position) → ∀ block ∈ found.blocks,
        block.operandAt? position = first.operandAt? position) ∧
      (found.shape = .unrolled ∨ found.shape = .template) ∧
      (found.shape = .unrolled → found.Unrolls first varying) ∧
      (found.shape = .template → ∀ usage,
        found.Instantiates first varying
          (Routine.callsIn (Routine.structured symbols usage found).2)) ∧
      ∀ code, blocks <:+: Block.partition code →
        found.instructions
          = Instruction.layOut first.start (found.instructions.map (·.toOperation)) := by
  obtain ⟨first, rest, varying, h⟩ := Shape.repeats_of_detectRepetition hfound
  refine ⟨first, varying, by rw [h.blocks, List.head?_cons], h.several, h.blocks ▸ h.variations, ?_,
    ?_, ?_, ?_, ?_, ?_⟩
  · exact fun block hblock => (h.alike block hblock).mnemonics
  · intro position hposition block hblock
    exact Block.operandAt?_of_not_varying h.variations (h.blocks ▸ h.alike) hposition
      (h.blocks ▸ hblock)
  · exact h.shape.imp And.left id
  · intro hunrolled
    rcases h.shape with ⟨-, hstrides⟩ | htemplate
    · exact h.unrolls hstrides
    · cases hunrolled.symm.trans htemplate
  · intro htemplate usage
    apply h.instantiates
    rw [Routine.callsIn_template symbols usage h htemplate, List.map_map, List.range_eq_range',
      ← List.zipIdx_map_snd, List.map_map]
    rfl
  · intro code hwithin
    have hclaimed := (Shape.detectRepetition_promises hfound).1.isPrefix.isInfix.trans hwithin
    have hpartition : Block.IsPartition code (Block.partition code) := Block.isPartition_iff.mpr rfl
    apply Instruction.eq_layOut
    · exact Block.isChain_instructionsOf
        (fun block hblock => hpartition.consecutive block (hclaimed.subset hblock))
        (Shape.joined_of_detectRepetition hfound)
    · intro i hi
      rw [Match.instructions, h.blocks, Block.head?_instructionsOf, Option.mem_some_iff] at hi
      rw [← hi]
      rfl

/-- Three blocks that store falling values at rising addresses. -/
def fallingCode : List Instruction :=
  [{ address := 0xC000, mnemonic := .lda, operand := .immediate 5 },
   { address := 0xC002, mnemonic := .sta, operand := .absolute 0x0400 },
   { address := 0xC005, mnemonic := .bne, operand := .absolute 0xC100 },
   { address := 0xC007, mnemonic := .lda, operand := .immediate 3 },
   { address := 0xC009, mnemonic := .sta, operand := .absolute 0x0401 },
   { address := 0xC00C, mnemonic := .bne, operand := .absolute 0xC100 },
   { address := 0xC00E, mnemonic := .lda, operand := .immediate 1 },
   { address := 0xC010, mnemonic := .sta, operand := .absolute 0x0402 },
   { address := 0xC013, mnemonic := .bne, operand := .absolute 0xC100 }]

theorem fallingCode_recognised :
    (Shape.detectRepetition {} (Block.partition fallingCode)).isSome := by
  decide +kernel

theorem fallingCode_written_out :
    ∃ found first, Shape.detectRepetition {} (Block.partition fallingCode) = some found ∧
      found.blocks.head? = some first ∧
      fallingCode = Instruction.layOut 0xC000 ((List.range 3).flatMap
        (first.unrolledAt [(0, some (-2)), (1, some 1)])) := by
  have hfound := (Option.some_get fallingCode_recognised).symm
  obtain ⟨first, varying, hfirst, -, hvarying, -, -, -, hunrolls, -, hlaidOut⟩ :=
    repetitions_are_lossless hfound
  generalize hget : (Shape.detectRepetition {}
    (Block.partition fallingCode)).get fallingCode_recognised = found at *
  have hshape : found.shape = .unrolled := by rw [← hget]; decide +kernel
  have hall : found.instructions = fallingCode := by rw [← hget]; decide +kernel
  have hlength : found.blocks.length = 3 := by rw [← hget]; decide +kernel
  have hstart : found.blocks.head?.map Block.start = some 0xC000 := by rw [← hget]; decide +kernel
  have hstrides : (Block.variations? found.blocks).map
      (·.map fun variation => (variation.position, variation.stride))
      = some [(0, some (-2)), (1, some 1)] := by rw [← hget]; decide +kernel
  rw [hvarying, Option.map_some, Option.some.injEq] at hstrides
  rw [hfirst, Option.map_some, Option.some.injEq] at hstart
  have hrun := hlaidOut fallingCode (List.infix_refl _)
  rw [(hunrolls hshape).run, hall, hlength, hstart, hstrides] at hrun
  exact ⟨found, first, hfound, hfirst, hrun⟩

end Lift6502
