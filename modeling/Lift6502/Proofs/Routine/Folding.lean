import Lift6502.Proofs.Routine.Placeholders
import Lift6502.Proofs.Symbol.Targets

/-!
# What folding keeps of operands

Blocks that repeat each other are written once, as the body of a loop or as a template with a call
for each block. Where their operands vary, the statement of the first block gets the counter or a
parameter in the place of its operand. With the number of a block for the counter, or with the
argument of its call for the parameter, it does what the block does, exactly if the first block's
instruction has a statement and its operand can be told from the other texts of it.
-/

namespace Lift6502

/-! ### Operands that vary -/

theorem Shape.isFoldable_of_detectRepetition {symbols : SymbolTable} {blocks : List Block}
    {found : Match} (h : detectRepetition symbols blocks = some found)
    (hshape : found.shape = .unrolled) {varying : List Variation}
    (hvarying : Block.variations? found.blocks = some varying) :
    ∀ variation ∈ varying, variation.isFoldable = true := by
  obtain ⟨-, all, shape, hall, hfolds, rfl⟩ := exists_of_detectRepetition h
  obtain rfl := Option.some.inj (hall.symm.trans hvarying)
  cases hfolds with
  | unrolled _ hfoldable => exact hfoldable
  | template => cases hshape

theorem Variation.ne_zero_of_strideOf? {numbers : List Int} {stride : Int}
    (h : strideOf? numbers = some stride) : stride ≠ 0 := by
  unfold strideOf? at h
  split at h
  · simp only [Bool.and_eq_true, decide_eq_true_eq, Option.ite_none_right_eq_some,
      Option.some.injEq] at h
    obtain ⟨⟨hne, -⟩, rfl⟩ := h
    exact hne
  · cases h

namespace Block

variable {first : Block} {rest : List Block} {varying : List Variation}
  (h : variations? (first :: rest) = some varying)
include h

theorem pairwise_position : varying.Pairwise fun left right => left.position < right.position := by
  have hpairs : first.instructions.zipIdx.Pairwise fun left right => left.2 < right.2 := by
    rw [← List.pairwise_map (f := Prod.snd), List.zipIdx_map_snd]
    exact List.pairwise_lt_range'
  rw [(variations?_eq_some h).2, List.pairwise_filterMap]
  refine hpairs.imp fun {left right} hlt variation hleft other hright => ?_
  rw [Option.join_eq_some_iff] at hleft hright
  rw [(variationAt?_position hleft).1, (variationAt?_position hright).1]
  exact hlt

theorem findIdx?_position {slot : Nat} {variation : Variation}
    (hslot : varying[slot]? = some variation) :
    varying.findIdx? (·.position == variation.position) = some slot := by
  obtain ⟨hlt, hat⟩ := List.getElem?_eq_some_iff.mp hslot
  refine List.findIdx?_eq_some_iff_getElem.mpr ⟨hlt, by simp [hat], fun earlier hearlier => ?_⟩
  have hbefore := List.pairwise_iff_getElem.mp (pairwise_position h) earlier slot
    (Nat.lt_trans hearlier hlt) hlt hearlier
  rw [hat] at hbefore
  simpa using Nat.ne_of_lt hbefore

theorem find?_position {variation : Variation} (hvariation : variation ∈ varying) :
    varying.find? (·.position == variation.position) = some variation := by
  obtain ⟨pair, hpair, hat⟩ := exists_of_mem_variations h hvariation
  rw [(variationAt?_position hat).1, find?_variations h hpair, hat]
  rfl

end Block

namespace Match.Repeats

variable {found : Match} {first : Block} {rest : List Block} {varying : List Variation}
  (h : found.Repeats first rest varying)
  {variation : Variation} (hvariation : variation ∈ varying)
include h hvariation

theorem exists_first :
    ∃ i, first.instructions[variation.position]? = some i ∧ i.mnemonic.isControlFlow = false ∧
      i.operand.mode.isNumbered = true ∧ variation.values.head? = some i.operand := by
  obtain ⟨⟨i, position⟩, hpair, hat⟩ := Block.exists_of_mem_variations h.variations hvariation
  obtain ⟨hposition, hflow⟩ := Block.variationAt?_position hat
  have hi : first.instructions[variation.position]? = some i := by
    rw [hposition]
    exact List.mk_mem_zipIdx_iff_getElem?.mp hpair
  obtain ⟨operand, hhead, hoperand⟩ :=
    Block.operandAt?_of_mem_variations h.variations hvariation List.getElem?_cons_zero
  rw [Block.operandAt?, hi, Option.map_some, Option.some.injEq] at hoperand
  rw [← List.head?_eq_getElem?, ← hoperand] at hhead
  exact ⟨i, hi, hflow,
    Variation.isNumbered_of_isParameter (h.parameters variation hvariation) hhead, hhead⟩

/-- The instruction of another block has the form of that in the first one. -/
theorem exists_other {i : Instruction} (hi : first.instructions[variation.position]? = some i)
    {k : Nat} {block : Block} (hblock : found.blocks[k]? = some block) {other : Instruction}
    (hother : block.instructions[variation.position]? = some other) :
    other.mnemonic = i.mnemonic ∧ other.operand.mode = i.operand.mode ∧
      variation.values[k]? = some other.operand := by
  have hforms := congrArg (·[variation.position]?) (h.alike block (List.mem_of_getElem? hblock))
  simp only [List.getElem?_map, hi, hother, Option.map_some, Option.some.injEq, Prod.mk.injEq]
    at hforms
  rw [h.blocks] at hblock
  obtain ⟨value, hvalue, hat⟩ := Block.operandAt?_of_mem_variations h.variations hvariation hblock
  rw [Block.operandAt?, hother, Option.map_some, Option.some.injEq] at hat
  exact ⟨hforms.1, hforms.2, hat ▸ hvalue⟩

/-- Numbers of operands are words, so that strides and counts of blocks are no more. -/
theorem inRange {stride : Int} (hstride : variation.stride = some stride) {k : Nat} {block : Block}
    (hblock : found.blocks[k]? = some block) : InRange k stride := by
  have hnonzero : stride ≠ 0 := by
    rw [(Block.values_of_mem_variations h.variations hvariation).2, Option.bind_eq_some_iff]
      at hstride
    obtain ⟨numbers, -, hstride⟩ := hstride
    exact Variation.ne_zero_of_strideOf? hstride
  -- Each block is within a word's range of the first one.
  have hnear {j : Nat} {other : Block} (hother : found.blocks[j]? = some other) :
      -65536 < j * stride ∧ j * stride < 65536 := by
    obtain ⟨operand, base, value, number, hoperand, hbase, -, hvalue, -, hnumber⟩ :=
      h.exists_number hvariation hother
    have hmoved := h.number_of_stride hvariation hstride hoperand hbase hvalue
    rw [hnumber, Option.some.injEq] at hmoved
    have hbounds := Operand.number?_bounds hnumber
    have hbaseBounds := Operand.number?_bounds hbase
    omega
  have hsecond := hnear (List.getElem?_eq_getElem h.several)
  have hcount := hnear hblock
  have hlarge : (k : Int) ≤ 65536 := by
    rcases Int.lt_or_gt_of_ne hnonzero with hneg | hpos
    · have hle := Int.mul_le_mul_of_nonneg_left (Int.le_sub_one_of_lt hneg) (Int.natCast_nonneg k)
      omega
    · have hle := Int.mul_le_mul_of_nonneg_left (Int.add_one_le_of_lt hpos) (Int.natCast_nonneg k)
      omega
  exact ⟨by omega, by omega, by omega⟩

end Match.Repeats

/-! ### Loops -/

/-- Whether the variable that an operand names is known to be where the operand says. -/
def Operand.IsLocated (symbols : SymbolTable) (addresses : String → Option Address)
    (operand : Operand) : Prop :=
  ∀ address, operand = .absolute address → addresses (symbols.dataName address) = some address

theorem not_mentions_unrollCounter (action : Action) :
    ∀ own ∈ action.ownTexts, ¬ Text.Mentions Routine.unrollCounter own := by
  have hletter : 'I' ∈ Routine.unrollCounter.toList := by decide
  exact action.not_mentions_ownTexts hletter (Or.inl rfl)

/-- What the node of a loop keeps of an operand that varies. -/
structure Match.LoopKeeps (found : Match) (symbols : SymbolTable)
    (addresses : String → Option Address) (variation : Variation) (i : Instruction) (node : Node) :
    Prop where
  /-- With zero for the counter the node does what the first block does, exactly if the operand can
  be told from other texts. -/
  first : node.StandsFor addresses Routine.unrollCounter "0" i.toOperation ↔
    i.IsolatesOperand symbols [Routine.unrollCounter]
  /-- Then the node does what each block does, with the number of the block for the counter. -/
  all : i.IsolatesOperand symbols [Routine.unrollCounter] →
    ∀ (k : Nat) block other, found.blocks[k]? = some block →
    block.instructions[variation.position]? = some other →
    node.StandsFor addresses Routine.unrollCounter (Text.decimal k) other.toOperation

namespace Match.Repeats

variable {found : Match} {first : Block} {rest : List Block} {varying : List Variation}
  (h : found.Repeats first rest varying)
  {variation : Variation} (hvariation : variation ∈ varying)

section Loop

variable {stride : Int} (hstride : variation.stride = some stride)
  (hfoldable : variation.isFoldable = true)
  {i : Instruction} (hi : first.instructions[variation.position]? = some i)
  {symbols : SymbolTable} (hnames : ∀ address, Text.IsName (symbols.dataName address))
  {addresses : String → Option Address} (hlocated : i.operand.IsLocated symbols addresses)
include h hvariation hstride hfoldable hi hnames hlocated

/-- The operand of a block is that of the first one, moved by so many strides. -/
theorem means_moving {k : Nat} {block : Block} (hblock : found.blocks[k]? = some block)
    {other : Instruction} (hother : block.instructions[variation.position]? = some other) :
    Means addresses (Routine.movingText symbols (Text.decimal k) stride i.operand)
      other.operand := by
  have hrange := h.inRange hvariation hstride hblock
  obtain ⟨-, hmode, hvalue⟩ := h.exists_other hvariation hi hblock hother
  obtain ⟨same, hsame, -, -, hhead⟩ := h.exists_first hvariation
  obtain rfl := Option.some.inj (hsame.symm.trans hi)
  have hoperand : first.operandAt? variation.position = some same.operand := by
    rw [Block.operandAt?, hi, Option.map_some]
  have hmoved (number : Int) (hnumber : same.operand.number? = some number) :=
    h.number_of_stride hvariation hstride hoperand hnumber hvalue
  rw [Variation.isFoldable, hhead] at hfoldable
  rw [Operand.IsLocated] at hlocated
  generalize same.operand = operand at *
  generalize other.operand = value at *
  cases operand with
  | immediate byte =>
    cases value <;> cases hmode
    exact means_moving_immediate symbols hrange (Option.some.inj (hmoved _ rfl))
  | absolute address =>
    cases value <;> cases hmode
    exact means_moving_absolute hrange (hnames address) (hlocated address rfl)
      (Option.some.inj (hmoved _ rfl))
  | _ => simp at hfoldable

/-- An operand that can be told from other texts is kept for every block. -/
theorem loop_standsFor (hisolated : i.IsolatesOperand symbols [Routine.unrollCounter]) {k : Nat}
    {block : Block} (hblock : found.blocks[k]? = some block) {other : Instruction}
    (hother : block.instructions[variation.position]? = some other) :
    (Routine.substitute (Routine.valueText symbols i.operand)
      (Routine.movingText symbols Routine.unrollCounter stride i.operand)
      (Statement.ofInstruction symbols i)).StandsFor addresses Routine.unrollCounter
        (Text.decimal k) other.toOperation := by
  obtain ⟨same, hsame, hflow, hnumbered, -⟩ := h.exists_first hvariation
  obtain rfl := Option.some.inj (hsame.symm.trans hi)
  obtain ⟨hmnemonic, hmode, -⟩ := h.exists_other hvariation hi hblock hother
  refine standsFor_of_isolatesOperand hnumbered hflow hisolated not_mentions_unrollCounter
    (mentions_movingText stride symbols _)
    hmnemonic hmode ?_
  rw [replaceWord_movingText]
  · exact h.means_moving hvariation hstride hfoldable hi hnames hlocated hblock hother
  · intro address haddress
    exact ⟨hnames address, fun hname =>
      hisolated.name address haddress (List.mem_append_left _ (List.mem_singleton.mpr hname))⟩

/-- What stands in a loop for an operand that varies. -/
theorem loopKeeps :
    found.LoopKeeps symbols addresses variation i
      (Routine.substitute (Routine.valueText symbols i.operand)
        (Routine.movingText symbols Routine.unrollCounter stride i.operand)
        (Statement.ofInstruction symbols i)) := by
  obtain ⟨same, hsame, hflow, hnumbered, -⟩ := h.exists_first hvariation
  obtain rfl := Option.some.inj (hsame.symm.trans hi)
  have hfirst : found.blocks[0]? = some first := by rw [h.blocks, List.getElem?_cons_zero]
  have hzero : "0" = Text.decimal 0 := by decide +kernel
  refine ⟨⟨fun hstands => ?_, fun hisolated => ?_⟩, fun hisolated k block other hblock hother => ?_⟩
  · rw [hzero] at hstands
    refine isolatesOperand_of_standsFor hnumbered hflow hnames not_mentions_unrollCounter ?_ ?_
      hstands
    · intro address haddress hname store
      rw [haddress, Routine.movingText, Text.replaceWord_memoryText isName_unrollCounter,
        List.mem_singleton.mp hname, Text.replaceWord_self isName_unrollCounter, replaceWord_scaled]
      exact means_nothing addresses 0 stride (by decide) store
    · intro address haddress hname
      rw [replaceWord_movingText]
      · have hmeans := h.means_moving hvariation hstride hfoldable hi hnames hlocated hfirst hi
        rw [haddress] at hmeans ⊢
        exact ⟨hmeans, by rw [Routine.movingText, Text.toList_memoryText, List.head?_cons]⟩
      · intro other hother
        obtain rfl := Operand.absolute.inj (haddress.symm.trans hother)
        exact ⟨hnames address, fun hcounter => hname (List.mem_singleton.mpr hcounter)⟩
  · rw [hzero]
    exact h.loop_standsFor hvariation hstride hfoldable hi hnames hlocated hisolated hfirst hi
  · exact h.loop_standsFor hvariation hstride hfoldable hi hnames hlocated hisolated hblock hother

end Loop

end Match.Repeats

namespace Routine

variable {symbols : SymbolTable} {uses : List Use} {calls : List Address} {usage : Usage}

/-- The statement at a position that varies. -/
theorem getElem?_unrolledBody (h : usage.Covers symbols uses calls) {varying : List Variation}
    {variation : Variation} {operand : Operand} (hoperand : variation.values.head? = some operand)
    {pairs : List (Instruction × Nat)} {n : Nat} {i : Instruction} {position : Nat}
    (hpair : pairs[n]? = some (i, position))
    (hfind : varying.find? (·.position == position) = some variation) :
    (unrolledBody symbols varying usage pairs).2[n]?
      = some (substitute (valueText symbols i.operand)
        (movingText symbols unrollCounter (variation.stride.getD 1) operand)
          (Statement.ofInstruction symbols i)) := by
  induction pairs generalizing usage uses n with
  | nil => cases hpair
  | cons pair rest ih =>
    obtain ⟨other, place⟩ := pair
    cases n with
    | zero =>
      cases hpair
      simp only [unrolledBody, hfind, List.getElem?_cons_zero, folded_eq_movingText h hoperand]
    | succ n =>
      rw [List.getElem?_cons_succ] at hpair
      rw [unrolledBody]
      cases varying.find? (·.position == place) with
      | none => exact ih h hpair
      | some earlier => exact ih (covers_folded h earlier) hpair

/-- The loop over unrolled blocks, with its statements at positions that vary. -/
theorem exists_loop (hcovers : usage.Covers symbols uses calls) {found : Match} {first : Block}
    {rest : List Block} {varying : List Variation} (h : found.Repeats first rest varying)
    (hshape : found.shape = .unrolled) :
    ∃ loop, (structured symbols usage found).2 = [loop] ∧ loop.kind = .forLoop ∧
      loop.value = unrollCounter ∧
      ∀ variation ∈ varying, ∀ i, first.instructions[variation.position]? = some i →
        loop.children[variation.position]?
          = some (substitute (valueText symbols i.operand)
            (movingText symbols unrollCounter (variation.stride.getD 1) i.operand)
              (Statement.ofInstruction symbols i)) := by
  rw [structured, hshape]
  simp only [unrolled, h.blocks, h.variations, Option.getD_some]
  refine ⟨_, rfl, rfl, rfl, fun variation hvariation i hi => ?_⟩
  obtain ⟨same, hsame, -, -, hhead⟩ := h.exists_first hvariation
  obtain rfl := Option.some.inj (hsame.symm.trans hi)
  refine getElem?_unrolledBody hcovers hhead ?_ (Block.find?_position h.variations hvariation)
  rw [List.getElem?_zipIdx, hi, Option.map_some, Nat.zero_add]

end Routine

/-! ### Templates -/

/-- What a statement of a template keeps of an operand that varies. -/
structure Match.TemplateKeeps (found : Match) (symbols : SymbolTable)
    (addresses : String → Option Address) (slot : Nat) (variation : Variation) (i : Instruction)
    (node : Node) (calls : List Node) : Prop where
  /-- With the argument of the first call for the parameter the statement does what the first block
  does, exactly if the operand can be told from other texts. -/
  first : ∃ call argument, calls.head? = some call ∧ call.params[slot]? = some argument ∧
    (node.StandsFor addresses (Routine.parameterName slot) argument i.toOperation ↔
      i.IsolatesOperand symbols [])
  /-- Then the statement does what each block does, with the argument of its call for the
  parameter. -/
  all : i.IsolatesOperand symbols [] → ∀ (k : Nat) block other, found.blocks[k]? = some block →
    block.instructions[variation.position]? = some other →
    ∃ call argument, calls[k]? = some call ∧ call.params[slot]? = some argument ∧
      node.StandsFor addresses (Routine.parameterName slot) argument other.toOperation

namespace Match.Repeats

variable {found : Match} {first : Block} {rest : List Block} {varying : List Variation}
  (h : found.Repeats first rest varying)
  {slot : Nat} {variation : Variation} (hslot : varying[slot]? = some variation)
    {symbols : SymbolTable}
include h hslot

/-- Each block has a call, with the operand of the block as an argument. -/
theorem exists_call {calls : List Node}
    (hcalls : calls.map (·.params)
      = (List.range found.blocks.length).map (Routine.argumentTexts varying))
    {i : Instruction} (hi : first.instructions[variation.position]? = some i) {k : Nat}
    {block : Block} (hblock : found.blocks[k]? = some block) {other : Instruction}
    (hother : block.instructions[variation.position]? = some other) :
    ∃ call, calls[k]? = some call ∧
      call.params[slot]? = some (Routine.argumentText other.operand) := by
  obtain ⟨-, -, hvalue⟩ := h.exists_other (List.mem_of_getElem? hslot) hi hblock hother
  obtain ⟨hlt, -⟩ := List.getElem?_eq_some_iff.mp hblock
  have hparams := congrArg (·[k]?) hcalls
  simp only [List.getElem?_map, List.getElem?_range hlt, Option.map_some] at hparams
  obtain ⟨call, hcall, hparams⟩ := Option.map_eq_some_iff.mp hparams
  refine ⟨call, hcall, ?_⟩
  rw [hparams, Routine.argumentTexts, List.getElem?_map, hslot, Option.map_some, hvalue,
    Option.map_some, Option.getD_some]

/-- What stands in a template for an operand that varies. -/
theorem templateKeeps {i : Instruction} (hi : first.instructions[variation.position]? = some i)
    (hnames : ∀ address, Text.IsName (symbols.dataName address))
    (addresses : String → Option Address) {calls : List Node} (hcalls : calls.map (·.params)
      = (List.range found.blocks.length).map (Routine.argumentTexts varying)) :
    found.TemplateKeeps symbols addresses slot variation i
      (Routine.substitute (Routine.valueText symbols i.operand)
        (Routine.parameterText i.operand slot)
        { Statement.ofInstruction symbols i with address := none }) calls := by
  have hvariation := List.mem_of_getElem? hslot
  obtain ⟨same, hsame, hflow, hnumbered, -⟩ := h.exists_first hvariation
  obtain rfl := Option.some.inj (hsame.symm.trans hi)
  have hfirst : found.blocks[0]? = some first := by rw [h.blocks, List.getElem?_cons_zero]
  have hown := Action.not_mentions_ownTexts (letter_mem_parameterName slot) (Or.inr rfl)
  have hmeans {other : Operand} (hmode : other.mode = same.operand.mode) :=
    means_parameterText hnumbered slot addresses hmode
  have hkept (hisolated : same.IsolatesOperand symbols []) {other : Instruction}
      (hmnemonic : other.mnemonic = same.mnemonic)
      (hmode : other.operand.mode = same.operand.mode) :=
    standsFor_of_isolatesOperand hnumbered hflow hisolated hown
      (mentions_parameterText hnumbered slot) hmnemonic hmode (hmeans hmode)
  constructor
  · obtain ⟨call, hcall, hargument⟩ := h.exists_call hslot hcalls hi hfirst hi
    refine ⟨call, _, List.head?_eq_getElem?.trans hcall, hargument, fun hstands => ?_,
      fun hisolated => ?_⟩
    · refine isolatesOperand_of_standsFor hnumbered hflow hnames hown ?_ ?_
        ⟨hstands.mentions, hstands.effect⟩
      · intro address haddress hname
        cases hname
      · intro address haddress _
        have hmeant : Means addresses _ same.operand := hmeans rfl
        rw [haddress] at hmeant ⊢
        refine ⟨hmeant, ?_⟩
        change (Text.replaceWord _ _ (Reference.pointerText _ _)).toList.head? = _
        rw [Text.replaceWord_pointerText (isName_parameterName slot), Text.toList_pointerText,
          List.head?_cons]
    · obtain ⟨hmentions, heffect⟩ := hkept hisolated rfl rfl
      exact ⟨hmentions, heffect⟩
  · intro hisolated k block other hblock hother
    obtain ⟨call, hcall, hargument⟩ := h.exists_call hslot hcalls hi hblock hother
    obtain ⟨hmnemonic, hmode, -⟩ := h.exists_other hvariation hi hblock hother
    obtain ⟨hmentions, heffect⟩ := hkept hisolated hmnemonic hmode
    exact ⟨call, _, hcall, hargument, hmentions, heffect⟩

end Match.Repeats

namespace Routine

/-- The template for blocks, with its statements at positions that vary. -/
theorem exists_template (symbols : SymbolTable) (usage : Usage) {found : Match} {first : Block}
    {rest : List Block} {varying : List Variation} (h : found.Repeats first rest varying)
    (hshape : found.shape = .template) :
    ∃ body, (structured symbols usage found).1.templates = usage.templates ++ [body] ∧
      body.kind = .function ∧
      body.params = (List.range varying.length).map parameterName ∧
      ∀ slot variation, varying[slot]? = some variation → variation.position < first.body.length →
        ∀ i, first.instructions[variation.position]? = some i →
          body.children[variation.position]?
            = some (substitute (valueText symbols i.operand) (parameterText i.operand slot)
                { Statement.ofInstruction symbols i with address := none }) := by
  rw [structured, hshape]
  simp only [template, h.blocks, h.variations, Option.getD_some]
  refine ⟨_, rfl, rfl, rfl, fun slot variation hslot hbody i hi => ?_⟩
  have hat : first.body[variation.position]? = some i := by
    rw [← hi, ← first.body_append_terminator?, List.getElem?_append_left hbody]
  simp only [List.getElem?_map, List.getElem?_zipIdx, hat, Option.map_some, Nat.zero_add,
    templateStatement, Block.findIdx?_position h.variations hslot]

end Routine

/-! ### Repeated blocks -/

/-- What is known of a program when a match behind others is turned into nodes. -/
def Routine.usageAt (symbols : SymbolTable) (before : List Match) (found : Match) : Usage :=
  found.instructions.foldl (Usage.note symbols) (codeFor symbols {} before).1

/-- Folding keeps an operand that varies exactly if the instruction of the first block has a
statement, and the operand is no variable with the name of a register or an operator of that
statement; in a loop the counter is no name for it either. Then the node at the position of the
operand mentions the counter or the parameter, and with zero or the first call's argument in its
place it does what the instruction does. The same goes for all other blocks, with their numbers or
the arguments of their calls. -/
theorem folding_keeps_operands_iff (candidates : Candidates) (sources : Sources)
    {blocks : List Block} {found : Match}
    (hfound : Shape.detectRepetition (.resolve candidates sources) blocks = some found)
    (before : List Match) :
    let symbols := SymbolTable.resolve candidates sources
    let usage := Routine.usageAt symbols before found
    ∃ first varying, found.blocks.head? = some first ∧
      Block.variations? found.blocks = some varying ∧
      (found.shape = .unrolled ∨ found.shape = .template) ∧
      (found.shape = .unrolled → ∃ loop, (Routine.structured symbols usage found).2 = [loop] ∧
        loop.kind = .forLoop ∧
        loop.value = Routine.unrollCounter ∧ ∀ variation ∈ varying, ∃ i node,
          first.instructions[variation.position]? = some i ∧
          loop.children[variation.position]? = some node ∧
          ∀ addresses, i.operand.IsLocated symbols addresses →
          found.LoopKeeps symbols addresses variation i node) ∧
      (found.shape = .template →
        ∃ body, (Routine.structured symbols usage found).1.templates = usage.templates ++ [body] ∧
        body.kind = .function ∧
        body.params = (List.range varying.length).map Routine.parameterName ∧
        ∀ slot variation, varying[slot]? = some variation → variation.position < first.body.length →
        ∃ i node,
          first.instructions[variation.position]? = some i ∧
          body.children[variation.position]? = some node ∧
          ∀ addresses, found.TemplateKeeps symbols addresses slot variation i node
            (Routine.callsIn (Routine.structured symbols usage found).2)) := by
  intro symbols usage
  have hnames := SymbolTable.isName_dataName_resolve candidates sources
  have hnothing : Usage.Covers symbols [] [] {} := Usage.Covers.nothing
  have hcovers := (Routine.covers_codeFor hnothing before).foldl_note found.instructions
  obtain ⟨first, rest, varying, h⟩ := Shape.repeats_of_detectRepetition hfound
  have hvarying : Block.variations? found.blocks = some varying := h.blocks ▸ h.variations
  refine ⟨first, varying, by rw [h.blocks, List.head?_cons], hvarying, h.shape.imp And.left id,
    fun hshape => ?_, fun hshape => ?_⟩
  · obtain ⟨loop, hloop, hkind, hvalue, hchildren⟩ := Routine.exists_loop hcovers h hshape
    refine ⟨loop, hloop, hkind, hvalue, fun variation hvariation => ?_⟩
    obtain ⟨i, hi, -⟩ := h.exists_first hvariation
    have hfoldable :=
      Shape.isFoldable_of_detectRepetition hfound hshape hvarying variation hvariation
    obtain ⟨stride, hstride⟩ := Option.isSome_iff_exists.mp (Bool.and_eq_true_iff.mp hfoldable).1
    refine ⟨i, _, hi, hchildren variation hvariation i hi, fun addresses hlocated => ?_⟩
    rw [hstride, Option.getD_some]
    exact h.loopKeeps hvariation hstride hfoldable hi hnames hlocated
  · obtain ⟨body, htemplates, hkind, hparams, hchildren⟩ :=
      Routine.exists_template symbols usage h hshape
    refine ⟨body, htemplates, hkind, hparams, fun slot variation hslot hbody => ?_⟩
    obtain ⟨i, hi, -⟩ := h.exists_first (List.mem_of_getElem? hslot)
    refine ⟨i, _, hi, hchildren slot variation hslot hbody i hi, fun addresses =>
      h.templateKeeps hslot hi hnames addresses ?_⟩
    rw [Routine.callsIn_template symbols usage h hshape, List.map_map, List.range_eq_range',
      ← List.zipIdx_map_snd, List.map_map]
    rfl

theorem fallingCode_keeps_operands :
    ∃ found loop node, Shape.detectRepetition {} (Block.partition fallingCode) = some found ∧
      (Routine.structured {} (Routine.usageAt {} [] found) found).2 = [loop] ∧
      loop.children[1]? = some node ∧
      node.StandsFor (fun name => if name = "VAR_0400" then some 0x0400 else none) "I" "2"
        ⟨.sta, .absolute 0x0402⟩ := by
  have hsymbols : SymbolTable.resolve {} Sources.empty = {} := by decide +kernel
  have hfound := (Option.some_get fallingCode_recognised).symm
  have hkept := folding_keeps_operands_iff {} Sources.empty (hsymbols ▸ hfound) []
  rw [hsymbols] at hkept
  obtain ⟨first, varying, hfirst, hvarying, -, hloop, -⟩ := hkept
  generalize hget : (Shape.detectRepetition {}
    (Block.partition fallingCode)).get fallingCode_recognised = found at *
  have hshape : found.shape = .unrolled := by rw [← hget]; decide +kernel
  have hpositions : (Block.variations? found.blocks).map (·.map (·.position)) = some [0, 1] := by
    rw [← hget]; decide +kernel
  have hstore : (found.blocks.head?.bind (·.instructions[1]?))
      = some ⟨⟨.sta, .absolute 0x0400⟩, 0xC002⟩ := by
    rw [← hget]; decide +kernel
  have hthird : (found.blocks[2]?.bind (·.instructions[1]?))
      = some ⟨⟨.sta, .absolute 0x0402⟩, 0xC010⟩ := by
    rw [← hget]; decide +kernel
  rw [hvarying, Option.map_some, Option.some.injEq] at hpositions
  rw [hfirst, Option.bind_some] at hstore
  obtain ⟨third, hblock, hother⟩ := Option.bind_eq_some_iff.mp hthird
  obtain ⟨variation, hvariation, hposition⟩ :=
    List.mem_map.mp (hpositions ▸ List.mem_cons_of_mem 0 (List.mem_singleton_self 1))
  obtain ⟨loop, hnodes, -, -, hkeeps⟩ := hloop hshape
  obtain ⟨i, node, hi, hnode, hkeeps⟩ := hkeeps variation hvariation
  rw [hposition] at hi hnode
  obtain rfl := Option.some.inj (hstore.symm.trans hi)
  have hisolated : Instruction.IsolatesOperand {} [Routine.unrollCounter]
      ⟨⟨.sta, .absolute 0x0400⟩, 0xC002⟩ := by
    refine ⟨by decide +kernel, fun address haddress => ?_⟩
    obtain rfl := Operand.absolute.inj haddress
    decide +kernel
  have htwo : "2" = Text.decimal 2 := by decide +kernel
  refine ⟨found, loop, node, hfound, hnodes, hnode, ?_⟩
  rw [htwo]
  refine (hkeeps _ fun address haddress => ?_).all hisolated 2 third _ hblock (hposition ▸ hother)
  obtain rfl := Operand.absolute.inj haddress
  decide +kernel

/-- Two blocks with an operation that has no statement. -/
def rawCode : List Instruction :=
  [{ address := 0xC000, mnemonic := .lda, operand := .immediate 5 },
   { address := 0xC002, mnemonic := .other "LAX", operand := .absolute 0x0010 },
   { address := 0xC004, mnemonic := .bne, operand := .absolute 0xC100 },
   { address := 0xC006, mnemonic := .lda, operand := .immediate 5 },
   { address := 0xC008, mnemonic := .other "LAX", operand := .absolute 0x0011 },
   { address := 0xC00A, mnemonic := .bne, operand := .absolute 0xC100 }]

theorem rawCode_recognised : (Shape.detectRepetition {} (Block.partition rawCode)).isSome := by
  decide +kernel

/-- They are written as a loop, but its statement for the operand that varies does not mention the
counter. -/
theorem rawCode_loses_operand :
    ∃ found loop node, Shape.detectRepetition {} (Block.partition rawCode) = some found ∧
      found.shape = .unrolled ∧
      (Block.variations? found.blocks).map (·.map (·.position)) = some [1] ∧
      (Routine.structured {} (Routine.usageAt {} [] found) found).2 = [loop] ∧
      loop.children[1]? = some node ∧
      ¬ ∃ param ∈ node.params, Text.Mentions Routine.unrollCounter param := by
  refine ⟨Option.get _ rawCode_recognised, _, _,
    (Option.some_get _).symm, by decide +kernel, by decide +kernel, rfl, rfl, ?_⟩
  decide +kernel

end Lift6502
