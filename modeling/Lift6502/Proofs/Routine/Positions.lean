import Lift6502.Proofs.Routine.Matches
import Lift6502.Proofs.Shape.Positions

/-!
# Routines by position

The code for shapes reaches into lists as well: the condition of a loop is inverted in its place,
fields of a record are numbered by their distance from the first one, and the parameters of a
template are reached by their slot. A routine is built in a loop over the position of the next
block, which every match moves on by what it claims. Here all of this is checked code, and it always
ends with the nodes of the routine: the matches tile the blocks, and nothing is out of range. Where
sums are checked too, it is stopped by a match whose first block has steps that overflow, and by
nothing else.
-/

namespace Lift6502

/-- Whether the steps of the block that a match starts with overflow. -/
def Match.overflows (found : Match) : Bool := found.blocks.head?.any Block.overflows

namespace Positional

open Checked Routine

/-! ### Loops and records -/

def invertedCondition (symbols : SymbolTable) (found : Match) : Checked (List String) :=
  match found.comparison with
  | some comparison => set (condition symbols found (some comparison)) 1 comparison.inverse.text
  | none => return condition symbols found none

def untilLoop (symbols : SymbolTable) (found : Match) : Checked (List Node) :=
  if found.blocks.length = 2 then do
    let inverted ← invertedCondition symbols found
    return topTested symbols found inverted
  else return bottomTested symbols found

def recordStatement (symbols : SymbolTable) (base : Address) (instruction : Instruction) :
    Checked Node :=
  match Shape.storedPlace? instruction with
  | some address => do
    let number ← minus address.toNat base.toNat
    return {
      kind := .assign
      params := [recordName base ++ "." ++ fieldName number, "A"]
      address := some instruction.address }
  | none => return Statement.ofInstruction symbols instruction

def record (symbols : SymbolTable) (found : Match) : Checked (List Node) :=
  match found.subject, found.blocks.head? with
  | some (.absolute base), some block => do
    let body ← body block
    let children ← body.mapM (recordStatement symbols base)
    return { kind := .structDef
             value := recordName base
             params := (List.range found.operands.length).map fieldName
             children
             address := some block.start } ::
               (block.terminator?.map (Statement.ofInstruction symbols)).toList
  | some (.absolute _), none => return []
  | _, _ => return statements symbols found fun _ => true

variable (symbols : SymbolTable)

theorem untilLoop_eq_value (found : Match) :
    untilLoop symbols found = value (Routine.untilLoop symbols found) := by
  have hinverted : invertedCondition symbols found
      = value (condition symbols found (found.comparison.map Comparison.inverse)) := by
    rw [invertedCondition]
    cases found.comparison <;> rfl
  rw [untilLoop, Routine.untilLoop, hinverted]
  split <;> rfl

theorem recordStatement_eq_value {base : Address} {instruction : Instruction}
    (h : ∀ address, Shape.storedPlace? instruction = some address → base ≤ address) :
    recordStatement symbols base instruction
      = value (Routine.recordStatement symbols base instruction) := by
  rw [recordStatement, Routine.recordStatement]
  cases hplace : Shape.storedPlace? instruction with
  | none => rfl
  | some address =>
    have hle : base ≤ address := h address hplace
    simp only [minus_eq_value (UInt16.le_iff_toNat_le.mp hle), value_bind,
      UInt16.toNat_sub_of_le address base hle]
    rfl

theorem record_eq_value {found : Match} {block : Block} {base : Address}
    (hblocks : found.blocks = [block]) (hsubject : found.subject = some (.absolute base))
    (hstores : Shape.StoresFrom base block) :
    record symbols found = value (Routine.record symbols found) := by
  have hchildren : block.body.mapM (recordStatement symbols base)
      = value (block.body.map (Routine.recordStatement symbols base)) := by
    apply mapM_eq_value
    intro i hi
    exact recordStatement_eq_value symbols (hstores i hi)
  rw [record, Routine.record, hblocks, hsubject, List.head?_cons]
  simp only [body_eq_value, value_bind, hchildren]
  rfl

/-! ### Repeated code -/

def unrolled (usage : Usage) (found : Match) : Checked (Usage × List Node) :=
  match found.blocks with
  | [] => return (usage, [])
  | first :: _ => do
    let varying ← attempt (variations found.blocks)
    let (usage, children) := unrolledBody symbols (varying.getD []) usage first.instructions.zipIdx
    return (usage,
      [{ kind := .forLoop
         value := unrollCounter
         params := ["0", Text.decimal found.blocks.length, "1"]
         children
         address := some first.start }])

def parameterText (operand : Operand) (parameter : String) : String :=
  match operand with
  | .immediate _ => parameter
  | .indexed _ index => Reference.pointerText parameter index.text
  | _ => Reference.pointerText parameter "0"

def templateStatement (varying : List Variation) (parameters : List String)
    (instruction : Instruction) (position : Nat) : Checked Node :=
  let statement : Node := { Statement.ofInstruction symbols instruction with address := none }
  match varying.findIdx? (·.position == position) with
  | some slot => do
    let parameter ← get parameters slot
    return substitute (valueText symbols instruction.operand)
      (parameterText instruction.operand parameter) statement
  | none => return statement

def arguments (varying : List Variation) (position : Nat) : Checked (List String) :=
  varying.mapM fun variation => do
    let operand ← get variation.values position
    return argumentText operand

def templateCall (name : String) (varying : List Variation) (block : Block) (position : Nat) :
    Checked (List Node) := do
  let params ← arguments varying position
  return { kind := .subCall, value := name, params, address := some block.start } ::
    (block.terminator?.map (Statement.ofInstruction symbols)).toList

def template (usage : Usage) (found : Match) : Checked (Usage × List Node) :=
  match found.blocks with
  | [] => return (usage, [])
  | first :: _ => do
    let found? ← attempt (variations found.blocks)
    let varying := found?.getD []
    let name := templateName first.start
    let params := (List.range varying.length).map parameterName
    let body ← body first
    let children ← body.zipIdx.mapM fun entry =>
      templateStatement symbols varying params entry.1 entry.2
    let calls ← found.blocks.zipIdx.mapM fun entry =>
      templateCall symbols name varying entry.1 entry.2
    return ({ usage with
        templates := usage.templates ++ [{ kind := .function, value := name, params, children }] },
      calls.flatten)

theorem unrolled_eq_value (usage : Usage) (found : Match) :
    unrolled symbols usage found = value (Routine.unrolled symbols usage found) := by
  rw [unrolled, Routine.unrolled, variations_eq_offer, attempt_offer]
  cases found.blocks <;> rfl

theorem templateStatement_eq_value (varying : List Variation) (instruction : Instruction)
    (position : Nat) :
    templateStatement symbols varying ((List.range varying.length).map parameterName)
      instruction position
      = value (Routine.templateStatement symbols varying instruction position) := by
  rw [templateStatement, Routine.templateStatement]
  cases hslot : varying.findIdx? (·.position == position) with
  | none => rfl
  | some slot =>
    obtain ⟨hlt, -⟩ := List.findIdx?_eq_some_iff_getElem.mp hslot
    have hparameter :
        ((List.range varying.length).map parameterName)[slot]? = some (parameterName slot) := by
      rw [List.getElem?_map, List.getElem?_range hlt]
      rfl
    have htext : parameterText instruction.operand (parameterName slot)
        = Routine.parameterText instruction.operand slot := by
      cases instruction.operand <;> rfl
    simp only [get_eq_value hparameter, value_bind, htext]
    rfl

theorem templateCall_eq_value {varying : List Variation} {position : Nat}
    (h : ∀ variation ∈ varying, position < variation.values.length) (name : String)
    (block : Block) :
    templateCall symbols name varying block position
      = value (Routine.templateCall symbols name varying block position) := by
  have harguments : arguments varying position
      = value (varying.map fun variation =>
        (variation.values[position]?.map argumentText).getD "") := by
    apply mapM_eq_value
    intro variation hvariation
    have hoperand := List.getElem?_eq_getElem (h variation hvariation)
    rw [get_eq_value hoperand, hoperand]
    rfl
  rw [templateCall, harguments]
  rfl

/-- Every block has its arguments, also if there are none because nothing varies. -/
theorem position_lt_length_values {blocks : List Block} {position : Nat}
    (hposition : position < blocks.length) :
    ∀ variation ∈ (Block.variations? blocks).getD [], position < variation.values.length := by
  intro variation hmem
  cases hvarying : Block.variations? blocks with
  | none =>
    rw [hvarying] at hmem
    cases hmem
  | some varying =>
    rw [hvarying] at hmem
    rw [length_values hvarying hmem]
    exact hposition

theorem template_eq_value (usage : Usage) (found : Match) :
    template symbols usage found = value (Routine.template symbols usage found) := by
  rw [template, Routine.template, variations_eq_offer, attempt_offer]
  cases hblocks : found.blocks with
  | nil => rfl
  | cons first rest =>
    have hcalls : ((first :: rest).zipIdx.mapM fun entry =>
        templateCall symbols (templateName first.start)
          ((Block.variations? (first :: rest)).getD []) entry.1 entry.2)
          = value ((first :: rest).zipIdx.map fun entry => Routine.templateCall symbols
            (templateName first.start)
              ((Block.variations? (first :: rest)).getD []) entry.1 entry.2) := by
      apply mapM_eq_value
      intro entry hentry
      apply templateCall_eq_value
      apply position_lt_length_values
      obtain ⟨hlt, -⟩ := List.getElem?_eq_some_iff.mp (List.mk_mem_zipIdx_iff_getElem?.mp hentry)
      exact hlt
    have hchildren (varying : List Variation) : (first.body.zipIdx.mapM fun entry =>
        templateStatement symbols varying ((List.range varying.length).map parameterName)
          entry.1 entry.2)
          = value (first.body.zipIdx.map fun entry =>
            Routine.templateStatement symbols varying entry.1 entry.2) := by
      apply mapM_eq_value
      intro entry _
      exact templateStatement_eq_value symbols varying entry.1 entry.2
    simp only [value_bind, body_eq_value, hchildren, hcalls]
    rw [List.flatMap_def]
    rfl

/-! ### All shapes -/

def structured (usage : Usage) (found : Match) : Checked (Usage × List Node) :=
  match found.shape with
  | .untilLoop => do
    let nodes ← untilLoop symbols found
    return (usage, nodes)
  | .record => do
    let nodes ← record symbols found
    return (usage, nodes)
  | .unrolled => unrolled symbols usage found
  | .template => template symbols usage found
  -- The other shapes reach into a block only for its body, its last instruction and its test.
  | _ => return Routine.structured symbols usage found

/-- The nodes for the blocks from a position on. -/
def build (mode : OnOverflow) (segment : List Block) (usage : Usage) (position : Nat) :
    Checked (Usage × List Node) :=
  if position < segment.length then do
    let window ← slice segment position segment.length
    let found ← recognise mode symbols window
    let nodes ← structured symbols (found.instructions.foldl (Usage.note symbols) usage) found
    let others ← build mode segment nodes.1 (position + max found.blocks.length 1)
    return (others.1, nodes.2 ++ others.2)
  else return (usage, [])
termination_by segment.length - position

theorem structured_eq_value {found : Match} (hsound : found.Sound) (usage : Usage) :
    structured symbols usage found = value (Routine.structured symbols usage found) := by
  rw [structured, Routine.structured]
  cases hshape : found.shape
  case untilLoop =>
    simp only [untilLoop_eq_value]
    rfl
  case record =>
    simp only [Match.Sound, hshape] at hsound
    obtain ⟨_, block, base, hblocks, hsubject, hstores⟩ := hsound
    simp only [record_eq_value symbols hblocks hsubject hstores]
    rfl
  case unrolled => exact unrolled_eq_value symbols usage found
  case template => exact template_eq_value symbols usage found
  all_goals rfl

/-- The loop over positions stands behind the blocks that were claimed, and goes on as if they were
not there. -/
theorem build_eq_stopIf (mode : OnOverflow) (front : List Block) (usage : Usage)
    (blocks : List Block) :
    build symbols mode (front ++ blocks) usage front.length
      = stopIf (mode.stops ((shapes symbols blocks).any Match.overflows))
          (value (Routine.build symbols usage blocks)) := by
  fun_induction shapes symbols blocks generalizing front usage with
  | case1 =>
    rw [build, if_neg (by simp), Routine.build]
    cases mode <;> rfl
  | case2 block rest found ih =>
    obtain ⟨hfits, hsound⟩ := Shape.recognise_promises symbols block rest
    have hclaimed := recognise_blocks_append_drop symbols block rest
    have hlt : front.length < (front ++ block :: rest).length := by simp
    have hmax : max found.blocks.length 1 = found.blocks.length :=
      Nat.max_eq_left (List.length_pos_iff.mpr hfits.nonempty)
    have hhead : found.overflows = (block :: rest).head?.any Block.overflows := by
      rw [Match.overflows, hfits.head?_blocks]
    have hnext (usage : Usage) :
        build symbols mode (front ++ block :: rest) usage (front.length + found.blocks.length)
          = stopIf (mode.stops ((shapes symbols (rest.drop (found.blocks.length - 1))).any
              Match.overflows))
            (value (Routine.build symbols usage (rest.drop (found.blocks.length - 1)))) := by
      rw [← hclaimed, ← List.append_assoc, ← List.length_append]
      exact ih (front ++ found.blocks) usage
    rw [build, if_pos hlt, slice_length (Nat.le_of_lt hlt), List.drop_left, value_bind,
      recognise_eq_stopIf, stopIf_bind, value_bind, structured_eq_value symbols hsound, value_bind,
      hmax, hnext, stopIf_bind, stopIf_stopIf, ← hhead, ← stops_or, Routine.build]
    rfl

end Positional

namespace Routine

/-! ### Matches that tile -/

/-- Matches tile blocks if each of them is what is recognised in the blocks that the ones before it
leave, and claims some blocks at the front of these. -/
inductive Tiles (symbols : SymbolTable) : List Block → List Match → Prop
  | nil : Tiles symbols [] []
  | cons {blocks rest : List Block} {found : Match} {others : List Match}
    (hfound : found = Shape.recognise symbols blocks)
      (hblocks : found.blocks ++ rest = blocks) (hclaims : found.blocks ≠ [])
          (hothers : Tiles symbols rest others) :
      Tiles symbols blocks (found :: others)

theorem tiles_shapes (symbols : SymbolTable) (blocks : List Block) :
    Tiles symbols blocks (shapes symbols blocks) := by
  fun_induction shapes symbols blocks with
  | case1 => exact Tiles.nil
  | case2 block rest found ih =>
    have hclaims := (Shape.recognise_promises symbols block rest).1.nonempty
    exact Tiles.cons rfl (recognise_blocks_append_drop symbols block rest) hclaims ih

theorem detect_nil {detect : Detector} (hdetect : detect ∈ Shape.detectors)
    (symbols : SymbolTable) : detect symbols [] = none := by
  cases hfound : detect symbols [] with
  | none => rfl
  | some found =>
    obtain ⟨hfits, -⟩ := (Shape.foundBy_of_mem_detectors hdetect hfound).promises
    exact absurd (List.prefix_nil.mp hfits.isPrefix) hfits.nonempty

/-- Whatever a detector claims fits the blocks that it looks at, and where there are none it claims
nothing. So the matches of a routine tile its blocks, and every access by position that the
detectors, the code for shapes and the loop over the blocks make is in range. Where sums are
checked, only steps that overflow can stop that code. -/
theorem matches_fit_and_tile (symbols : SymbolTable) (blocks : List Block) :
    (∀ detect ∈ Shape.detectors, ∀ found,
      detect symbols blocks = some found → found.Fits blocks) ∧
    (∀ detect ∈ Shape.detectors, detect symbols [] = none) ∧
    Tiles symbols blocks (shapes symbols blocks) ∧
    (∀ usage, build symbols usage blocks = codeFor symbols usage (shapes symbols blocks)) ∧
    (∀ block, Positional.body block = .value block.body ∧
      Positional.test block = .offer block.test?) ∧
    List.Forall₂ Positional.Agrees (Positional.detectors .wrap) Shape.detectors ∧
    (∀ usage, Positional.build symbols .wrap blocks usage 0 = .value (build symbols usage blocks)) ∧
    ∀ usage, Positional.build symbols .stop blocks usage 0
      = if (shapes symbols blocks).any Match.overflows then .overflow
        else .value (build symbols usage blocks) := by
  refine ⟨?_, ?_, tiles_shapes symbols blocks, ?_, ?_, Positional.agrees_detectors, ?_, ?_⟩
  · intro detect hdetect found hfound
    exact (Shape.foundBy_of_mem_detectors hdetect hfound).promises.1
  · intro detect hdetect
    exact detect_nil hdetect symbols
  · intro usage
    exact build_eq_codeFor symbols usage blocks
  · intro block
    exact ⟨Positional.body_eq_value block, Positional.test_eq_offer block⟩
  · intro usage
    exact Positional.build_eq_stopIf symbols .wrap [] usage blocks
  · intro usage
    exact Positional.build_eq_stopIf symbols .stop [] usage blocks

/-- A loop that clears a row of the screen, counted up to a bound. -/
def clearedRow : List Instruction :=
  [{ address := 0xC000, mnemonic := .lda, operand := .immediate 0x20 },
   { address := 0xC002, mnemonic := .ldx, operand := .immediate 0 },
   { address := 0xC004, mnemonic := .sta, operand := .indexed 0x0400 .x },
   { address := 0xC007, mnemonic := .inx, operand := .implied },
   { address := 0xC008, mnemonic := .cpx, operand := .immediate 40 },
   { address := 0xC00A, mnemonic := .bne, operand := .absolute 0xC004 },
   { address := 0xC00C, mnemonic := .rts, operand := .implied }]

theorem clearedRow_fits :
    ∃ found, Shape.detectCounted {} (Block.partition clearedRow) = some found ∧
      found.anchor = 0xC002 ∧
      found.control.toList = [0xC002, 0xC007, 0xC008, 0xC00A] ∧
      found.Fits (Block.partition clearedRow) := by
  have hclaims : (Shape.detectCounted {} (Block.partition clearedRow)).map
      (fun found => (found.anchor, found.control.toList))
      = some (0xC002, [0xC002, 0xC007, 0xC008, 0xC00A]) := by decide +kernel
  obtain ⟨found, hfound, hparts⟩ := Option.map_eq_some_iff.mp hclaims
  obtain ⟨hanchor, hcontrol⟩ := Prod.mk.inj hparts
  have hfits := (matches_fit_and_tile {} (Block.partition clearedRow)).1 Shape.detectCounted
    List.mem_cons_self found hfound
  exact ⟨found, hfound, hanchor, hcontrol, hfits⟩

end Routine

end Lift6502
