import Lift6502.Proofs.Dialect.Definitions
import Lift6502.Proofs.Routine.Records
import Lift6502.Proofs.Routine.Spans

/-!
# The names that a program declares

A program declares its variables, its records, the routines of the ROM that it calls, the routines
that it looks for outside, and those of its own. With resolved symbols all of these have names that
are words, even those of calls to labels that no instruction of the listing has. The fields of
records and the parameters of templates are numbered.
-/

namespace Lift6502

/-! ### Names of calls -/

namespace SymbolTable

theorem IsResolved.isName_codeName {symbols : SymbolTable} (h : symbols.IsResolved)
    (address : Address) : Text.IsName (symbols.codeName address) := by
  rcases h with rfl | ⟨candidates, sources, rfl⟩
  · exact isName_generatedName? (show Role.generatedName? address .label = some _ from rfl)
  · exact Program.isName_codeName_resolve candidates sources address

end SymbolTable

namespace Node

/-- Whether a node that calls a routine calls it by a name. -/
def CallsName (node : Node) : Prop := node.kind = .subCall → Text.IsName node.value

theorem CallsName.of_kind {node : Node} (h : node.kind ≠ .subCall) : node.CallsName :=
  fun hkind => absurd hkind h

theorem callsName_of_isMade (node : Node) (h : node.kind.isMade = true) : node.CallsName := by
  intro hkind
  rw [hkind] at h
  cases h

end Node

namespace Statement

variable {symbols : SymbolTable} {operation : Operation} {node : Node}

/-- Only calls have statements that call a routine, by the text of their operand. -/
theorem codeLabel?_of_subCall (h : rule? symbols operation = some node)
    (hkind : node.kind = .subCall) : operation.operand.codeLabel? symbols = some node.value := by
  rcases rule?_cases h with hother | ⟨-, hcall⟩ | ⟨-, himplied⟩
  · simp [hkind] at hother
  · rcases call?_cases hcall with hother | ⟨-, hlabel⟩
    · rw [hkind] at hother
      cases hother
    · exact hlabel
  · cases hmnemonic : operation.mnemonic <;> rw [hmnemonic] at himplied <;> cases himplied
      <;> cases hkind

end Statement

namespace Routine

open Node (Each)

variable {symbols : SymbolTable} {found : Match}

theorem isName_templateName (start : Address) : Text.IsName (templateName start) :=
  Text.IsName.append ⟨by decide, List.all_eq_true.mp (by decide)⟩ Text.isNameChar_of_mem_hex4

theorem callsName_ofInstruction (hnames : ∀ address, Text.IsName (symbols.codeName address))
    {i : Instruction} (hlegible : i.operand.IsLegible) :
    (Statement.ofInstruction symbols i).CallsName := by
  cases hrule : Statement.rule? symbols i.toOperation with
  | none => simp [Node.CallsName, Statement.ofInstruction, hrule]
  | some node =>
    simp only [Node.CallsName, Statement.ofInstruction, hrule, Option.getD_some]
    intro hkind
    have hlabel := Statement.codeLabel?_of_subCall hrule hkind
    cases hoperand : i.operand with
    | absolute address =>
      rw [hoperand] at hlabel
      exact Option.some.inj hlabel ▸ hnames address
    | symbolic label =>
      rw [hoperand] at hlabel hlegible
      exact Option.some.inj hlabel ▸ Operand.isName_of_isLegible hlegible
    | _ =>
      rw [hoperand] at hlabel
      cases hlabel

variable (hown : ∀ i ∈ found.instructions, (Statement.ofInstruction symbols i).CallsName)

include hown

theorem callsName_structured (usage : Usage) :
    Each Node.CallsName (structured symbols usage found).2 := by
  have hother {node : Node} {kind : NodeKind} (hne : kind ≠ .subCall) (hkind : node.kind = kind) :
      node.CallsName :=
    .of_kind (hkind ▸ hne)
  refine each_structured Node.callsName_of_isMade hown
    (fun start _ _ _ => isName_templateName start) usage (fun _ => ?_)
    fun _ => ?_
  · exact each_record hown (fun _ => hother (by decide)) fun _ => hother (by decide)
  · exact each_unrolled Node.callsName_of_isMade hown (fun i hi _ _ => hown i hi) usage

theorem callsName_cutOut {first : Block} {rest : List Block}
    (hblocks : found.blocks = first :: rest) : Each Node.CallsName [cutOut symbols first rest] := by
  have hstatement : ∀ i ∈ first.body, (Statement.ofInstruction symbols i).CallsName := fun i hi =>
    hown i (Match.mem_instructions_of_mem_body (by simp [hblocks]) hi)
  exact each_cutOut (.of_kind (by rintro ⟨⟩)) hstatement fun i hi _ => hstatement i hi

end Routine

/-! ### All names -/

namespace Program

variable {symbols : SymbolTable} {blocks : List Block} {node : Node}

theorem callsName_of_mem_walk
    (hown : ∀ i ∈ Block.instructionsOf blocks, (Statement.ofInstruction symbols i).CallsName)
    (h : node ∈ (build symbols blocks).root.walk) : node.CallsName := by
  obtain ⟨other, horigin, hresembles⟩ := exists_origin h
  have hmatch {found : Match} (hfound : found ∈ shapes symbols blocks) :
      ∀ i ∈ found.instructions, (Statement.ofInstruction symbols i).CallsName :=
    fun i hi => hown i (instructions_subset_of_mem_shapes hfound hi)
  have hother : other.CallsName := by
    cases horigin with
    | root => exact .of_kind (by rintro ⟨⟩)
    | routine => exact .of_kind (by rintro ⟨⟩)
    | code hfound hnode => exact Routine.callsName_structured (hmatch hfound) _ other hnode
    | template hfound hblocks hnode =>
      exact Routine.callsName_cutOut (hmatch hfound) hblocks other
        (Node.mem_walkAll.mpr ⟨_, List.mem_singleton_self _, hnode⟩)
  intro hkind
  rw [hresembles.value (by rw [hkind]; rintro ⟨⟩)]
  exact hother (hresembles.kind ▸ hkind)

theorem params_of_mem_children (h : node ∈ (build symbols blocks).root.children) :
    ∀ param ∈ node.params, ∃ slot, param = Routine.parameterName slot := by
  have hcomposed := composed_routines symbols blocks
  have hbare : (build symbols blocks).root.bare = (unlabelled symbols blocks).bare := by
    rw [build_root, Node.bare_placeLabels]
  have hmem : node.bare ∈ (unlabelled symbols blocks).children.map Node.bare := by
    rw [← Node.bare_children, ← hbare, Node.bare_children]
    exact List.mem_map_of_mem h
  obtain ⟨other, hother, hsame⟩ := List.mem_map.mp hmem
  rw [← Node.bare_params, ← hsame, Node.bare_params]
  rcases List.mem_append.mp hother with hfunction | htemplate
  · obtain ⟨segment, -, first, rest, usage, -, rfl⟩ :=
      exists_left_of_forall₂ hcomposed.functions hfunction
    rw [params_routineNode]
    exact List.forall_mem_nil _
  · obtain ⟨found, -, first, rest, -, rfl⟩ := hcomposed.templates other htemplate
    exact List.forall_mem_map.mpr fun slot _ => ⟨slot, rfl⟩

/-- A program that declares nothing but names, with numbered fields and parameters. -/
structure IsNamed (program : Program) : Prop where
  places : ∀ entry ∈ program.variableMap.toList, Text.IsName entry.2.name
  records : ∀ record ∈ program.records,
    Text.IsName record.value ∧ ∀ field ∈ record.params, ∃ number, field = Routine.fieldName number
  romCalls : ∀ entry ∈ program.romCalls.toList, Text.IsName entry.2
  externals : ∀ name ∈ program.externalCalls.toList, Text.IsName name
  routines : ∀ routine ∈ program.root.children,
    Text.IsName routine.value ∧ ∀ param ∈ routine.params, ∃ slot, param = Routine.parameterName slot

theorem isName_of_mem_children (hnames : ∀ address, Text.IsName (symbols.codeName address))
    (h : node ∈ (build symbols blocks).root.children) : Text.IsName node.value := by
  have hvalue : node.value ∈ (build symbols blocks).root.children.map (·.value) :=
    List.mem_map_of_mem h
  rw [← (isTree_build symbols blocks).filter_function, map_value_functions] at hvalue
  rcases List.mem_append.mp hvalue with hentry | htemplate
  · obtain ⟨start, hstart, hsame⟩ := List.mem_map.mp hentry
    rw [← hsame]
    rcases title_cases hstart with ⟨-, htitle⟩ | ⟨-, -, htitle⟩
    · exact htitle ▸ hnames start
    · rw [htitle]
      exact ⟨by decide, List.all_eq_true.mp (by decide)⟩
  · obtain ⟨start, -, hsame⟩ := List.mem_map.mp htemplate
    exact hsame ▸ Routine.isName_templateName start

theorem isNamed_build (hsymbols : symbols.IsResolved)
    (hlegible : ∀ i ∈ Block.instructionsOf blocks, i.operand.IsLegible) :
    (build symbols blocks).IsNamed where
  places entry hentry := by
    have hplace := Std.ExtTreeMap.mem_toList_iff_getElem?_eq_some.mp
      (show (entry.1, entry.2) ∈ _ from hentry)
    rw [((variableMap_build symbols blocks).mp hplace).2]
    exact hsymbols.isName_dataName entry.1
  records record hrecord := by
    have hplain : ∀ i ∈ Block.instructionsOf blocks, (Statement.ofInstruction symbols i).Plain :=
      fun i hi => Routine.plain_ofInstruction hsymbols.isName_dataName (hlegible i hi)
    have hheading :
        (record.value, record.params) ∈ (recordsOf symbols blocks).map Routine.recordHeading := by
      rw [← records_build hplain]
      exact List.mem_map_of_mem (f := fun node : Node => (node.value, node.params)) hrecord
    obtain ⟨found, -, hsame⟩ := List.mem_map.mp hheading
    obtain ⟨hvalue, hparams⟩ := Prod.mk.inj hsame
    rw [← hvalue, ← hparams]
    exact ⟨Routine.isName_recordName found.1, List.forall_mem_map.mpr fun number _ => ⟨number, rfl⟩⟩
  romCalls entry hentry := by
    have hcall :=
      Std.ExtTreeMap.mem_toList_iff_getElem?_eq_some.mp (show (entry.1, entry.2) ∈ _ from hentry)
    rw [((romCalls_build symbols blocks entry.1 entry.2).mp hcall).2.2]
    exact hsymbols.isName_codeName entry.1
  externals name hname := by
    rw [Std.ExtTreeSet.mem_toList, externalCalls, Std.ExtTreeSet.mem_ofList, List.contains_iff_mem]
      at hname
    obtain ⟨node, hnode, rfl⟩ := List.mem_map.mp hname
    obtain ⟨hwalk, hcall⟩ := List.mem_filter.mp hnode
    have hcalls := callsName_of_mem_walk
      (fun i hi => Routine.callsName_ofInstruction hsymbols.isName_codeName (hlegible i hi)) hwalk
    exact hcalls (beq_iff_eq.mp (Bool.and_eq_true_iff.mp hcall).1)
  routines routine hroutine :=
    ⟨isName_of_mem_children hsymbols.isName_codeName hroutine, params_of_mem_children hroutine⟩

end Program

end Lift6502
