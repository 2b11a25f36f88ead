import Lift6502.Proofs.Routine.CounterTexts

/-!
# Placeholders for operands

The operand of a statement is found by its text when a placeholder is to stand in its place. So with
an argument for the placeholder the statement does what the instruction does, exactly if the
instruction has a statement, and the operand is no variable with the name of a register or an
operator of that statement. Otherwise the operand is lost, or something else is replaced too.
-/

namespace Lift6502

/-- What the statements of a mnemonic say besides their operand. -/
def Mnemonic.ownTexts (mnemonic : Mnemonic) : List String :=
  (mnemonic.action?.map Action.ownTexts).getD []

/-- Whether a node has a placeholder for an operand, and does what an operation does once an
argument stands in its place. -/
structure Node.StandsFor (node : Node) (addresses : String → Option Address)
    (placeholder argument : String) (operation : Operation) : Prop where
  mentions : ∃ param ∈ node.params, Text.Mentions placeholder param
  effect : ∀ store, ∃ after, (node.replaceWord placeholder argument).effect? addresses store
    = some after ∧
    operation.effect? store = some after

/-- Whether an instruction has a statement in which its operand can be told from all other texts,
and from some that are reserved. -/
structure Instruction.IsolatesOperand (symbols : SymbolTable) (reserved : List String)
    (i : Instruction) : Prop where
  statement : (Statement.rule? symbols i.toOperation).isSome = true
  name : ∀ address, i.operand = .absolute address →
    symbols.dataName address ∉ reserved ++ i.mnemonic.ownTexts

/-! ### One statement -/

namespace Action

/-- An operand that an action can take has an effect in every store. -/
theorem exists_effect? {action : Action} {operand : Operand}
    (hnumbered : operand.mode.isNumbered = true)
    (hneeds : action.needsCell = true → operand.mode ≠ .immediate) (store : Store) :
    ∃ after, action.effect? operand store = some after := by
  cases operand with
  | immediate value =>
    cases action with
    | store register => exact absurd rfl (hneeds rfl)
    | change operator amount => exact absurd rfl (hneeds rfl)
    | _ => exact ⟨_, rfl⟩
  | absolute address | indexed base index => cases action <;> exact ⟨_, rfl⟩
  | _ => cases hnumbered

theorem not_mentions_ownTexts {placeholder : String} {c : Char} (hc : c ∈ placeholder.toList)
    (hletter : c = 'I' ∨ c = 'P') (action : Action) :
    ∀ own ∈ action.ownTexts, ¬ Text.Mentions placeholder own := by
  have hregister (register : Register) : ¬ Text.Mentions placeholder register.text := by
    intro hmentions
    have hmem := Text.mem_of_mentions hmentions c hc
    rcases hletter with rfl | rfl <;> cases register <;> revert hmem <;> decide
  have hoperator (operator : Operator) : ¬ Text.Mentions placeholder operator.text := by
    intro hmentions
    have hmem := Text.mem_of_mentions hmentions c hc
    rcases hletter with rfl | rfl <;> cases operator <;> revert hmem <;> decide
  have hnumber (number : Nat) : ¬ Text.Mentions placeholder (Text.decimal number) :=
    not_mentions_decimalInt hc (by rcases hletter with rfl | rfl <;> decide) number
  cases action <;> simp [ownTexts, hregister, hoperator, hnumber]

end Action

/-- Numbers and elements are no texts that statements have by themselves. -/
theorem valueText_not_mem_ownTexts (symbols : SymbolTable) {action : Action} {operand : Operand}
    (hnumbered : operand.mode.isNumbered = true) (hother : operand.mode ≠ .absolute)
    (hneeds : action.needsCell = true → operand.mode ≠ .immediate) :
    Routine.valueText symbols operand ∉ action.ownTexts := by
  have hfirst (text : String) (c : Char) (hc : text.toList.head? = some c)
      (hplain : c = '[' ∨ c.isDigit = true) :
      (∀ register : Register, text ≠ register.text) ∧ ∀ operator : Operator, text
        ≠ operator.text := by
    constructor
    · rintro register rfl
      cases register <;> cases hc <;> revert hplain <;> decide
    · rintro operator rfl
      cases operator <;> cases hc <;> revert hplain <;> decide
  cases operand with
  | immediate value =>
    obtain ⟨c, rest, hdigits, hdigit⟩ := Text.exists_decimalDigits value.toNat
    obtain ⟨hregister, hoperator⟩ := hfirst (Routine.valueText symbols (.immediate value)) c
      (by simp [Routine.valueText, Operand.value?, Text.decimal, hdigits]) (Or.inr hdigit)
    cases action with
    | change operator amount => exact absurd rfl (hneeds rfl)
    | _ => simp [Action.ownTexts, hregister, hoperator]
  | indexed base index =>
    have hhead : (Routine.valueText symbols (.indexed base index)).toList.head? = some '[' := by
      simp [Routine.valueText, Operand.value?, Text.toList_memoryText]
    obtain ⟨hregister, hoperator⟩ := hfirst _ '[' hhead (Or.inl rfl)
    have hnumber (number : Nat) :
        Routine.valueText symbols (.indexed base index) ≠ Text.decimal number := by
      intro heq
      have hplain := head?_decimal_append number ""
      rw [String.append_empty, ← heq] at hplain
      exact hplain hhead
    cases action <;> simp [Action.ownTexts, hregister, hoperator, hnumber]
  | absolute address => exact absurd rfl hother
  | _ => cases hnumbered

section Statements

variable {symbols : SymbolTable} {i : Instruction} (hnumbered : i.operand.mode.isNumbered = true)
  (hflow : i.mnemonic.isControlFlow = false)
include hnumbered hflow

/-- The statement of an instruction, as the statement of an action. -/
theorem exists_action (h : (Statement.rule? symbols i.toOperation).isSome = true) :
    ∃ action, i.mnemonic.action? = some action ∧
      (action.needsCell = true → i.operand.mode ≠ .immediate) ∧
      Statement.ofInstruction symbols i
        = { action.statement id (Routine.valueText symbols i.operand) with
          address := some i.address } := by
  obtain ⟨node, hnode⟩ := Option.isSome_iff_exists.mp h
  have hrule := hnode
  rw [Statement.rule?_eq_of_isNumbered symbols hnumbered hflow, Option.map_eq_some_iff] at hrule
  obtain ⟨action, hfilter, rfl⟩ := hrule
  obtain ⟨haction, hneeds⟩ := Option.filter_eq_some_iff.mp hfilter
  refine ⟨action, haction, ?_, ?_⟩
  · intro hcell himmediate
    simp [hcell, himmediate] at hneeds
  · rw [Statement.ofInstruction, hnode, Option.getD_some]

omit hnumbered hflow in
/-- What is left of a statement when the operand text is replaced, and a placeholder in the new text
then gets an argument. -/
theorem replaceWord_substitute {action : Action} {placeholder : String}
    (hown : ∀ own ∈ action.ownTexts, ¬ Text.Mentions placeholder own) (argument text new : String) :
    (Routine.substitute text new (action.statement id text)).replaceWord placeholder argument
      = action.statement
        (fun own => if own = text then Text.replaceWord placeholder argument new else own)
        (Text.replaceWord placeholder argument new) := by
  rw [Action.substitute_statement, Action.replaceWord_statement]
  apply Action.statement_congr
  intro own hmem
  split
  · rfl
  · exact Text.replaceWord_of_not_mentions argument (hown own hmem)

/-- An operand that can be told from other texts is kept, for every operation of the same form. -/
theorem standsFor_of_isolatesOperand {reserved : List String}
    (hisolated : i.IsolatesOperand symbols reserved) {addresses : String → Option Address}
    {placeholder argument new : String}
    (hown : ∀ (action : Action), ∀ own ∈ action.ownTexts, ¬ Text.Mentions placeholder own)
    (hmentions : Text.Mentions placeholder new) {other : Operation}
    (hmnemonic : other.mnemonic = i.mnemonic) (hmode : other.operand.mode = i.operand.mode)
    (hmeans : Means addresses (Text.replaceWord placeholder argument new) other.operand) :
    (Routine.substitute (Routine.valueText symbols i.operand) new
      (Statement.ofInstruction symbols i)).StandsFor addresses
      placeholder argument other := by
  obtain ⟨action, haction, hneeds, hnode⟩ := exists_action hnumbered hflow hisolated.statement
  have hdistinct : Routine.valueText symbols i.operand ∉ action.ownTexts := by
    by_cases habsolute : i.operand.mode = .absolute
    · cases hoperand : i.operand with
      | absolute address =>
        have hname := hisolated.name address hoperand
        rw [Mnemonic.ownTexts, haction, List.mem_append, not_or] at hname
        exact hname.2
      | _ =>
        rw [hoperand] at habsolute
        cases habsolute
    · exact valueText_not_mem_ownTexts symbols hnumbered habsolute hneeds
  have hreplaced : action.statement
      (fun own => if own = Routine.valueText symbols i.operand
        then Text.replaceWord placeholder argument new else own)
      (Text.replaceWord placeholder argument new)
        = action.statement id (Text.replaceWord placeholder argument new) := by
    apply Action.statement_congr
    intro own hmem
    refine if_neg fun hsame => hdistinct ?_
    rwa [← hsame]
  rw [hnode]
  refine ⟨⟨new, ?_, hmentions⟩, fun store => ?_⟩
  · have hparams := action.operand_mem_params
      (fun own => if own = Routine.valueText symbols i.operand then new else own) new
    rwa [← Action.substitute_statement] at hparams
  · rw [← hmode] at hnumbered hneeds
    obtain ⟨after, hafter⟩ := Action.exists_effect? hnumbered hneeds store
    refine ⟨after, ?_, ?_⟩
    · change ((Routine.substitute _ new (action.statement id _)).replaceWord placeholder
          argument).effect? addresses store = _
      rw [replaceWord_substitute (hown action), hreplaced]
      exact Action.effect?_statement hmeans hafter
    · rw [Operation.effect?, hmnemonic, haction]
      exact hafter

/-- An operand that is kept for the instruction itself can be told from other texts. -/
theorem isolatesOperand_of_standsFor {reserved : List String}
    (hnames : ∀ address, Text.IsName (symbols.dataName address))
    {addresses : String → Option Address} {placeholder argument new : String}
    (hown : ∀ (action : Action), ∀ own ∈ action.ownTexts, ¬ Text.Mentions placeholder own)
    (hreserved : ∀ address, i.operand = .absolute address →
      symbols.dataName address ∈ reserved → ∀ store,
      (Reference.read (Text.replaceWord placeholder argument new)).cell? addresses store = none ∧
        (Reference.read (Text.replaceWord placeholder argument new)).value? addresses store = none)
    (hmeans : ∀ address, i.operand = .absolute address → symbols.dataName address ∉ reserved →
      Means addresses (Text.replaceWord placeholder argument new) (.absolute address) ∧
        (Text.replaceWord placeholder argument new).toList.head? = some '[')
    (h : (Routine.substitute (Routine.valueText symbols i.operand) new
      (Statement.ofInstruction symbols i)).StandsFor addresses
      placeholder argument i.toOperation) : i.IsolatesOperand symbols reserved := by
  have hrule : (Statement.rule? symbols i.toOperation).isSome = true := by
    by_contra hnone
    rw [Option.not_isSome_iff_eq_none] at hnone
    obtain ⟨param, hparam, -⟩ := h.mentions
    rw [Statement.ofInstruction, hnone] at hparam
    cases hparam
  refine ⟨hrule, fun address haddress hmem => ?_⟩
  obtain ⟨action, haction, hneeds, hnode⟩ := exists_action hnumbered hflow hrule
  have htext : Routine.valueText symbols i.operand = symbols.dataName address := by
    rw [haddress]
    rfl
  have heffect := h.effect
  rw [hnode] at heffect
  change ∀ store, ∃ after, ((Routine.substitute _ new (action.statement id _)).replaceWord
      placeholder argument).effect? addresses
    store = _ ∧ _ at heffect
  rw [replaceWord_substitute (hown action), htext] at heffect
  rw [Mnemonic.ownTexts, haction] at hmem
  by_cases hname : symbols.dataName address ∈ reserved
  · obtain ⟨after, hafter, -⟩ := heffect .onesAndTwos
    obtain ⟨hcell, hvalue⟩ := hreserved address haddress hname .onesAndTwos
    rw [Action.effect?_statement_eq_none _ hcell hvalue] at hafter
    cases hafter
  · obtain ⟨hmeans, hbracket⟩ := hmeans address haddress hname
    have hownText : symbols.dataName address ∈ action.ownTexts :=
      (List.mem_append.mp hmem).resolve_left hname
    obtain ⟨after, hafter, hsame⟩ := heffect .onesAndTwos
    rw [Operation.effect?, haction, Option.bind_some, haddress, ← hafter] at hsame
    exact Action.effect?_ne_of_mem_ownTexts (hnames address) hownText hmeans hbracket hsame.symm

end Statements

end Lift6502
