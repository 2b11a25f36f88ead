import Lift6502.Proofs.Routine.Repetitions
import Lift6502.Proofs.Tree.TextValues

/-!
# The forms of statements

The statement of an operation that takes an operand with a number consists of the text of the
operand and of texts of its own: the name of a register, an operator, a constant. If the operand
text means the operand, the statement does what the operation does. If one of its own texts is taken
for the operand, it does something else.
-/

namespace Lift6502

namespace Action

/-- The statement of an action, with texts for the operand and for what the statement says by
itself. -/
def statement (own : String → String) (operand : String) : Action → Node
  | load register => Statement.copy (own register.text) operand
  | .store register => Statement.copy operand (own register.text)
  | change operator amount =>
    Statement.update operand (own operator.text) (own (Text.decimal amount.toNat))
  | combine operator => Statement.update (own Register.a.text) (own operator.text) operand
  | test register operator => Statement.test (own register.text) (own operator.text) operand

/-- What the statement of an action says by itself. -/
def ownTexts : Action → List String
  | load register | .store register => [register.text]
  | change operator amount => [operator.text, Text.decimal amount.toNat]
  | combine operator => [Register.a.text, operator.text]
  | test register operator => [register.text, operator.text]

/-- Whether the operand of an action has to be a place in memory. -/
def needsCell : Action → Bool
  | load _ | combine _ => false
  | .store _ | change .. => true
  | test _ operator => operator == .and

end Action

namespace Statement

/-- The statement of an operation on an operand that can be written. -/
theorem rule?_eq_of_place (symbols : SymbolTable) {mnemonic : Mnemonic} {operand : Operand}
    {text : String} (hflow : mnemonic.isControlFlow = false)
    (hargument : operand.argument? symbols = some text)
    (hplace : operand.place? symbols = some text)
    (hshifted : operand.shifted? symbols = some text) (hother : operand ≠ .implied) :
    rule? symbols ⟨mnemonic, operand⟩ = mnemonic.action?.map (·.statement id text) := by
  have hone : "1" = Text.decimal (1 : UInt8).toNat := by decide +kernel
  have htwo : "2" = Text.decimal (2 : UInt8).toNat := by decide +kernel
  simp only [rule?, hargument, hplace, hshifted, if_neg hother]
  cases mnemonic
  case inc | dec => exact congrArg (fun amount => some (update text _ amount)) hone
  case asl | rol | lsr | ror => exact congrArg (fun amount => some (update text _ amount)) htwo
  case bcc | bcs | beq | bmi | bne | bpl | bvc | bvs | jmp | jsr => cases hflow
  all_goals rfl

/-- The statement of an operation on an operand with a number. -/
theorem rule?_eq_of_isNumbered (symbols : SymbolTable) {operation : Operation}
    (hnumbered : operation.operand.mode.isNumbered = true)
    (hflow : operation.mnemonic.isControlFlow = false) :
    rule? symbols operation
      = (operation.mnemonic.action?.filter fun action =>
        !(action.needsCell && operation.operand.mode == .immediate)).map
          (·.statement id (Routine.valueText symbols operation.operand)) := by
  obtain ⟨mnemonic, operand⟩ := operation
  cases operand with
  | immediate value =>
    cases mnemonic
    case bcc | bcs | beq | bmi | bne | bpl | bvc | bvs | jmp | jsr => cases hflow
    all_goals rfl
  | absolute address | indexed base index =>
    rw [rule?_eq_of_place symbols hflow rfl rfl rfl (by simp)]
    cases mnemonic.action? <;> simp [Operand.mode, Routine.valueText, Operand.value?]
  | _ => cases hnumbered

end Statement

/-! ### Replacing texts of a statement -/

/-- A node with another word in every place of a given one. -/
def Node.replaceWord (old new : String) (node : Node) : Node :=
  { node with params := node.params.map (Text.replaceWord old new) }

namespace Action

theorem substitute_statement (action : Action) (operand new : String) :
    Routine.substitute operand new (action.statement id operand)
      = action.statement (fun own => if own = operand then new else own) new := by
  cases action <;> simp [statement, Statement.copy, Statement.update, Statement.test,
    Routine.substitute]

theorem replaceWord_statement (action : Action) (old new : String) (own : String → String)
    (operand : String) :
    (action.statement own operand).replaceWord old new
      = action.statement (fun text => Text.replaceWord old new (own text)) (Text.replaceWord old new
        operand) := by
  cases action <;> rfl

theorem statement_congr {action : Action} {own other : String → String}
    (h : ∀ text ∈ action.ownTexts, own text = other text) (operand : String) :
    action.statement own operand = action.statement other operand := by
  cases action <;> simp_all [statement, ownTexts]

theorem operand_mem_params (action : Action) (own : String → String) (operand : String) :
    operand ∈ (action.statement own operand).params := by
  cases action <;> simp [statement, Statement.copy, Statement.update, Statement.test]

end Action

/-! ### What statements do -/

/-- Whether a text means an operand. -/
structure Means (addresses : String → Option Address) (text : String) (operand : Operand) :
    Prop where
  value : ∀ store value, operand.valueIn? store = some value →
    (Reference.read text).value? addresses store = some value
  cell : ∀ store cell, operand.cellIn? store = some cell →
    (Reference.read text).cell? addresses store = some cell

namespace Action

variable {addresses : String → Option Address} {action : Action}

/-- A statement whose operand text means the operand does what the operation does. -/
theorem effect?_statement {text : String} {operand : Operand}
    (hmeans : Means addresses text operand) {store after : Store}
    (heffect : action.effect? operand store = some after) :
    (action.statement id text).effect? addresses store = some after := by
  cases action with
  | load register =>
    obtain ⟨value, hvalue, rfl⟩ := Option.map_eq_some_iff.mp heffect
    simp [statement, Statement.copy, Node.effect?, Reference.cell?_register,
      hmeans.value store value hvalue]
  | store register =>
    obtain ⟨cell, hcell, rfl⟩ := Option.map_eq_some_iff.mp heffect
    simp [statement, Statement.copy, Node.effect?, Reference.value?_register,
      hmeans.cell store cell hcell]
  | change operator amount =>
    obtain ⟨cell, hcell, rfl⟩ := Option.map_eq_some_iff.mp heffect
    have hvalue : operand.valueIn? store = some (store.get cell) := by
      cases operand <;> cases hcell <;> rfl
    simp [statement, Statement.update, Node.effect?, combined?, Operator.read?_text,
      Reference.value?_decimal, hmeans.cell store cell hcell, hmeans.value store _ hvalue]
  | combine operator =>
    obtain ⟨value, hvalue, rfl⟩ := Option.map_eq_some_iff.mp heffect
    simp [statement, Statement.update, Node.effect?, combined?, Operator.read?_text,
      Reference.value?_register, Reference.cell?_register, hmeans.value store value hvalue]
  | test register operator =>
    obtain ⟨value, hvalue, rfl⟩ := Option.map_eq_some_iff.mp heffect
    simp [statement, Statement.test, Node.effect?, combined?, Operator.read?_text,
      Reference.value?_register, hmeans.value store value hvalue]

/-- A statement whose operand text means nothing does nothing. -/
theorem effect?_statement_eq_none {text : String} {store : Store} (own : String → String)
    (hcell : (Reference.read text).cell? addresses store = none)
    (hvalue : (Reference.read text).value? addresses store = none) :
    (action.statement own text).effect? addresses store = none := by
  cases action <;>
    simp [statement, Statement.copy, Statement.update, Statement.test, Node.effect?, combined?,
      hcell, hvalue]

end Action

/-! ### Statements that are confused -/

theorem Operator.read?_of_head? {text : String} (h : text.toList.head? = some '[') :
    Operator.read? text = none := by
  rw [read?, List.find?_eq_none]
  rintro operator - heq
  rw [← beq_iff_eq.mp heq] at h
  cases operator <;> cases h

/-- Registers that hold one, and memory that holds two. -/
def Store.onesAndTwos : Store := ⟨fun _ => 1, fun _ => 2, 0⟩

namespace Action

variable {addresses : String → Option Address} {action : Action}

/-- If a text of its own is taken for the operand, a statement does not do what the operation
does. -/
theorem effect?_ne_of_mem_ownTexts {name new : String} {address : Address}
    (hname : Text.IsName name) (hown : name ∈ action.ownTexts)
    (hmeans : Means addresses new (.absolute address)) (hbracket : new.toList.head? = some '[') :
    (action.statement (fun own => if own = name then new else own) new).effect? addresses
      .onesAndTwos
      ≠ action.effect? (.absolute address) .onesAndTwos := by
  have hvalue := hmeans.value .onesAndTwos 2 rfl
  have hcell := hmeans.cell .onesAndTwos (.memory address) rfl
  have hoperator := Operator.read?_of_head? hbracket
  intro heq
  cases action with
  | load register =>
    obtain rfl := List.mem_singleton.mp hown
    simp only [statement, Statement.copy, Node.effect?, if_true, hcell, hvalue, Option.bind_some,
      Option.map_some] at heq
    have hregister := congrArg (fun store => store.map (·.registers register)) heq
    simp [effect?, Operand.valueIn?, Operand.cellIn?, Store.set, Store.get, Store.onesAndTwos]
      at hregister
  | store register =>
    obtain rfl := List.mem_singleton.mp hown
    simp only [statement, Statement.copy, Node.effect?, if_true, hcell, hvalue, Option.bind_some,
      Option.map_some] at heq
    have hbyte := congrArg (fun store => store.map (·.memory address)) heq
    simp [effect?, Operand.cellIn?, Store.set, Store.onesAndTwos] at hbyte
  | change operator amount =>
    rcases List.mem_pair.mp hown with rfl | rfl
    · simp [statement, Statement.update, Node.effect?, combined?, hoperator, effect?,
        Operand.cellIn?] at heq
    · exact Text.not_isName_decimal _ hname
  | combine operator =>
    rcases List.mem_pair.mp hown with rfl | rfl
    · have hother : operator.text ≠ Register.a.text := by cases operator <;> decide
      simp only [statement, Statement.update, Node.effect?, combined?, if_true, if_neg hother,
        Operator.read?_text, hcell, hvalue, Option.bind_some, Option.map_some] at heq
      have hregister : 1 = operator.apply 1 2 := by
        simpa [effect?, Operand.valueIn?, Operand.cellIn?, Store.set, Store.get, Store.onesAndTwos]
          using congrArg (fun store => store.map (·.registers .a)) heq
      cases operator <;> exact absurd hregister (by decide)
    · simp [statement, Statement.update, Node.effect?, combined?, hoperator, effect?,
        Operand.valueIn?, Operand.cellIn?] at heq
  | test register operator =>
    rcases List.mem_pair.mp hown with rfl | rfl
    · have hother : operator.text ≠ register.text := by cases operator <;> cases register <;> decide
      simp only [statement, Statement.test, Node.effect?, combined?, if_true, if_neg hother,
        Operator.read?_text, hvalue, Option.bind_some, Option.map_some] at heq
      have hflags : operator.apply 2 2 = operator.apply 1 2 := by
        simpa [effect?, Operand.valueIn?, Operand.cellIn?, Store.get, Store.onesAndTwos] using
          congrArg (fun store => store.map (·.flags)) heq
      cases operator <;> exact absurd hflags (by decide)
    · simp [statement, Statement.test, Node.effect?, combined?, hoperator, effect?,
        Operand.valueIn?, Operand.cellIn?] at heq

end Action

end Lift6502
