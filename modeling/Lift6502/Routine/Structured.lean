import Lift6502.Routine.Usage
import Lift6502.Shape.Recognise
import Lift6502.Statement

/-!
# Structured code for shapes

Each shape has its nodes. Instructions that the shape absorbs have none of their own; all others keep
theirs, in order. A loop with its test at the top repeats the statements of its header at the end of
its body, because they are run again before each test.
-/

namespace Lift6502.Routine

/-- The statements of the instructions that a shape does not absorb, as far as they pass a filter. -/
def statements (symbols : SymbolTable) (found : Match) (keep : Instruction → Bool) : List Node :=
  (found.instructions.filter fun i => !found.absorbs i && keep i).map
    (Statement.ofInstruction symbols)

/-- The text of an operand, empty if it names no value. -/
def valueText (symbols : SymbolTable) (operand : Operand) : String :=
  (operand.value? symbols).getD ""

/-- The text of the tested register, empty if there is none. -/
def registerText (found : Match) : String := (found.register.map Register.text).getD ""

/-- The text of the subject, empty if there is none. -/
def subjectText (symbols : SymbolTable) (found : Match) : String :=
  (found.subject.map (valueText symbols)).getD ""

/-- The condition of a loop, with a comparison of the caller's choice. -/
def condition (symbols : SymbolTable) (found : Match) (comparison : Option Comparison) :
    List String :=
  [registerText found, (comparison.map Comparison.text).getD "", subjectText symbols found]

/-! ## Loops -/

/-- The bound and the step of a counted loop. -/
def boundAndStep (symbols : SymbolTable) (found : Match) : String × Int :=
  let (bound, size) := match found.operands with
    | [bound, .immediate step] => (valueText symbols bound, (step.toNat : Int))
    | _ => ("0", 1)
  (bound, if found.shape = .countDown then -size else size)

/-- A counted loop, after the statements in front of its top. -/
def counted (symbols : SymbolTable) (found : Match) : List Node :=
  let top := found.targets.head?.getD found.anchor
  let (bound, step) := boundAndStep symbols found
  statements symbols found (·.address < top) ++
    [{ kind := .forLoop
       value := registerText found
       params := [subjectText symbols found, bound, Text.decimalInt step]
       children := statements symbols found (top ≤ ·.address)
       address := some found.anchor }]

/-- A loop with its test at the top. -/
def topTested (symbols : SymbolTable) (found : Match) (condition : List String) : List Node :=
  match found.blocks with
  | [header, body] =>
    let test := statements symbols found fun i => header.contains i.address
    test ++
      [{ kind := .whileLoop
         params := condition
         children := (statements symbols found fun i => body.contains i.address) ++ test
         address := some found.anchor }]
  | _ => statements symbols found fun _ => true

/-- A loop with its test at the bottom, after the statements in front of its top. -/
def bottomTested (symbols : SymbolTable) (found : Match) : List Node :=
  statements symbols found (·.address < found.anchor) ++
    [{ kind := .doUntil
       params := condition symbols found found.comparison
       children := statements symbols found (found.anchor ≤ ·.address)
       address := some found.anchor }]

/-- A loop that ends once its condition holds. With its test at the top it runs while the condition does
not hold. -/
def untilLoop (symbols : SymbolTable) (found : Match) : List Node :=
  if found.blocks.length = 2 then
    topTested symbols found (condition symbols found (found.comparison.map Comparison.inverse))
  else bottomTested symbols found

/-! ## Tests -/

/-- A jump if the test succeeds. -/
def conditionalJump (symbols : SymbolTable) (test : Test) : Node :=
  { kind := .ifGoto
    value := symbols.codeName test.target
    params :=
      [test.register.text, test.takenWhen.text, valueText symbols test.compare.operand]
    address := some test.compare.address }

/-- Conditional jumps, each after the statements of its block. -/
def conditionals (symbols : SymbolTable) (found : Match) : List Node :=
  found.blocks.flatMap fun block =>
    (statements symbols found fun i => block.contains i.address)
      ++ (block.test?.map (conditionalJump symbols)).toList

/-- One case of a dispatch: it leaves the dispatch if its target is right behind it, else it jumps. -/
def dispatchCase (symbols : SymbolTable) (subject : String) (exit : Address) (test : Test) : Node :=
  let action : Node :=
    if test.target = exit then { kind := .exitSwitch }
    else { kind := .goto, value := symbols.codeName test.target }
  { kind := .case
    params := [subject, valueText symbols test.compare.operand]
    children := [action]
    address := some test.compare.address }

/-- A dispatch, after the statements of its first block. -/
def dispatch (symbols : SymbolTable) (found : Match) : List Node :=
  match found.blocks.head?, found.blocks.getLast? with
  | some first, some last =>
    let tests := found.blocks.filterMap Block.test?
    let subject := registerText found
    let anchor := (tests.head?.map (·.compare.address)).getD first.start
    (statements symbols found fun i => first.contains i.address) ++
      [{ kind := .switch
         value := subject
         children := tests.map (dispatchCase symbols subject last.nextAddress)
         address := some anchor }]
  | _, _ => []

/-! ## Records -/

/-- The name of the record at an address. -/
def recordName (base : Address) : String := "STRUCT_" ++ Text.hex4 base

/-- The name of a field. -/
def fieldName (number : Nat) : String := "F" ++ Text.decimal number

/-- A store to a field of a record, or the instruction's own statement. -/
def recordStatement (symbols : SymbolTable) (base : Address) (instruction : Instruction) : Node :=
  match Shape.storedPlace? instruction with
  | some address =>
    { kind := .assign
      params := [recordName base ++ "." ++ fieldName (address - base).toNat, "A"]
      address := some instruction.address }
  | none => Statement.ofInstruction symbols instruction

/-- A record that is initialised, and the statement that closes the block. -/
def record (symbols : SymbolTable) (found : Match) : List Node :=
  match found.subject, found.blocks.head? with
  | some (.absolute base), some block =>
    { kind := .structDef
      value := recordName base
      params := (List.range found.operands.length).map fieldName
      children := block.body.map (recordStatement symbols base)
      address := some block.start } ::
        (block.terminator?.map (Statement.ofInstruction symbols)).toList
  | some (.absolute _), none => []
  | _, _ => statements symbols found fun _ => true

/-! ## Repeated code -/

/-- Replaces every parameter of a node that has a given text. -/
def substitute (old new : String) (node : Node) : Node :=
  { node with params := node.params.map fun param => if param = old then new else param }

/-- The counter of unrolled loops. -/
def unrollCounter : String := "I"

/-- The counter times the stride of a variation. -/
def scaledCounter (variation : Variation) : String :=
  match variation.stride.getD 1 with
  | 1 => unrollCounter
  | stride => unrollCounter ++ " * " ++ Text.decimalInt stride

/-- An operand that differs, as its first value plus a multiple of the counter. A place in memory becomes
the start of an indexed variable. -/
def folded (symbols : SymbolTable) (usage : Usage) (variation : Variation) : Usage × String :=
  let index := scaledCounter variation
  match variation.values.head? with
  | some (.immediate first) =>
    (usage, if first = 0 then index else Text.decimal first.toNat ++ " + " ++ index)
  | some (.absolute first) =>
    let usage := usage.touch symbols first fun place => { place with indexed := true }
    (usage, Reference.memoryText (usage.variableAt symbols first).name index)
  | _ => (usage, index)

/-- The statements of the first of the repeated blocks, with the counter in the operands that differ. -/
def unrolledBody (symbols : SymbolTable) (varying : List Variation) (usage : Usage) :
    List (Instruction × Nat) → Usage × List Node
  | [] => (usage, [])
  | (instruction, position) :: rest =>
    let statement := Statement.ofInstruction symbols instruction
    let (usage, statement) := match varying.find? (·.position == position) with
      | some variation =>
        let (usage, new) := folded symbols usage variation
        (usage, substitute (valueText symbols instruction.operand) new statement)
      | none => (usage, statement)
    let (usage, statements) := unrolledBody symbols varying usage rest
    (usage, statement :: statements)

/-- A loop over what was unrolled. -/
def unrolled (symbols : SymbolTable) (usage : Usage) (found : Match) : Usage × List Node :=
  match found.blocks with
  | [] => (usage, [])
  | first :: _ =>
    let varying := (Block.variations? found.blocks).getD []
    let (usage, children) := unrolledBody symbols varying usage first.instructions.zipIdx
    (usage,
      [{ kind := .forLoop
         value := unrollCounter
         params := ["0", Text.decimal found.blocks.length, "1"]
         children
         address := some first.start }])

/-- The name of the template cut out of the code at an address. -/
def templateName (start : Address) : String := "MACRO_" ++ Text.hex4 start

/-- The name of a parameter, counted from zero. -/
def parameterName (slot : Nat) : String := "P" ++ Text.decimal (slot + 1)

/-- A parameter in the place of an operand. -/
def parameterText (operand : Operand) (slot : Nat) : String :=
  match operand with
  | .immediate _ => parameterName slot
  | .indexed _ index => Reference.pointerText (parameterName slot) index.text
  | _ => Reference.pointerText (parameterName slot) "0"

/-- A statement of a template, with a parameter in an operand that differs. -/
def templateStatement (symbols : SymbolTable) (varying : List Variation)
    (instruction : Instruction) (position : Nat) : Node :=
  let statement : Node := { Statement.ofInstruction symbols instruction with address := none }
  match varying.findIdx? (·.position == position) with
  | some slot =>
    substitute (valueText symbols instruction.operand) (parameterText instruction.operand slot)
      statement
  | none => statement

/-- The argument for an operand that differs. -/
def argumentText : Operand → String
  | .immediate value => Text.decimal value.toNat
  | operand => (operand.address?.map fun address => Text.decimal address.toNat).getD ""

/-- The call that stands for one of the repeated blocks, and the statement that closes the block. -/
def templateCall (symbols : SymbolTable) (name : String) (varying : List Variation)
    (block : Block) (position : Nat) : List Node :=
  { kind := .subCall
    value := name
    params := varying.map fun variation => (variation.values[position]?.map argumentText).getD ""
    address := some block.start } ::
      (block.terminator?.map (Statement.ofInstruction symbols)).toList

/-- Calls of a template, which is kept for the end of the program. -/
def template (symbols : SymbolTable) (usage : Usage) (found : Match) : Usage × List Node :=
  match found.blocks with
  | [] => (usage, [])
  | first :: _ =>
    let varying := (Block.variations? found.blocks).getD []
    let name := templateName first.start
    let body : Node :=
      { kind := .function
        value := name
        params := (List.range varying.length).map parameterName
        children := first.body.zipIdx.map fun (instruction, position) =>
          templateStatement symbols varying instruction position }
    ({ usage with templates := usage.templates ++ [body] },
      found.blocks.zipIdx.flatMap fun (block, position) =>
        templateCall symbols name varying block position)

/-! ## Global variables -/

/-- The nodes that announce the global variables which were not announced before. -/
def announce (symbols : SymbolTable) (usage : Usage) : List Instruction → Usage × List Node
  | [] => (usage, [])
  | instruction :: rest =>
    match instruction.operand.address? with
    | some address =>
      if instruction.isGlobalAccess && !usage.announced.contains address then
        let node : Node :=
          { kind := .globalVar
            value := (usage.variableAt symbols address).name
            params := ["$" ++ Text.hex4 address] }
        let (usage, nodes) :=
          announce symbols { usage with announced := usage.announced.insert address } rest
        (usage, node :: nodes)
      else announce symbols usage rest
    | none => announce symbols usage rest

/-! ## All shapes -/

/-- A block that is marked as something. -/
def marked (symbols : SymbolTable) (found : Match) : Node :=
  { kind := .block
    value := found.shape.description
    children := statements symbols found fun _ => true }

/-- The nodes of a shape. -/
def structured (symbols : SymbolTable) (usage : Usage) (found : Match) : Usage × List Node :=
  match found.shape with
  | .countUp | .countDown => (usage, counted symbols found)
  | .whileLoop =>
    (usage, topTested symbols found (condition symbols found found.comparison))
  | .untilLoop => (usage, untilLoop symbols found)
  | .conditional => (usage, conditionals symbols found)
  | .conditionalChain => (usage, [{ kind := .nestedIf, children := conditionals symbols found }])
  | .dispatch => (usage, dispatch symbols found)
  | .record => (usage, record symbols found)
  | .unrolled => unrolled symbols usage found
  | .template => template symbols usage found
  | .globalVariable =>
    let (usage, announcements) := announce symbols usage found.instructions
    (usage, announcements ++ statements symbols found fun _ => true)
  | .bitField | .pointer | .timer | .inputHandler | .interrupt => (usage, [marked symbols found])
  | .call | .jump | .plain => (usage, statements symbols found fun _ => true)

end Lift6502.Routine
