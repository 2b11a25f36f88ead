import Lift6502.Dialect.BasicText
import Lift6502.Text.Digits

/-!
# Structured BASIC

Labels have names, routines are `SUB` procedures, and loops and switches are blocks. Everything is
declared, and routines without a body get an empty one.
-/

namespace Lift6502.Modern

def spelling : Spelling := BasicText.spelling '.' "'"

/-- The registers and flags that statements assign to. -/
def machineState : List String :=
  ["A", "X", "Y", "SP", "I", "FLAGS", "CARRY", "OVERFLOW", "DECIMAL", "IRQ_DISABLE", "STACK"]

/-- A routine with its parameters. -/
def signature (node : Node) : String :=
  if node.params.isEmpty then node.value
  else node.value ++ " (" ++ ", ".intercalate node.params ++ ")"

def leave (node : Node) : Rendered :=
  match node.value with
  | "exit" => .line "END"
  | "interrupt" => .line ("EXIT SUB " ++ spelling.comment "RTI")
  | _ => .line "EXIT SUB"

def conditionalJump (node : Node) : Rendered :=
  .line ("IF " ++ spelling.condition node.params ++ " THEN GOTO " ++ node.value)

def call (node : Node) : Rendered :=
  let arguments :=
    if node.params.isEmpty then ""
    else "(" ++ ", ".intercalate (node.params.map spelling.read) ++ ")"
  .line ("CALL " ++ node.value ++ arguments)

/-- A switch does not fall through from one case to the next, so leaving it needs no line. -/
def render (_ : Places) (node : Node) : Rendered :=
  match node.kind with
  | .function =>
    if node.value = Program.mainName then .level []
    else .around ["", "SUB " ++ signature node] ["END SUB"]
  | .forLoop => .around [BasicText.forLine spelling.read node] [BasicText.nextLine node]
  | .whileLoop => .around ["DO WHILE " ++ spelling.condition node.params] ["LOOP"]
  | .doUntil => .around ["DO"] ["LOOP UNTIL " ++ spelling.condition node.params]
  | .ifGoto => conditionalJump node
  | .switch => .around ["SELECT CASE " ++ spelling.read node.value] ["END SELECT"]
  | .case => .around ["CASE " ++ (node.params[1]?.map spelling.read).getD ""] []
  | .subCall => call node
  | .romCall => .line ("CALL " ++ node.value)
  | .goto => if node.params.isEmpty then .line ("GOTO " ++ node.value) else conditionalJump node
  | .leave => leave node
  | .exitSwitch => {}
  | _ => spelling.statement node

def variableLine (place : Variable) : String :=
  let size := if place.indexed then "(255)" else ""
  "DIM SHARED " ++ place.name ++ size ++ " AS INTEGER"

/-- The type of a record and the record itself. -/
def recordLines (node : Node) : List String :=
  ["TYPE " ++ node.value ++ "_T"]
    ++ node.params.map (fun field => "    " ++ field ++ " AS INTEGER")
    ++ ["END TYPE", "DIM SHARED " ++ node.value ++ " AS " ++ node.value ++ "_T"]

def preamble (program : Program) : List String :=
  let routines := program.root.children.filter (·.value != Program.mainName)
  let others := program.romCalls.toList.map (·.2) ++ program.externalCalls.toList
  let state := machineState.map (· ++ " AS INTEGER")
  [spelling.comment "Decompiled C64 program", ""]
    ++ routines.map (fun node => "DECLARE SUB " ++ signature node)
    ++ others.map (fun name => "DECLARE SUB " ++ name ++ " ()")
    ++ ["DIM SHARED " ++ ", ".intercalate state]
    ++ program.variableMap.toList.map (fun (_, place) => variableLine place)
    ++ program.records.flatMap recordLines
    ++ [""]

/-- A routine without a body. -/
def emptyRoutine (name note : String) : List String :=
  ["", "SUB " ++ name, "    " ++ spelling.comment note, "END SUB"]

def postamble (program : Program) : List String :=
  program.romCalls.toList.flatMap
      (fun (address, name) => emptyRoutine name ("ROM routine at $" ++ Text.hex4 address))
    ++ program.externalCalls.toList.flatMap (fun name => emptyRoutine name "outside the listing")

def dialect : Dialect :=
  { spelling with
    numbered := false
    labelLine? := fun label => some (label ++ ":")
    jumpTarget := fun _ label => label
    preamble
    postamble
    render }

end Lift6502.Modern
