import Lift6502.Dialect.BasicText

/-!
# Line-numbered BASIC

Every jump goes to a line number, subroutines are targets of `GOSUB`, and routines of the ROM are
reached with `SYS`. A number that is not known yet is written as zero, and a label or routine that is
nowhere defined by its name.
-/

namespace Lift6502.Classic

def spelling : Spelling := BasicText.spelling '_' "REM"

/-- A line number, zero if it is not known. -/
def lineOrZero (line : Option Nat) : String := Text.decimal (line.getD 0)

def jumpTarget (places : Places) (label : String) : String :=
  ((places.label label).map Text.decimal).getD label

def conditionalJump (condition target : String) : String := "IF " ++ condition ++ " THEN " ++ target

/-- Whether control can run off the end of a routine. -/
def fallsOff (node : Node) : Bool :=
  match node.children.getLast? with
  | some last => last.kind != .leave && !(last.kind == .goto && last.params.isEmpty)
  | none => true

/-- The comment that opens a routine. -/
def heading (node : Node) : String :=
  let parameters := if node.params.isEmpty then "" else "(" ++ ", ".intercalate node.params ++ ") "
  spelling.comment ("==== " ++ node.value ++ " " ++ parameters ++ "====")

def function (node : Node) : Rendered :=
  let leave := if node.value = Program.mainName then "END" else "RETURN"
  .level [heading node] (if fallsOff node then [leave] else [])

/-- A test of one case, with a jump to where the case leads. -/
def caseTest (places : Places) (node : Node) : Rendered :=
  match node.params with
  | [subject, constant] =>
    let afterSwitch := lineOrZero places.switchStop
    let target := match node.children.head? with
      | some action => if action.kind = .goto then jumpTarget places action.value else afterSwitch
      | none => afterSwitch
    .line (conditionalJump (spelling.read subject ++ " = " ++ spelling.read constant) target)
  | _ => .line (spelling.comment "CASE")

/-- Arguments are passed in the variables `P1`, `P2` and so on. -/
def call (places : Places) (node : Node) : Rendered :=
  let target := ((places.routine node.value).map Text.decimal).getD node.value
  let arguments := node.params.zipIdx.map fun (argument, slot) =>
    "P" ++ Text.decimal (slot + 1) ++ " = " ++ spelling.read argument
  .line (": ".intercalate (arguments ++ ["GOSUB " ++ target]))

def romCall (node : Node) : Rendered :=
  match node.params.head? with
  | some address => .line ("SYS " ++ address ++ ": " ++ spelling.comment node.value)
  | none => .line (spelling.comment ("SYS " ++ node.value))

def goto (places : Places) (node : Node) : Rendered :=
  let target := jumpTarget places node.value
  if node.params.isEmpty then .line ("GOTO " ++ target)
  else .line (conditionalJump (spelling.condition node.params) target)

def leave (node : Node) : Rendered :=
  match node.value with
  | "exit" => .line "END"
  | "interrupt" => .line ("RETURN: " ++ spelling.comment "RTI")
  | _ => .line "RETURN"

def render (places : Places) (node : Node) : Rendered :=
  match node.kind with
  | .function => function node
  | .forLoop => .level [BasicText.forLine spelling.read node] [BasicText.nextLine node]
  | .whileLoop =>
    .level [conditionalJump (spelling.inverted node.params) (lineOrZero places.stop)]
      ["GOTO " ++ lineOrZero places.start]
  | .doUntil =>
    .level [] [conditionalJump (spelling.inverted node.params) (lineOrZero places.start)]
  | .ifGoto =>
    .line (conditionalJump (spelling.condition node.params) (jumpTarget places node.value))
  | .switch => .level []
  | .case => caseTest places node
  | .subCall => call places node
  | .romCall => romCall node
  | .goto => goto places node
  | .leave => leave node
  | .exitSwitch => .line ("GOTO " ++ lineOrZero places.switchStop)
  | _ => spelling.statement node

def preamble (program : Program) : List String :=
  let indexed := (program.variableMap.toList.map (·.2)).filter (·.indexed)
  spelling.comment "DECOMPILED C64 PROGRAM" :: indexed.map fun place => "DIM " ++ place.name ++ "(255)"

def dialect : Dialect :=
  { spelling with
    numbered := true
    labelLine? := fun _ => none
    jumpTarget
    preamble
    postamble := fun _ => []
    render }

end Lift6502.Classic
