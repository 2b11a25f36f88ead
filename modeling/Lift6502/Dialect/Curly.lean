import Lift6502.Dialect.Style
import Lift6502.Text.Decimal
import Lift6502.Text.Digits
import Lift6502.Tree.Reference

/-!
# C-like code

Memory is an array of bytes, variables are names for places in it, registers are globals, and every
routine is a function without a result.
-/

namespace Lift6502.Curly

def read (operand : String) : String :=
  match Reference.read operand with
  | .plain text => text
  | .indexed base index => "(&" ++ base ++ ")[" ++ index ++ "]"
  | .pointer base index => "mem[" ++ base ++ " + " ++ index ++ "]"

def comparison : Comparison → String
  | .eq => "=="
  | .ne => "!="
  | other => other.text

def operator : String → String
  | "AND" => "&"
  | "OR" => "|"
  | "XOR" => "^"
  | other => other

def spelling : Spelling :=
  { read
    write := fun destination value => read destination ++ " = " ++ value ++ ";"
    comparison
    operator
    comment := fun text => "/* " ++ text ++ " */" }

/-- The registers and flags that are bytes. -/
def byteState : List String :=
  ["A", "X", "Y", "SP", "CARRY", "OVERFLOW", "DECIMAL", "IRQ_DISABLE", "STACK"]

def signature (node : Node) : String :=
  if node.value = Program.mainName then "int main(void)"
  else if node.params.isEmpty then "void " ++ node.value ++ "(void)"
  else "void " ++ node.value ++ "(" ++ ", ".intercalate (node.params.map ("int " ++ ·)) ++ ")"

/-- The statement that steps a counter. -/
def stepText (counter : String) : Option String → String
  | none | some "1" => counter ++ "++"
  | some "-1" => counter ++ "--"
  | some step => counter ++ " += " ++ step

/-- Whether two operands are different numbers. -/
def distinctNumbers (left right : String) : Bool :=
  match Text.readInt? left, Text.readInt? right with
  | some left, some right => left ≠ right
  | _, _ => false

/-- A counted loop. If its first value differs from its bound, the first test passes and may stand in
front of the body. Else the counter may start on its bound and take all 256 values. -/
def countedLoop (node : Node) : Rendered :=
  let counter := node.value
  let first := (node.params[0]?.map read).getD ""
  let bound := (node.params[1]?.map read).getD ""
  let step := stepText counter node.params[2]?
  if distinctNumbers first bound then
    .around
      ["for (" ++ counter ++ " = " ++ first ++ "; " ++ counter ++ " != " ++ bound ++ "; " ++ step
        ++ ") \x7b"]
      ["\x7d"]
  else
    .around [counter ++ " = " ++ first ++ ";", "do \x7b"]
      ["    " ++ step ++ ";", "\x7d while (" ++ counter ++ " != " ++ bound ++ ");"]

def leave (node : Node) : Rendered :=
  match node.value with
  | "exit" => .line "return 0;"
  | "interrupt" => .line ("return; " ++ spelling.comment "RTI")
  | _ => .line "return;"

def conditionalJump (node : Node) : Rendered :=
  .line ("if (" ++ spelling.condition node.params ++ ") goto " ++ node.value ++ ";")

def render (_ : Places) (node : Node) : Rendered :=
  match node.kind with
  | .function => .around ["", signature node ++ " \x7b"] ["\x7d"]
  | .forLoop => countedLoop node
  | .whileLoop => .around ["while (" ++ spelling.condition node.params ++ ") \x7b"] ["\x7d"]
  | .doUntil => .around ["do \x7b"] ["\x7d while (" ++ spelling.inverted node.params ++ ");"]
  | .ifGoto => conditionalJump node
  | .switch => .around ["switch (" ++ read node.value ++ ") \x7b"] ["\x7d"]
  | .case => .around ["case " ++ (node.params[1]?.map read).getD "" ++ ":"] []
  | .subCall => .line (node.value ++ "(" ++ ", ".intercalate (node.params.map read) ++ ");")
  | .romCall => .line (node.value ++ "();")
  | .goto =>
    if node.params.isEmpty then .line ("goto " ++ node.value ++ ";") else conditionalJump node
  | .leave => leave node
  | .exitSwitch => .line "break;"
  | _ => spelling.statement node

def variableLine (place : Variable) : String :=
  "#define " ++ place.name ++ " mem[0x" ++ Text.hex4 place.address ++ "]"

def recordLine (node : Node) : String :=
  "static struct \x7b uint8_t " ++ ", ".intercalate node.params ++ "; \x7d " ++ node.value ++ ";"

def preamble (program : Program) : List String :=
  let definitions := program.variableMap.toList.map fun (_, place) => variableLine place
  let routines := program.root.children.filter (·.value != Program.mainName)
  [spelling.comment "Decompiled C64 program", "#include <stdint.h>", "",
   "static uint8_t mem[65536];", "static uint8_t " ++ ", ".intercalate byteState ++ ";",
   "static int16_t FLAGS;", "static int I;"]
    ++ (if definitions.isEmpty then [] else "" :: definitions)
    ++ program.records.map recordLine
    ++ [""]
    ++ program.romCalls.toList.map (fun (address, name) =>
      "extern void " ++ name ++ "(void); " ++ spelling.comment ("$" ++ Text.hex4 address))
    ++ program.externalCalls.toList.map (fun name => "extern void " ++ name ++ "(void);")
    ++ routines.map (fun node => signature node ++ ";")

def dialect : Dialect :=
  { spelling with
    numbered := false
    labelLine? := fun label => some (label ++ ":;")
    jumpTarget := fun _ label => label
    preamble
    postamble := fun _ => []
    render }

end Lift6502.Curly
