import Lift6502.Machine.Instruction
import Lift6502.Symbol.Table
import Lift6502.Text.Decimal
import Lift6502.Tree.Node
import Lift6502.Tree.Reference

/-!
# Statements for single instructions

Every instruction becomes one node. Registers are the variables `A`, `X`, `Y` and `SP`; `FLAGS` holds
the result of the last comparison or test, next to `CARRY`, `OVERFLOW`, `DECIMAL` and `IRQ_DISABLE`;
`STACK` is the hardware stack. Additions and subtractions leave the carry out. An instruction that has
no meaning of its own here, because its mnemonic is unknown or cannot take its operand, becomes its
own text.
-/

namespace Lift6502

namespace Operand

/-- The operand as text of the program tree, if it names a value. -/
def value? (symbols : SymbolTable) : Operand → Option String
  | immediate value => some (Text.decimal value.toNat)
  | absolute address => some (symbols.dataName address)
  | indexed base index => some (Reference.memoryText (symbols.dataName base) index.text)
  | indirectIndexed pointer .y =>
    some (Reference.pointerText (symbols.dataName pointer.toUInt16) "Y")
  | indirectIndexed pointer .x =>
    some (Reference.pointerText (symbols.dataName pointer.toUInt16 ++ " + X") "0")
  | accumulator => some "A"
  | symbolic label => some label
  | implied | indirect _ => none

/-- The value of an operand that a load, a comparison or an arithmetic operation can take. -/
def argument? (symbols : SymbolTable) : Operand → Option String
  | accumulator => none
  | operand => operand.value? symbols

/-- The operand as a place that can be written. -/
def place? (symbols : SymbolTable) : Operand → Option String
  | accumulator | immediate _ => none
  | operand => operand.value? symbols

/-- The operand of a shift, which is the accumulator if none is written. -/
def shifted? (symbols : SymbolTable) : Operand → Option String
  | implied | accumulator => some "A"
  | operand => operand.place? symbols

/-- The operand as the label of a code address. -/
def codeLabel? (symbols : SymbolTable) : Operand → Option String
  | absolute address => some (symbols.codeName address)
  | symbolic label => some label
  | _ => none

end Operand

namespace Mnemonic

/-- The condition under which a conditional branch is taken. -/
def condition? : Mnemonic → Option (List String)
  | beq => some ["FLAGS", "=", "0"]
  | bne => some ["FLAGS", "<>", "0"]
  | bmi => some ["FLAGS", "<", "0"]
  | bpl => some ["FLAGS", ">=", "0"]
  | bcc => some ["CARRY", "=", "0"]
  | bcs => some ["CARRY", "=", "1"]
  | bvc => some ["OVERFLOW", "=", "0"]
  | bvs => some ["OVERFLOW", "=", "1"]
  | _ => none

/-- The destination and the source of an operation without operand that copies a value. -/
def copies? : Mnemonic → Option (String × String)
  | tax => some ("X", "A")
  | tay => some ("Y", "A")
  | txa => some ("A", "X")
  | tya => some ("A", "Y")
  | tsx => some ("X", "SP")
  | txs => some ("SP", "X")
  | clc => some ("CARRY", "0")
  | sec => some ("CARRY", "1")
  | clv => some ("OVERFLOW", "0")
  | cld => some ("DECIMAL", "0")
  | sed => some ("DECIMAL", "1")
  | cli => some ("IRQ_DISABLE", "0")
  | sei => some ("IRQ_DISABLE", "1")
  | pha => some ("STACK", "A")
  | php => some ("STACK", "FLAGS")
  | pla => some ("A", "STACK")
  | plp => some ("FLAGS", "STACK")
  | _ => none

/-- The operator of an operation that combines the accumulator with its operand. -/
def operator? : Mnemonic → Option String
  | adc => some "+"
  | sbc => some "-"
  | and => some "AND"
  | ora => some "OR"
  | eor => some "XOR"
  | _ => none

end Mnemonic

namespace Statement

/-- The assignment `destination = source`. -/
def copy (destination source : String) : Node :=
  { kind := .assign, params := [destination, source] }

/-- The assignment `place = place operator right`. -/
def update (place operator right : String) : Node :=
  { kind := .assign, params := [place, place, operator, right] }

/-- The assignment `FLAGS = left operator right`. -/
def test (left operator right : String) : Node :=
  { kind := .expr, value := "FLAGS", params := [left, operator, right] }

/-- A call of a routine: of the ROM if the symbol table says so. -/
def call? (symbols : SymbolTable) (operand : Operand) : Option Node :=
  let plain := (operand.codeLabel? symbols).map fun name => ({ kind := .subCall, value := name } : Node)
  match operand with
  | .absolute address =>
    if symbols.kind? address = some .kernalCall then
      some { kind := .romCall, value := symbols.codeName address,
             params := [Text.decimal address.toNat] }
    else plain
  | _ => plain

/-- The statement of an operation that takes no operand. -/
def implied? (mnemonic : Mnemonic) : Option Node :=
  match mnemonic with
  | .rts => some { kind := .leave }
  | .rti => some { kind := .leave, value := "interrupt" }
  | _ =>
    match mnemonic.copies?, mnemonic.step? with
    | some (destination, source), _ => some (copy destination source)
    | none, some (register, delta) => some (update register.text (if 0 < delta then "+" else "-") "1")
    | none, none => none

/-- The statement of an operation, if it has one. -/
def rule? (symbols : SymbolTable) (operation : Operation) : Option Node :=
  let operand := operation.operand
  match operation.mnemonic with
  | .lda => (operand.argument? symbols).map (copy "A")
  | .ldx => (operand.argument? symbols).map (copy "X")
  | .ldy => (operand.argument? symbols).map (copy "Y")
  | .sta => (operand.place? symbols).map (copy · "A")
  | .stx => (operand.place? symbols).map (copy · "X")
  | .sty => (operand.place? symbols).map (copy · "Y")
  | .inc => (operand.place? symbols).map (update · "+" "1")
  | .dec => (operand.place? symbols).map (update · "-" "1")
  | .asl | .rol => (operand.shifted? symbols).map (update · "*" "2")
  | .lsr | .ror => (operand.shifted? symbols).map (update · "/" "2")
  | .cmp => (operand.argument? symbols).map (test "A" "-")
  | .cpx => (operand.argument? symbols).map (test "X" "-")
  | .cpy => (operand.argument? symbols).map (test "Y" "-")
  | .bit => (operand.place? symbols).map (test "A" "AND")
  | .jsr => call? symbols operand
  | .jmp => (operand.codeLabel? symbols).map fun label => { kind := .goto, value := label }
  | mnemonic =>
    match mnemonic.operator?, mnemonic.condition? with
    | some operator, _ => (operand.argument? symbols).map (update "A" operator)
    | none, some condition =>
      (operand.codeLabel? symbols).map fun label =>
        { kind := .goto, value := label, params := condition }
    | none, none => if operand = .implied then implied? mnemonic else none

/-- The node that stands for one instruction. -/
def ofInstruction (symbols : SymbolTable) (instruction : Instruction) : Node :=
  let operation := instruction.toOperation
  let statement := (rule? symbols operation).getD { kind := .raw, value := operation.text }
  { statement with address := some instruction.address }

end Statement

end Lift6502
