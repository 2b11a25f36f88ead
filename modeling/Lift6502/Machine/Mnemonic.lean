import Lift6502.Machine.Register

/-!
# Mnemonics

The documented instruction set has one constructor each. Any other three letters a disassembler
prints, such as an undocumented operation, are kept as they are in upper case.
-/

namespace Lift6502

inductive Mnemonic where
  | adc | and | asl | bcc | bcs | beq | bit | bmi | bne | bpl | brk | bvc | bvs | clc | cld | cli
  | clv | cmp | cpx | cpy | dec | dex | dey | eor | inc | inx | iny | jmp | jsr | lda | ldx | ldy
  | lsr | nop | ora | pha | php | pla | plp | rol | ror | rti | rts | sbc | sec | sed | sei | sta
  | stx | sty | tax | tay | tsx | txa | txs | tya
  | other (spelling : String)
  deriving DecidableEq

namespace Mnemonic

/-- The upper-case spelling. -/
def text : Mnemonic → String
  | adc => "ADC" | and => "AND" | asl => "ASL" | bcc => "BCC" | bcs => "BCS" | beq => "BEQ"
  | bit => "BIT" | bmi => "BMI" | bne => "BNE" | bpl => "BPL" | brk => "BRK" | bvc => "BVC"
  | bvs => "BVS" | clc => "CLC" | cld => "CLD" | cli => "CLI" | clv => "CLV" | cmp => "CMP"
  | cpx => "CPX" | cpy => "CPY" | dec => "DEC" | dex => "DEX" | dey => "DEY" | eor => "EOR"
  | inc => "INC" | inx => "INX" | iny => "INY" | jmp => "JMP" | jsr => "JSR" | lda => "LDA"
  | ldx => "LDX" | ldy => "LDY" | lsr => "LSR" | nop => "NOP" | ora => "ORA" | pha => "PHA"
  | php => "PHP" | pla => "PLA" | plp => "PLP" | rol => "ROL" | ror => "ROR" | rti => "RTI"
  | rts => "RTS" | sbc => "SBC" | sec => "SEC" | sed => "SED" | sei => "SEI" | sta => "STA"
  | stx => "STX" | sty => "STY" | tax => "TAX" | tay => "TAY" | tsx => "TSX" | txa => "TXA"
  | txs => "TXS" | tya => "TYA"
  | other spelling => spelling

/-- The documented instruction set, in alphabetical order. -/
def documented : List Mnemonic :=
  [adc, and, asl, bcc, bcs, beq, bit, bmi, bne, bpl, brk, bvc, bvs, clc, cld, cli, clv, cmp, cpx, cpy,
   dec, dex, dey, eor, inc, inx, iny, jmp, jsr, lda, ldx, ldy, lsr, nop, ora, pha, php, pla, plp, rol,
   ror, rti, rts, sbc, sec, sed, sei, sta, stx, sty, tax, tay, tsx, txa, txs, tya]

/-- The mnemonic that a token spells in either case. -/
def read (token : String) : Mnemonic :=
  let upper := token.map Char.toUpper
  (documented.find? fun mnemonic => mnemonic.text == upper).getD (other upper)

def isDocumented : Mnemonic → Bool
  | other _ => false
  | _ => true

def isConditionalBranch : Mnemonic → Bool
  | bcc | bcs | beq | bmi | bne | bpl | bvc | bvs => true
  | _ => false

def isReturn : Mnemonic → Bool
  | rts | rti => true
  | _ => false

/-- Whether an operand of this mnemonic names code and not data. -/
def isControlFlow (mnemonic : Mnemonic) : Bool :=
  mnemonic.isConditionalBranch || mnemonic == jmp || mnemonic == jsr

/-- Whether no instruction may follow this one in its basic block. -/
def endsBlock (mnemonic : Mnemonic) : Bool :=
  mnemonic.isConditionalBranch || mnemonic.isReturn || mnemonic == jmp

/-- The register that a load writes. -/
def loads? : Mnemonic → Option Register
  | lda => some .a
  | ldx => some .x
  | ldy => some .y
  | _ => none

/-- The register that a store reads. -/
def stores? : Mnemonic → Option Register
  | sta => some .a
  | stx => some .x
  | sty => some .y
  | _ => none

/-- The register that a comparison reads. -/
def compares? : Mnemonic → Option Register
  | cmp => some .a
  | cpx => some .x
  | cpy => some .y
  | _ => none

/-- The index register that a step changes, and by how much. -/
def step? : Mnemonic → Option (Register × Int)
  | inx => some (.x, 1)
  | dex => some (.x, -1)
  | iny => some (.y, 1)
  | dey => some (.y, -1)
  | _ => none

/-- Whether the mnemonic overwrites a register. -/
def writes (mnemonic : Mnemonic) (register : Register) : Bool :=
  mnemonic.loads? == some register
    || (mnemonic.step?.any fun step => step.1 == register)
    || match register, mnemonic with
      | .x, tax | .x, tsx => true
      | .y, tay => true
      | .a, txa | .a, tya | .a, pla | .a, adc | .a, sbc | .a, and | .a, ora | .a, eor => true
      | _, _ => false

end Mnemonic

end Lift6502
