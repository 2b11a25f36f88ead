import Lift6502.Shape.Match

/-!
# Traits of single blocks

A block that no structure claims may still be recognised by one instruction in it: what it does to
memory and to the hardware.
-/

namespace Lift6502

namespace Instruction

def isStore (instruction : Instruction) : Bool := instruction.mnemonic.stores?.isSome

def isLoad (instruction : Instruction) : Bool := instruction.mnemonic.loads?.isSome

/-- Whether the data address satisfies a test. -/
def touches (instruction : Instruction) (test : Address → Bool) : Bool :=
  instruction.dataAddress?.any test

/-- A mask with an immediate value, or a bit test. -/
def masksBits (instruction : Instruction) : Bool :=
  match instruction.mnemonic, instruction.operand with
  | .and, .immediate _ | .ora, .immediate _ | .eor, .immediate _ => true
  | .bit, _ => true
  | _, _ => false

/-- A load or store of the accumulator at `$C000` or above, outside the input and output area. -/
def isGlobalAccess (instruction : Instruction) : Bool :=
  (instruction.mnemonic == .lda || instruction.mnemonic == .sta) && match instruction.operand with
    | .absolute address =>
      0xC000 ≤ address && !(Address.ioStart ≤ address && address ≤ Address.ioEnd)
    | _ => false

def usesPointer (instruction : Instruction) : Bool :=
  match instruction.operand with
  | .indirectIndexed .. => true
  | _ => false

/-- The latches and control registers of the timers. -/
def isTimerRegister (address : Address) : Bool :=
  (0xDC04 ≤ address && address ≤ 0xDC07) || (0xDD04 ≤ address && address ≤ 0xDD07)
    || (0xDC0E ≤ address && address ≤ 0xDC0F) || (0xDD0E ≤ address && address ≤ 0xDD0F)

def setsTimer (instruction : Instruction) : Bool :=
  instruction.isStore && instruction.touches isTimerRegister

/-- The ports of keyboard and joysticks. -/
def isInputPort (address : Address) : Bool := address == 0xDC00 || address == 0xDC01

def readsInput (instruction : Instruction) : Bool :=
  (instruction.isLoad || instruction.mnemonic == .bit) && instruction.touches isInputPort

/-- The interrupt vectors in memory, and those of the processor. -/
def isInterruptVector (address : Address) : Bool :=
  address == 0x0314 || address == 0x0315 || address == 0x0318 || address == 0x0319
    || 0xFFFA ≤ address

def concernsInterrupt (instruction : Instruction) : Bool :=
  instruction.mnemonic == .brk || instruction.mnemonic == .rti
    || (instruction.isStore && instruction.touches isInterruptVector)

end Instruction

namespace Shape

/-- Claims the first block if one of its instructions satisfies a test. -/
def detectTrait (shape : Shape) (test : Instruction → Bool) : Detector := fun _ blocks => do
  let block ← blocks.head?
  let hit ← block.instructions.find? test
  return { shape, blocks := [block], subject := some hit.operand }

def detectBitField : Detector := detectTrait .bitField Instruction.masksBits

def detectGlobalVariable : Detector := detectTrait .globalVariable Instruction.isGlobalAccess

def detectPointer : Detector := detectTrait .pointer Instruction.usesPointer

def detectTimer : Detector := detectTrait .timer Instruction.setsTimer

def detectInputHandler : Detector := detectTrait .inputHandler Instruction.readsInput

def detectInterrupt : Detector := detectTrait .interrupt Instruction.concernsInterrupt

end Shape

end Lift6502
