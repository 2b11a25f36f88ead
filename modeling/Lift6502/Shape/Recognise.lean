import Lift6502.Shape.Loop
import Lift6502.Shape.Record
import Lift6502.Shape.Repetition
import Lift6502.Shape.Trait

/-!
# Recognising shapes

The detectors are asked one after the other, and the first that claims blocks is right. A block that
nobody claims is plain code.
-/

namespace Lift6502.Shape

/-- All detectors, in the order in which they are asked. -/
def detectors : List Detector :=
  [detectCounted, detectTestedLoop, detectConditional, detectDispatch, detectCall, detectRecord,
   detectRepetition, detectBitField, detectGlobalVariable, detectPointer, detectTimer,
   detectInputHandler, detectInterrupt]

/-- What the blocks at the front are. -/
def recognise (symbols : SymbolTable) (blocks : List Block) : Match :=
  (detectors.findSome? fun detect => detect symbols blocks).getD
    { shape := .plain, blocks := blocks.take 1 }

end Lift6502.Shape
