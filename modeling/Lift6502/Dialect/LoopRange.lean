import Lift6502.Text.Decimal
import Lift6502.Tree.Node

/-!
# Ranges of counted loops

The counter of a loop is a byte and its bound is tested after each step, so a bound at or behind the
first value is only reached by wrapping around 256. A range has to name the last value instead.
-/

namespace Lift6502

/-- The first and the last value of a counter, and its step. -/
structure LoopRange where
  first : String
  last : String
  step : Int
  deriving DecidableEq

namespace LoopRange

/-- The first and the last value for a first value and a bound. For numbers of less than thirty bits
all this is reckoned in thirty-two. -/
def ofNumbers (first bound step : Int) : Int × Int :=
  if 0 < step then (first, (if first < bound then bound else bound + 256) - step)
  else (if bound < first then first else first + 256, bound - step)

/-- The last value before a bound that is no number. -/
def beforeBound (bound : String) (step : Int) : String :=
  if step < 0 then bound ++ " + " ++ Text.decimalInt (-step)
  else bound ++ " - " ++ Text.decimalInt step

/-- The range of a loop node. A first value that does not change keeps its spelling. -/
def ofNode (node : Node) : LoopRange :=
  let step := (node.params[2]?.bind Text.readInt?).getD 1
  let first := node.params[0]?.getD "0"
  let bound := node.params[1]?.getD "0"
  match Text.readInt? first, Text.readInt? bound with
  | some firstNumber, some boundNumber =>
    let (start, last) := ofNumbers firstNumber boundNumber step
    { first := if 0 < step then first else Text.decimalInt start
      last := Text.decimalInt last
      step }
  | _, _ => { first, last := beforeBound bound step, step }

end LoopRange

end Lift6502
