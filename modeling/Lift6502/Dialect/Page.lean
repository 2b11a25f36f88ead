import Lift6502.Text.Decimal

/-!
# Lines of output

Programs are written line by line. A page either numbers its lines, from ten in steps of ten, or
indents them.
-/

namespace Lift6502

/-- A line of output and how deep it is indented. -/
structure PageLine where
  depth : Nat := 0
  text : String
  deriving DecidableEq

namespace Page

def firstNumber : Nat := 10

def numberStep : Nat := 10

/-- The number of the line at a position, counted from zero. Thirty-two bits hold the numbers of
fewer than 429496729 lines. -/
def lineNumber (position : Nat) : Nat := firstNumber + numberStep * position

/-- The number that the line after some lines has. A page without numbers stays at the first one. -/
def nextNumber (numbered : Bool) (count : Nat) : Nat :=
  if numbered then lineNumber count else firstNumber

/-- Four blanks for each level. -/
def indentation (depth : Nat) : String := String.ofList (List.replicate (4 * depth) ' ')

/-- A line as it is written at a position. Empty lines are not indented. -/
def lineText (numbered : Bool) (line : PageLine) (position : Nat) : String :=
  if numbered then Text.decimal (lineNumber position) ++ " " ++ line.text ++ "\n"
  else if line.text = "" then "\n"
  else indentation line.depth ++ line.text ++ "\n"

/-- All lines of a page. -/
def text (numbered : Bool) (lines : List PageLine) : String :=
  String.join (lines.zipIdx.map fun (line, position) => lineText numbered line position)

end Page

end Lift6502
