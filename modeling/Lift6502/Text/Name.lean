import Lift6502.Text.Blank

/-!
# Names

A name is a letter or underscore followed by letters, digits and underscores, all of them ASCII.
Symbol tables may hold any text as a name; `sanitize` turns it into a name, or into nothing if the
text is blank.
-/

namespace Lift6502.Text

def isNameStart (c : Char) : Bool := c.isAlpha || c == '_'

def isNameChar (c : Char) : Bool := c.isAlphanum || c == '_'

/-- Cuts the longest name off the front. -/
def takeName? : List Char → Option (List Char × List Char)
  | c :: rest =>
    if isNameStart c then some (c :: rest.takeWhile isNameChar, rest.dropWhile isNameChar) else none
  | [] => none

/-- The trimmed text with an underscore for every character that no name holds, and one more in front
of a leading digit. -/
def sanitize (raw : String) : String :=
  match (trim raw.toList).map fun c => if isNameChar c then c else '_' with
  | c :: rest => String.ofList (if c.isDigit then '_' :: c :: rest else c :: rest)
  | [] => ""

end Lift6502.Text
