/-!
# Lines of a text

A line ends at a line feed, and a carriage return right before that line feed belongs to the ending.
Text after the last line feed is a line of its own unless it is empty, and keeps a carriage return.
-/

namespace Lift6502.Text

/-- Drops one carriage return at the end. -/
def stripReturn (line : List Char) : List Char :=
  if line.getLast? = some '\r' then line.dropLast else line

/-- The lines of a text, without their endings. -/
def lines (text : List Char) : List (List Char) :=
  let pieces := text.splitOn '\n'
  let ended := pieces.dropLast.map stripReturn
  match pieces.getLast? with
  | some (c :: rest) => ended ++ [c :: rest]
  | _ => ended

end Lift6502.Text
