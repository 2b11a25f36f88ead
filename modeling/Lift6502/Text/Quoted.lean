import Lift6502.Text.Blank
import Lift6502.Text.Unprintable

/-!
# Quoted text

Text is quoted so that nothing in it is invisible: the usual escapes for tab, line ends, NUL, quotes and
backslashes, and the code point in lower-case hexadecimal digits for everything else that is not shown.
-/

namespace Lift6502.Text

def isUnprintable (c : Char) : Bool := inRanges unprintableRanges c

/-- A code point between braces. -/
def escapeCode (c : Char) : List Char :=
  ['\\', 'u', '\x7b'] ++ Nat.toDigits 16 c.toNat ++ ['\x7d']

/-- A character as it is written between quotes. -/
def quoteChar (c : Char) : List Char :=
  match c with
  | '\x00' => ['\\', '0']
  | '\t' => ['\\', 't']
  | '\r' => ['\\', 'r']
  | '\n' => ['\\', 'n']
  | '"' => ['\\', '"']
  | '\\' => ['\\', '\\']
  | c => if isUnprintable c then escapeCode c else [c]

/-- A text between quotes. -/
def quoted (text : String) : String :=
  String.ofList ('"' :: text.toList.flatMap quoteChar ++ ['"'])

end Lift6502.Text
