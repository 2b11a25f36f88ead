import Lift6502.Flow.Block
import Lift6502.Listing.Line
import Lift6502.Symbol.Table

/-!
# What reports are about

An analysis is what was found in a listing before its code was structured.
-/

namespace Lift6502

structure Analysis where
  blocks : List Block
  symbols : SymbolTable
  skipped : List SkippedLine

/-- The symbols in ascending order of their addresses. -/
def Analysis.symbolList (analysis : Analysis) : List Symbol :=
  analysis.symbols.symbols.toList.map (·.2)

/-- An address in hexadecimal. -/
def Address.text (address : Address) : String := "$" ++ Text.hex4 address

end Lift6502
