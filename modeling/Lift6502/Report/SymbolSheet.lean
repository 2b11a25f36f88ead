import Lift6502.Report.Analysis

/-!
# The symbols as a sheet

Comma-separated values: one record for each symbol, and a heading if there is any. A field is quoted only
if it holds a comma, a quote or a line end, and a quote inside is written twice.
-/

namespace Lift6502.Analysis

/-- Whether a field with this character has to be quoted. -/
def needsQuotes (c : Char) : Bool := c == ',' || c == '"' || c == '\r' || c == '\n'

def sheetField (text : String) : String :=
  if text.toList.any needsQuotes then
    String.ofList ('"' :: text.toList.flatMap (fun c => if c = '"' then ['"', '"'] else [c]) ++ ['"'])
  else text

def sheetRecord (fields : List String) : String := ",".intercalate (fields.map sheetField) ++ "\n"

def symbolFields (symbol : Symbol) : List String :=
  [symbol.address.text, symbol.name, symbol.kind.text, symbol.description.getD ""]

/-- The sheet, which is empty if there are no symbols. -/
def toSheet (analysis : Analysis) : String :=
  match analysis.symbolList with
  | [] => ""
  | symbols =>
    String.join
      ((["address", "name", "kind", "description"] :: symbols.map symbolFields).map sheetRecord)

end Lift6502.Analysis
