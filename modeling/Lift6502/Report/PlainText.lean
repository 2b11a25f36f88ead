import Lift6502.Report.Analysis
import Lift6502.Text.Decimal
import Lift6502.Text.Quoted

/-!
# Reports as text

Blocks with their instructions and successors, then the symbols, then the lines that were skipped.
-/

namespace Lift6502.Analysis

/-- An address with its name, if it has one. -/
def namedAddress (analysis : Analysis) (address : Address) : String :=
  match analysis.symbols.name? address with
  | some name => address.text ++ " (" ++ name ++ ")"
  | none => address.text

def successorLine (analysis : Analysis) (block : Block) : String :=
  match block.successors with
  | [] => "  No successors (terminal block)"
  | successors => "  Successors: " ++ ", ".intercalate (successors.map analysis.namedAddress)

def blockLines (analysis : Analysis) (block : Block) : List String :=
  ["Block at " ++ analysis.namedAddress block.start ++ ":"]
    ++ block.instructions.map (fun instruction => "  " ++ instruction.text)
    ++ [analysis.successorLine block, ""]

/-- A text filled up with blanks to a width. -/
def padded (width : Nat) (text : String) : String :=
  text ++ String.ofList (List.replicate (width - text.length) ' ')

def symbolLine (symbol : Symbol) : String :=
  "  " ++ symbol.address.text ++ "  " ++ padded 24 symbol.name ++ " " ++ symbol.kind.text

def skippedReportLine (line : SkippedLine) : String :=
  "  line " ++ Text.decimal line.number ++ ": " ++ Text.quoted line.text ++ " ("
    ++ line.error.message ++ ")"

def skippedLines : List SkippedLine → List String
  | [] => []
  | skipped =>
    ["", "Skipped lines: " ++ Text.decimal skipped.length] ++ skipped.map skippedReportLine

def textLines (analysis : Analysis) : List String :=
  ["Basic blocks: " ++ Text.decimal analysis.blocks.length, ""]
    ++ analysis.blocks.flatMap analysis.blockLines
    ++ ["Symbols: " ++ Text.decimal analysis.symbolList.length]
    ++ analysis.symbolList.map symbolLine
    ++ skippedLines analysis.skipped

/-- The report as text. -/
def toText (analysis : Analysis) : String := String.join (analysis.textLines.map (· ++ "\n"))

end Lift6502.Analysis
