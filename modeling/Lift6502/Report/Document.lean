import Lift6502.Json.Printer
import Lift6502.Report.Analysis

/-!
# Reports as JSON

The report is an object with the blocks, the symbols and the skipped lines. Addresses of code are written
in hexadecimal, those of symbols as numbers.
-/

namespace Lift6502.Analysis

def blockJson (block : Block) : Json :=
  .object
    [("start", .string block.start.text), ("end", .string block.finish.text),
     ("instructions", .array (block.instructions.map fun i => .string i.toOperation.text)),
     ("successors", .array (block.successors.map fun address => .string address.text))]

def symbolJson (symbol : Symbol) : Json :=
  .object
    ([("address", Json.ofNat symbol.address.toNat), ("name", .string symbol.name),
      ("kind", .string symbol.kind.text)]
      ++ (symbol.description.map fun text => ("description", Json.string text)).toList)

def skippedJson (line : SkippedLine) : Json :=
  .object
    [("line", Json.ofNat line.number), ("text", .string line.text),
     ("reason", .string line.error.message)]

def toJson (analysis : Analysis) : Json :=
  .object
    [("blocks", .array (analysis.blocks.map blockJson)),
     ("symbols", .array (analysis.symbolList.map symbolJson)),
     ("skipped", .array (analysis.skipped.map skippedJson))]

end Lift6502.Analysis
