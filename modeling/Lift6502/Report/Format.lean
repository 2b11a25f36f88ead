import Lift6502.Report.Document
import Lift6502.Report.PlainText
import Lift6502.Report.SymbolSheet

/-!
# Formats of reports

A report is written as text, as JSON or as a sheet of the symbols.
-/

namespace Lift6502

inductive ReportFormat where
  | text | json | csv
  deriving DecidableEq

namespace ReportFormat

def all : List ReportFormat := [text, json, csv]

/-- The format that is chosen if nothing is said. -/
def standard : ReportFormat := text

def name : ReportFormat → String
  | text => "text"
  | json => "json"
  | csv => "csv"

/-- All names that a format is known by, in lower case. -/
def names : ReportFormat → List String
  | text => ["text", "txt"]
  | json => ["json"]
  | csv => ["csv"]

/-- The format with a name, in any case. All names are ASCII. -/
def read? (name : String) : Option ReportFormat :=
  let lower := name.map Char.toLower
  all.find? fun format => format.names.contains lower

/-- What is said of a name that no format has. -/
def unknownMessage (name : String) : String := "Unknown report format: " ++ name

/-- The extension of files. -/
def extension : ReportFormat → String
  | text => "txt"
  | json => "json"
  | csv => "csv"

end ReportFormat

/-- The report in a format. -/
def Analysis.report (analysis : Analysis) : ReportFormat → String
  | .text => analysis.toText
  | .json => analysis.toJson.print ++ "\n"
  | .csv => analysis.toSheet

end Lift6502
