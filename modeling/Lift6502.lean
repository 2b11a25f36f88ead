import Lift6502.Command.Arguments
import Lift6502.Command.Execute
import Lift6502.Command.Session
import Lift6502.Command.Settings
import Lift6502.Decompile
import Lift6502.Dialect.BasicText
import Lift6502.Dialect.Classic
import Lift6502.Dialect.Curly
import Lift6502.Dialect.Emission
import Lift6502.Dialect.Layout
import Lift6502.Dialect.LoopRange
import Lift6502.Dialect.Modern
import Lift6502.Dialect.Page
import Lift6502.Dialect.Style
import Lift6502.Dialect.Target
import Lift6502.Files.Path
import Lift6502.Files.Tree
import Lift6502.Flow.Block
import Lift6502.Flow.BlockIndex
import Lift6502.Json.Printer
import Lift6502.Json.Reader
import Lift6502.Json.Token
import Lift6502.Json.Value
import Lift6502.Listing.Candidates
import Lift6502.Listing.Line
import Lift6502.Listing.Reader
import Lift6502.Listing.Scan
import Lift6502.Machine.Address
import Lift6502.Machine.Instruction
import Lift6502.Machine.Mnemonic
import Lift6502.Machine.Operand
import Lift6502.Machine.Register
import Lift6502.Main
import Lift6502.Report.Analysis
import Lift6502.Report.Document
import Lift6502.Report.Format
import Lift6502.Report.PlainText
import Lift6502.Report.SymbolSheet
import Lift6502.Routine.Build
import Lift6502.Routine.Labels
import Lift6502.Routine.Structured
import Lift6502.Routine.Usage
import Lift6502.Shape.Loop
import Lift6502.Shape.Match
import Lift6502.Shape.Recognise
import Lift6502.Shape.Record
import Lift6502.Shape.Repetition
import Lift6502.Shape.Test
import Lift6502.Shape.Trait
import Lift6502.Statement
import Lift6502.Symbol.Commodore
import Lift6502.Symbol.Entry
import Lift6502.Symbol.Sources
import Lift6502.Symbol.Table
import Lift6502.Symbol.TableFile
import Lift6502.Text.Blank
import Lift6502.Text.Decimal
import Lift6502.Text.Digits
import Lift6502.Text.Lines
import Lift6502.Text.Name
import Lift6502.Text.Quoted
import Lift6502.Text.Unprintable
import Lift6502.Tree.Comparison
import Lift6502.Tree.Encoding
import Lift6502.Tree.Node
import Lift6502.Tree.Program
import Lift6502.Tree.Reference
import Lift6502.Proofs.Flow.Partition
import Lift6502.Proofs.Shape.Recognition
import Lift6502.Proofs.Routine.Matches
import Lift6502.Proofs.Routine.Statements
import Lift6502.Proofs.Routine.Accounting
import Lift6502.Proofs.Routine.Placement
import Lift6502.Proofs.Routine.Visibility
import Lift6502.Proofs.Machine.Maps
import Lift6502.Proofs.Routine.Programs
import Lift6502.Proofs.Dialect.Visits
import Lift6502.Proofs.Dialect.Labels
import Lift6502.Proofs.Dialect.Classic
import Lift6502.Proofs.Dialect.LineNumbers
import Lift6502.Proofs.Listing.Scan
import Lift6502.Proofs.Listing.Canonical
import Lift6502.Proofs.Flow.Cuts
import Lift6502.Proofs.Listing.Verdicts
import Lift6502.Proofs.Symbol.Names
import Lift6502.Proofs.Listing.Grammar
import Lift6502.Proofs.Listing.Spelled
import Lift6502.Proofs.Listing.LineForms
import Lift6502.Proofs.Text.Segments
import Lift6502.Proofs.Listing.Growth
import Lift6502.Proofs.Listing.Inert
import Lift6502.Proofs.Listing.Reordering
import Lift6502.Proofs.Shape.Checked
import Lift6502.Proofs.Shape.LoopPositions
import Lift6502.Proofs.Shape.Positions
import Lift6502.Proofs.Routine.Positions
import Lift6502.Proofs.Text.Identifiers
import Lift6502.Proofs.Symbol.Targets
import Lift6502.Proofs.Routine.FirstNodes
import Lift6502.Proofs.Dialect.OtherLines
import Lift6502.Proofs.Dialect.Definitions
import Lift6502.Proofs.Routine.Functions
import Lift6502.Proofs.Routine.CalledEntries
import Lift6502.Proofs.Routine.FunctionNames
import Lift6502.Proofs.Routine.Uses
import Lift6502.Proofs.Shape.Transfers
import Lift6502.Proofs.Routine.Transfers
import Lift6502.Proofs.Routine.CarriedOver
import Lift6502.Proofs.Routine.Parts
import Lift6502.Proofs.Routine.Declarations
import Lift6502.Proofs.Routine.Spans
import Lift6502.Proofs.Dialect.Stubs
import Lift6502.Proofs.Run.Outcomes
import Lift6502.Proofs.Flow.Runs
import Lift6502.Proofs.Routine.CountedRuns
import Lift6502.Proofs.Shape.Adjacency
import Lift6502.Proofs.Routine.CounterUses
import Lift6502.Proofs.Routine.FlagUses
import Lift6502.Proofs.Dialect.CounterLoops
import Lift6502.Proofs.Flow.Processes
import Lift6502.Proofs.Routine.LoopRuns
import Lift6502.Proofs.Routine.Repetitions
import Lift6502.Proofs.Routine.TestRuns
import Lift6502.Proofs.Flow.Lookup
import Lift6502.Proofs.Listing.References
import Lift6502.Proofs.Machine.Effects
import Lift6502.Proofs.Text.Words
import Lift6502.Proofs.Tree.TextValues
import Lift6502.Proofs.Routine.StatementForms
import Lift6502.Proofs.Routine.CounterTexts
import Lift6502.Proofs.Routine.Folding
import Lift6502.Proofs.Tree.OperandTexts
import Lift6502.Proofs.Symbol.TableFiles
import Lift6502.Proofs.Files.Paths
import Lift6502.Proofs.Run.Destinations
import Lift6502.Proofs.Shape.Records
import Lift6502.Proofs.Routine.Pieces
import Lift6502.Proofs.Routine.Records
import Lift6502.Proofs.Dialect.DeclaredNames
import Lift6502.Proofs.Dialect.RecordLines
import Lift6502.Proofs.Json.Tokens
import Lift6502.Proofs.Json.Reading
import Lift6502.Proofs.Tree.Decoding
import Lift6502.Proofs.Dialect.JsonForm
import Lift6502.Proofs.Shape.StepSums
