import Lift6502.Dialect.Target
import Lift6502.Flow.BlockIndex
import Lift6502.Listing.Reader
import Lift6502.Report.Analysis
import Lift6502.Routine.Build

/-!
# From a listing to a program

A run reads a listing, names its addresses, cuts it into blocks, builds the program tree and writes it.
It fails if the listing has no instruction or too many of them. Warnings are kept in the order in which
they arise, and a run that fails keeps those that came before.
-/

namespace Lift6502

/-- The steps of a run that can fail. -/
inductive Stage where
  | parse | symbols | blocks | tree | emit
  deriving DecidableEq

def Stage.text : Stage → String
  | parse => "parse"
  | symbols => "symbol resolution"
  | blocks => "basic-block"
  | tree => "AST"
  | emit => "emit"

/-- Why a run failed. -/
inductive RunError where
  /-- A step gave nothing that the next one can work with. -/
  | failed (stage : Stage) (reason : String)
  | tooManyInstructions (count limit : Nat)
  /-- The listing is no file with text. -/
  | unreadable
  deriving DecidableEq

def RunError.message : RunError → String
  | failed stage reason => stage.text ++ " stage failed: " ++ reason
  | tooManyInstructions count limit =>
    "Input has " ++ Text.decimal count ++ " instructions, above the ceiling of " ++ Text.decimal limit
  | unreadable => "The listing cannot be read"

inductive Warning where
  | skippedLine (line : SkippedLine)
  /-- A jump or branch to an address without an instruction. -/
  | externalTarget (address : Address)
  | undefinedLabel (name : String)
  deriving DecidableEq

def Warning.message : Warning → String
  | skippedLine line =>
    "Skipping line " ++ Text.decimal line.number ++ ": `"
      ++ String.ofList (Text.trim line.text.toList) ++ "` (" ++ line.error.message ++ ")"
  | externalTarget address =>
    "Branch target " ++ address.text ++ " is outside the parsed listing"
  | undefinedLabel name => "Jump to undefined label " ++ name

structure Options where
  target : Target := .standard
  /-- Listings with more instructions are refused. -/
  maxInstructions : Nat := 65536

/-- Everything that a run gave. -/
structure Decompiled where
  text : String
  symbols : SymbolTable
  program : Program
  blocks : List Block
  skipped : List SkippedLine

def Decompiled.analysis (decompiled : Decompiled) : Analysis :=
  { blocks := decompiled.blocks, symbols := decompiled.symbols, skipped := decompiled.skipped }

/-- A run with its warnings. -/
structure Run where
  warnings : List Warning
  result : Except RunError Decompiled

namespace Run

/-- A run on instructions that are neither missing nor too many. -/
def ofListing (target : Target) (sources : Sources) (listing : Listing) : Run :=
  let warnings := listing.skipped.map .skippedLine
  let symbols := SymbolTable.resolve listing.candidates sources
  let blocks := Block.partition listing.instructions
  if blocks.isEmpty then { warnings, result := .error (.failed .blocks "no basic blocks") }
  else
    let external := (BlockIndex.ofBlocks blocks).externalTargets
    let warnings := warnings ++ external.toList.map .externalTarget
    let program := Program.build symbols blocks
    match program.render target with
    | .error error => { warnings, result := .error (.failed .emit error.message) }
    | .ok rendering =>
      { warnings := warnings ++ rendering.undefinedLabels.map .undefinedLabel
        result :=
          .ok { text := rendering.text, symbols, program, blocks, skipped := listing.skipped } }

/-- A run on the text of a listing. -/
def ofText (options : Options) (sources : Sources) (text : String) : Run :=
  let listing := Listing.read text
  let count := listing.instructions.length
  let refused (error : RunError) : Run :=
    { warnings := listing.skipped.map .skippedLine, result := .error error }
  if count = 0 then refused (.failed .parse "no instructions in listing")
  else if options.maxInstructions < count then
    refused (.tooManyInstructions count options.maxInstructions)
  else ofListing options.target sources listing

/-- A run on a file, of which the text may be missing. -/
def ofFile (options : Options) (sources : Sources) : Option String → Run
  | none => { warnings := [], result := .error .unreadable }
  | some text => ofText options sources text

end Run

end Lift6502
