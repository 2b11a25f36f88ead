import Lift6502.Command.Arguments

/-!
# Carrying out a command

A command works through four ways to reach the outside: reading a file, writing a file, making a
directory and printing. First the tables are read, then the directory for the programs is made, then all
listings are read, and only then is anything written. A listing that cannot be decompiled does not stop
the others; a file that cannot be written does.
-/

namespace Lift6502

/-- Ways to reach the outside. -/
structure Outside (m : Type → Type) where
  /-- The text of a file, if it is a file with text. -/
  readText : String → m (Option String)
  /-- Writes a file, and says whether that worked. -/
  writeText : String → String → m Bool
  /-- Makes a directory and those above it, and says whether that worked. -/
  makeDirectories : String → m Bool
  print : String → m Unit
  /-- Passes on a message for the user. -/
  notify : String → m Unit

/-- How a command ends. -/
inductive Ending where
  | success | failure | wrongUsage
  deriving DecidableEq

def Ending.code : Ending → Nat
  | success => 0
  | failure => 1
  | wrongUsage => 2

namespace Command

def name : String := "c64dec"

def versionText : String := name ++ " 0.1.0\n"

def usageText : String :=
  "Usage: " ++ name ++ " [OPTIONS] <LISTING>...\n\n" ++
  "Options:\n" ++
  "  -t, --target <TARGET>       classic-basic, modern-basic, curly or json\n" ++
  "  -o, --output <PATH>         Output file (one listing) or directory (several listings)\n" ++
  "      --symbols-dir <DIR>     Directory with the four symbol tables\n" ++
  "      --memory-map <FILE>     Memory map table\n" ++
  "      --routines <FILE>       KERNAL routine table\n" ++
  "      --hardware <FILE>       Hardware register table\n" ++
  "      --zero-page <FILE>      Zero-page table\n" ++
  "      --max-instructions <N>  Reject listings with more instructions than this\n" ++
  "      --report <FORMAT>       Also write a report: text, json or csv\n" ++
  "  -v, --verbose               Say more\n" ++
  "  -h, --help                  Print help\n" ++
  "  -V, --version               Print version\n"

variable {m : Type → Type} [Monad m]

/-- Writes to a file, or prints. -/
def deliver (outside : Outside m) (path : Option String) (text : String) : m Bool :=
  match path with
  | none => do
    outside.print text
    return true
  | some path => do
    if ← outside.writeText path text then return true
    outside.notify ("Failed to write " ++ path)
    return false

/-- Delivers the program of one input, and its report if one is asked for. -/
def deliverResult (outside : Outside m) (settings : Settings) (input : String)
    (decompiled : Decompiled) : m Bool := do
  let destination := settings.destination? input
  if ← deliver outside destination decompiled.text then
    match settings.report with
    | none => return true
    | some format =>
      deliver outside (destination.map (Settings.reportPath · format))
        (decompiled.analysis.report format)
  else return false

/-- Delivers all results in order. Stops at the first that cannot be delivered, and otherwise says how
many runs failed. -/
def deliverAll (outside : Outside m) (settings : Settings) : List (String × Run) → m (Option Nat)
  | [] => return some 0
  | (input, run) :: rest => do
    for warning in run.warnings do
      outside.notify (input ++ ": " ++ warning.message)
    match run.result with
    | .ok decompiled =>
      if ← deliverResult outside settings input decompiled then deliverAll outside settings rest
      else return none
    | .error error =>
      outside.notify (input ++ ": " ++ error.message)
      return (← deliverAll outside settings rest).map (· + 1)

/-- Reads the tables that have a path. -/
def readTables (outside : Outside m) (paths : TablePaths) : m Sources := do
  let read (source : Source) : m (Option String) :=
    match paths.get source with
    | some path => outside.readText path
    | none => return none
  return Sources.ofTexts
    { memoryMap := ← read .memoryMap
      routines := ← read .routines
      hardware := ← read .hardware
      zeroPage := ← read .zeroPage }

/-- Makes the directory for the programs, if there has to be one. -/
def prepare (outside : Outside m) (settings : Settings) : m Bool :=
  match settings.outputDirectory? with
  | none => return true
  | some directory => do
    if ← outside.makeDirectories directory then return true
    outside.notify ("Failed to create output directory " ++ directory)
    return false

/-- Decompiles all inputs of a command. -/
def run (outside : Outside m) (settings : Settings) : m Ending := do
  let sources ← readTables outside settings.tablePaths
  if ← prepare outside settings then
    let listings ← settings.inputs.mapM fun input => do return (input, ← outside.readText input)
    let runs := listings.map fun (input, text) => (input, Run.ofFile settings.options sources text)
    match ← deliverAll outside settings runs with
    | none => return .failure
    | some 0 => return .success
    | some failed =>
      outside.notify (Text.decimal failed ++ " of " ++ Text.decimal settings.inputs.length
        ++ " listings failed to decompile")
      return .failure
  else return .failure

/-- Carries out a command with its arguments. -/
def execute (outside : Outside m) (arguments : List String) : m Ending :=
  match Request.ofArguments arguments with
  | .run settings => run outside settings
  | .showVersion => do
    outside.print versionText
    return .success
  | .showHelp => do
    outside.print usageText
    return .success
  | .wrongUsage => do
    outside.notify usageText
    return .wrongUsage

end Command

end Lift6502
