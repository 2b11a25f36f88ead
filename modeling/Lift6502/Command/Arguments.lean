import Lift6502.Command.Settings

/-!
# Arguments of a command

Options have a long name, `--name value` or `--name=value`, and some a short one, `-n value`, `-nvalue`
or `-n=value`; short options that take no value can be written together. A value that stands on its own
may not look like an option. After `--` everything is an input. Every option that takes a value may be
given once, and no value may be empty.
-/

namespace Lift6502

/-- Options that take a value. -/
inductive ValueOption where
  | target | output | symbolsDirectory | table (source : Source) | maxInstructions | report
  deriving DecidableEq

/-- Options that take none. -/
inductive Flag where
  | verbose | version | help
  deriving DecidableEq

/-- What an option name stands for. -/
inductive OptionName where
  | value (option : ValueOption)
  | flag (flag : Flag)
  deriving DecidableEq

namespace OptionName

def long? : String → Option OptionName
  | "target" => some (.value .target)
  | "output" => some (.value .output)
  | "symbols-dir" => some (.value .symbolsDirectory)
  | "memory-map" => some (.value (.table .memoryMap))
  | "routines" => some (.value (.table .routines))
  | "hardware" => some (.value (.table .hardware))
  | "zero-page" => some (.value (.table .zeroPage))
  | "max-instructions" => some (.value .maxInstructions)
  | "report" => some (.value .report)
  | "verbose" => some (.flag .verbose)
  | "version" => some (.flag .version)
  | "help" => some (.flag .help)
  | _ => none

def short? : Char → Option OptionName
  | 't' => some (.value .target)
  | 'o' => some (.value .output)
  | 'v' => some (.flag .verbose)
  | 'V' => some (.flag .version)
  | 'h' => some (.flag .help)
  | _ => none

end OptionName

/-- What a command is asked to do. -/
inductive Request where
  | run (settings : Settings)
  | showVersion
  | showHelp
  | wrongUsage

/-- The arguments that were read so far. -/
structure Arguments where
  inputs : List String := []
  target : Option Target := none
  output : Option String := none
  symbolsDirectory : Option String := none
  tables : TablePaths := TablePaths.none
  maxInstructions : Option Nat := none
  report : Option ReportFormat := none
  verbosity : Nat := 0
  /-- The option that waits for its value. -/
  waiting : Option ValueOption := none
  /-- Whether everything that follows is an input. -/
  inputsOnly : Bool := false

namespace Arguments

/-- A path, which may not be empty. -/
def path? (text : String) : Option String := if text = "" then none else some text

/-- Limits are numbers of sixty-four bits. -/
def limit? (text : String) : Option Nat := Text.readNat? (Nat.pow 2 64) text

/-- A value for something that has none yet. -/
def once {α : Type} (current value : Option α) : Option (Option α) :=
  match current, value with
  | none, some value => some (some value)
  | _, _ => none

/-- Gives a value to an option; fails if the value is wrong or the option has one. -/
def set? (arguments : Arguments) (option : ValueOption) (value : String) : Option Arguments :=
  let arguments := { arguments with waiting := none }
  match option with
  | .target =>
    (once arguments.target (Target.all.find? (·.name == value))).map
      fun target => { arguments with target }
  | .output => (once arguments.output (path? value)).map fun output => { arguments with output }
  | .symbolsDirectory =>
    (once arguments.symbolsDirectory (path? value)).map
      fun symbolsDirectory => { arguments with symbolsDirectory }
  | .table source =>
    (once (arguments.tables.get source) (path? value)).map
      fun path => { arguments with tables := arguments.tables.set source path }
  | .maxInstructions =>
    (once arguments.maxInstructions (limit? value)).map
      fun maxInstructions => { arguments with maxInstructions }
  | .report =>
    (once arguments.report (ReportFormat.all.find? (·.name == value))).map
      fun report => { arguments with report }

/-- Takes a value that may be wrong. -/
def accept (arguments : Arguments) (option : ValueOption) (value : String) :
    Except Request Arguments :=
  match arguments.set? option value with
  | some arguments => .ok arguments
  | none => .error .wrongUsage

def addInput (arguments : Arguments) (input : String) : Except Request Arguments :=
  match path? input with
  | some input => .ok { arguments with inputs := arguments.inputs ++ [input] }
  | none => .error .wrongUsage

def setFlag (arguments : Arguments) : Flag → Except Request Arguments
  | .verbose => .ok { arguments with verbosity := arguments.verbosity + 1 }
  | .version => .error .showVersion
  | .help => .error .showHelp

/-- Reads the name of a long option and the value after an equals sign. -/
def addLong (arguments : Arguments) (text : List Char) : Except Request Arguments :=
  let name := String.ofList (text.takeWhile (· != '='))
  match OptionName.long? name, text.dropWhile (· != '=') with
  | some (.value option), _ :: value => arguments.accept option (String.ofList value)
  | some (.value option), [] => .ok { arguments with waiting := some option }
  | some (.flag flag), [] => arguments.setFlag flag
  | _, _ => .error .wrongUsage

/-- Reads short options that are written together. The first one that takes a value takes all that
follows. -/
def addShort (arguments : Arguments) : List Char → Except Request Arguments
  | [] => .ok arguments
  | name :: rest =>
    match OptionName.short? name, rest with
    | some (.value option), [] => .ok { arguments with waiting := some option }
    | some (.value option), '=' :: value => arguments.accept option (String.ofList value)
    | some (.value option), value => arguments.accept option (String.ofList value)
    | some (.flag flag), rest =>
      match arguments.setFlag flag with
      | .ok arguments => addShort arguments rest
      | .error request => .error request
    | none, _ => .error .wrongUsage

/-- Reads one argument. -/
def add (arguments : Arguments) (argument : String) : Except Request Arguments :=
  if arguments.inputsOnly then arguments.addInput argument
  else match arguments.waiting, argument.toList with
    | some _, '-' :: _ :: _ => .error .wrongUsage
    | some option, _ => arguments.accept option argument
    | none, ['-', '-'] => .ok { arguments with inputsOnly := true }
    | none, '-' :: '-' :: text => arguments.addLong text
    | none, '-' :: name :: text => arguments.addShort (name :: text)
    | none, _ => arguments.addInput argument

/-- The settings that complete arguments give. -/
def request (arguments : Arguments) : Request :=
  if arguments.waiting.isSome || arguments.inputs.isEmpty then .wrongUsage
  else
    .run
      { inputs := arguments.inputs
        target := arguments.target.getD .standard
        output := arguments.output
        symbolsDirectory := arguments.symbolsDirectory.getD "symbols"
        tables := arguments.tables
        maxInstructions := arguments.maxInstructions.getD 65536
        report := arguments.report
        verbosity := arguments.verbosity }

end Arguments

/-- What the arguments of a command ask for. -/
def Request.ofArguments (arguments : List String) : Request :=
  match arguments.foldlM Arguments.add {} with
  | .ok arguments => arguments.request
  | .error request => request

end Lift6502
