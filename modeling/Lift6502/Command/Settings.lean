import Lift6502.Decompile
import Lift6502.Files.Path
import Lift6502.Report.Format

/-!
# Settings of a command

A command decompiles one or more listings. The program of a single listing goes to a given file or is
printed; the programs of several listings go to a given directory or next to their listings. A report
goes next to its program, or is printed after it.
-/

namespace Lift6502

structure Settings where
  inputs : List String
  target : Target := .standard
  /-- A file for one input, a directory for several. -/
  output : Option String := none
  symbolsDirectory : String := "symbols"
  /-- Tables that are not taken from the directory. -/
  tables : TablePaths := TablePaths.none
  maxInstructions : Nat := 65536
  report : Option ReportFormat := none
  verbosity : Nat := 0

namespace Settings

/-- The paths of the four tables. -/
def tablePaths (settings : Settings) : TablePaths :=
  let standard := TablePaths.inDirectory settings.symbolsDirectory
  PerSource.ofFunction fun source => (settings.tables.get source).or (standard.get source)

def options (settings : Settings) : Options :=
  { target := settings.target, maxInstructions := settings.maxInstructions }

def hasOneInput (settings : Settings) : Bool := settings.inputs.length == 1

/-- The directory that has to be there before programs are written. -/
def outputDirectory? (settings : Settings) : Option String :=
  if settings.hasOneInput then none else settings.output

/-- The file for the program of an input; none if it is printed. -/
def destination? (settings : Settings) (input : String) : Option String :=
  let extension := settings.target.extension
  if settings.hasOneInput then settings.output
  else match settings.output with
    | some directory =>
      some (Path.withExtension (Path.join directory ((Path.stem? input).getD input)) extension)
    | none => some (Path.withExtension input extension)

/-- The file for a report next to a program. -/
def reportPath (destination : String) (format : ReportFormat) : String :=
  Path.withExtension destination ("report." ++ format.extension)

end Settings

end Lift6502
