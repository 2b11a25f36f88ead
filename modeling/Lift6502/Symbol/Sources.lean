import Lift6502.Files.Path
import Lift6502.Symbol.TableFile

/-!
# Sources of names

Four tables bring names along. Each has a file name of its own inside a directory of tables, and each
may also be given by a path. A table that cannot be read stays empty.
-/

namespace Lift6502

inductive Source where
  | memoryMap | routines | hardware | zeroPage
  deriving DecidableEq

namespace Source

def all : List Source := [memoryMap, routines, hardware, zeroPage]

/-- The file name inside a directory of tables. -/
def fileName : Source → String
  | memoryMap => "memory_map.json"
  | routines => "kernal_routines.json"
  | hardware => "hardware_registers.json"
  | zeroPage => "zero_page.json"

/-- What the table is called in messages. -/
def title : Source → String
  | memoryMap => "memory map"
  | routines => "routine table"
  | hardware => "hardware register table"
  | zeroPage => "zero-page table"

end Source

/-- One thing for each source. -/
structure PerSource (α : Type) where
  memoryMap : α
  routines : α
  hardware : α
  zeroPage : α
  deriving DecidableEq

namespace PerSource

def ofFunction {α : Type} (value : Source → α) : PerSource α :=
  { memoryMap := value .memoryMap
    routines := value .routines
    hardware := value .hardware
    zeroPage := value .zeroPage }

def get {α : Type} (values : PerSource α) : Source → α
  | .memoryMap => values.memoryMap
  | .routines => values.routines
  | .hardware => values.hardware
  | .zeroPage => values.zeroPage

/-- Replaces the value of one source. -/
def set {α : Type} (values : PerSource α) (source : Source) (value : α) : PerSource α :=
  ofFunction fun other => if other = source then value else values.get other

end PerSource

/-- Where the tables are; a source without a path has no table. -/
abbrev TablePaths := PerSource (Option String)

namespace TablePaths

def none : TablePaths := PerSource.ofFunction fun _ => Option.none

/-- All four tables under their own names in a directory. -/
def inDirectory (directory : String) : TablePaths :=
  PerSource.ofFunction fun source => some (Path.join directory source.fileName)

end TablePaths

/-- Why a table could not be loaded. -/
inductive TableError where
  | unreadable
  | malformed
  deriving DecidableEq

/-- The four tables. -/
abbrev Sources := PerSource EntryTable

namespace Sources

def empty : Sources := PerSource.ofFunction fun _ => ∅

/-- Loads one table, given how to read a file as text. -/
def loadTable (read : String → Option String) (path : String) : Except TableError EntryTable :=
  match read path with
  | none => .error .unreadable
  | some text =>
    match EntryTable.ofText? text with
    | some table => .ok table
    | none => .error .malformed

/-- The tables that the texts of files give; one that is missing or no table is empty. -/
def ofTexts (texts : PerSource (Option String)) : Sources :=
  PerSource.ofFunction fun source => ((texts.get source).bind EntryTable.ofText?).getD ∅

/-- Loads the tables that have a path. -/
def load (read : String → Option String) (paths : TablePaths) : Sources :=
  ofTexts (PerSource.ofFunction fun source => (paths.get source).bind read)

end Sources

end Lift6502
