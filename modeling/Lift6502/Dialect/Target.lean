import Lift6502.Dialect.Classic
import Lift6502.Dialect.Curly
import Lift6502.Dialect.Emission
import Lift6502.Dialect.Modern
import Lift6502.Json.Printer
import Lift6502.Tree.Encoding

/-!
# Targets

What a program can be written as: one of the dialects, or its tree as JSON.
-/

namespace Lift6502

inductive Target where
  | classicBasic | modernBasic | curly | json
  deriving DecidableEq, Inhabited

namespace Target

def all : List Target := [classicBasic, modernBasic, curly, json]

/-- The target that is chosen if nothing is said. -/
def standard : Target := modernBasic

def name : Target → String
  | classicBasic => "classic-basic"
  | modernBasic => "modern-basic"
  | curly => "curly"
  | json => "json"

/-- All names that a target is known by, in lower case. -/
def names : Target → List String
  | classicBasic => ["classic-basic", "classic", "basic-v2"]
  | modernBasic => ["modern-basic", "modern", "qbasic"]
  | curly => ["curly", "c"]
  | json => ["json"]

/-- The target with a name, in any case. All names are ASCII. -/
def read? (text : String) : Option Target :=
  let lower := text.map Char.toLower
  all.find? fun target => target.names.contains lower

/-- What is said of a name that no target has. -/
def unknownMessage (text : String) : String := "Unknown target: " ++ text

/-- The extension of files. -/
def extension : Target → String
  | classicBasic | modernBasic => "bas"
  | curly => "c"
  | json => "json"

/-- The dialect, if the target is one. -/
def dialect? : Target → Option Dialect
  | classicBasic => some Classic.dialect
  | modernBasic => some Modern.dialect
  | curly => some Curly.dialect
  | json => none

end Target

/-- Why a program could not be written. -/
inductive RenderError where
  /-- The root of the tree is no program. -/
  | notProgram
  deriving DecidableEq

def RenderError.message : RenderError → String
  | notProgram => "tree is not rooted at a Program node"

/-- A written program. -/
structure Rendering where
  text : String
  /-- The labels that are jumped to and not defined, in order. -/
  undefinedLabels : List String := []
  deriving DecidableEq

/-- Writes a program. -/
def Program.render (program : Program) (target : Target) : Except RenderError Rendering :=
  if program.root.kind ≠ .program then .error .notProgram
  else match target.dialect? with
    | none => .ok { text := program.toJson.print ++ "\n" }
    | some dialect =>
      let written := dialect.writeProgram program
      .ok
        { text := Page.text dialect.numbered written.lines
          undefinedLabels := Dialect.undefinedLabels program written }

end Lift6502
