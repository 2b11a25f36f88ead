import Lift6502.Command.Execute
import Lift6502.Files.Tree

/-!
# Commands on a tree of files

A session keeps the files, and what was printed, in memory. A command can be carried out in it without
touching anything else.
-/

namespace Lift6502

structure Session where
  files : FileTree := {}
  printed : String := ""

namespace Session

/-- Changes the files, and says whether that worked. -/
def change (step : FileTree → Option FileTree) : StateM Session Bool := do
  let session ← get
  match step session.files with
  | some files =>
    set { session with files }
    return true
  | none => return false

def outside : Outside (StateM Session) :=
  { readText := fun path => return (← get).files.readText? path
    writeText := fun path text => change (·.write? path text.toUTF8)
    makeDirectories := fun path => change (·.makeDirectories? path)
    print := fun text => modify fun session => { session with printed := session.printed ++ text }
    notify := fun _ => return () }

/-- Carries out a command in a session. -/
def execute (session : Session) (arguments : List String) : Ending × Session :=
  (Command.execute outside arguments).run session

end Session

end Lift6502
