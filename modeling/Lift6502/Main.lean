import Lift6502.Command.Execute

/-!
# The program

Carries out a command on the real file system.
-/

open Lift6502

/-- Runs an action, and says whether it worked. -/
def worked (action : IO Unit) : IO Bool := do
  try
    action
    return true
  catch _ => return false

def fileSystem : Outside IO :=
  { readText := fun path => do
      try return String.fromUTF8? (← IO.FS.readBinFile path)
      catch _ => return none
    writeText := fun path text => worked (IO.FS.writeFile path text)
    makeDirectories := fun path => worked (IO.FS.createDirAll path)
    print := IO.print
    notify := IO.eprintln }

def main (arguments : List String) : IO UInt32 := do
  let ending ← Command.execute fileSystem arguments
  return UInt32.ofNat ending.code
