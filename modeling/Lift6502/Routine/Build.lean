import Lift6502.Routine.Labels
import Lift6502.Routine.Structured

/-!
# Building programs

The blocks of a listing are divided into routines, a new one at every subroutine entry. The blocks of a
routine are recognised from the front, and what is claimed is replaced by its nodes until no block is
left. Code in front of the first subroutine is the main routine, and a return from it ends the program.
-/

namespace Lift6502

namespace Routine

/-- The nodes for the blocks of one routine. -/
def build (symbols : SymbolTable) (usage : Usage) (blocks : List Block) : Usage × List Node :=
  match blocks with
  | [] => (usage, [])
  | block :: rest =>
    let found := Shape.recognise symbols (block :: rest)
    let usage := found.instructions.foldl (Usage.note symbols) usage
    let (usage, nodes) := structured symbols usage found
    let (usage, others) := build symbols usage (rest.drop (found.blocks.length - 1))
    (usage, nodes ++ others)
termination_by blocks.length

/-- The blocks of each routine. -/
def divide (symbols : SymbolTable) (blocks : List Block) : List (List Block) :=
  blocks.splitBy fun _ next => !symbols.subroutines.contains next.start

end Routine

namespace Node

mutual

/-- Makes plain returns end the program. -/
def endProgram : Node → Node
  | ⟨kind, children, value, label, params, address⟩ =>
    let value := if kind = .leave && value = "" then "exit" else value
    ⟨kind, endProgramAll children, value, label, params, address⟩

/-- Makes plain returns in several trees end the program. -/
def endProgramAll : List Node → List Node
  | [] => []
  | node :: nodes => node.endProgram :: endProgramAll nodes

end

end Node

namespace Program

/-- The targets of jumps and branches, with their names. -/
def labelTargets (symbols : SymbolTable) (blocks : List Block) : AddressMap String :=
  let targets := (Block.instructionsOf blocks).filterMap fun i => i.jumpTarget?
  Std.ExtTreeMap.ofList (targets.map fun target => (target, symbols.codeName target))

/-- The routines that were built so far. -/
structure Routines where
  usage : Usage := {}
  functions : List Node := []
  subroutines : AddressMap String := ∅

/-- Builds one more routine. -/
def Routines.add (symbols : SymbolTable) (routines : Routines) (blocks : List Block) : Routines :=
  match blocks with
  | [] => routines
  | first :: _ =>
    let entry := first.start
    let (usage, children) := Routine.build symbols routines.usage blocks
    let function (name : String) : Node :=
      { kind := .function, value := name, children, address := some entry }
    if symbols.subroutines.contains entry then
      let name := symbols.codeName entry
      { usage
        functions := routines.functions ++ [function name]
        subroutines := routines.subroutines.insert entry name }
    else
      { routines with
        usage
        functions := routines.functions ++ [(function mainName).endProgram] }

/-- The program for the blocks of a listing. -/
def build (symbols : SymbolTable) (blocks : List Block) : Program :=
  let routines := (Routine.divide symbols blocks).foldl (Routines.add symbols) {}
  let root : Node := { kind := .program, children := routines.functions ++ routines.usage.templates }
  { root := (root.placeLabels (labelTargets symbols blocks)).1
    subroutines := routines.subroutines
    romCalls := routines.usage.romCalls
    variableMap := routines.usage.variableMap }

end Program

end Lift6502
