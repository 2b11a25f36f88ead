import Lift6502.Proofs.Flow.Processes
import Lift6502.Tree.Node

/-!
# Carrying out a program tree

What the texts in a tree mean is left open: a reading says what each statement does to a state, and
when the two sides of a condition have the same value. What loops, conditional jumps and dispatches
do is not open. A loop with its test at the top goes on while its condition holds, one with its test
at the bottom until it holds; of the cases of a dispatch the first is taken whose constant is the
value of the subject.
-/

namespace Lift6502

/-- What the texts of a tree mean. The same text may mean different things at nodes that stand at
different addresses. -/
structure Reading (State : Type) where
  /-- What a statement does. -/
  effect : Node → State → State
  /-- Whether two operands have the same value, in the condition of a node at an address. -/
  same : Option Address → String → String → State → Bool

/-- How control leaves some nodes: behind the last one, to a label, or out of the routine. -/
inductive Departure where
  | through
  | jump (label : String)
  | back

/-- What is still to be done. -/
inductive Task where
  | node (node : Node)
  /-- The test behind the body of a loop. -/
  | test (loop : Node)
  /-- The end of a dispatch. -/
  | switchEnd

/-- How far nodes have been carried out. -/
inductive Progress (State : Type) where
  | inside (tasks : List Task) (state : State)
  | outside (departure : Departure) (state : State)

/-- Whether nodes of a kind change the state and nothing else. -/
def NodeKind.isPlain : NodeKind → Bool
  | assign | expr | raw | subCall | romCall => true
  | _ => false

namespace Task

def isSwitchEnd : Task → Bool
  | switchEnd => true
  | _ => false

end Task

namespace Reading

variable {State : Type} (reading : Reading State)

/-- Whether the condition of a node holds. Only tests for equality have a meaning here. -/
def holds? (node : Node) (state : State) : Option Bool :=
  match node.condition? with
  | some (left, .eq, right) => some (reading.same node.address left right state)
  | some (left, .ne, right) => some (!reading.same node.address left right state)
  | _ => none

/-- Whether a case of a dispatch is the one to be taken. It has to name the subject of the
dispatch. -/
def selects? (switch case : Node) (state : State) : Option Bool :=
  match case.params with
  | [subject, constant] =>
    if subject = switch.value then some (reading.same case.address subject constant state) else none
  | _ => none

/-- The first case of a dispatch that is to be taken, if there is one. -/
def choose? (switch : Node) (state : State) : List Node → Option (Option Node)
  | [] => some none
  | case :: cases =>
    (reading.selects? switch case state).bind fun selected => if selected then some (some case)
      else choose? switch state cases

/-- Carries out a node in front of other tasks. -/
def perform? (node : Node) (rest : List Task) (state : State) :
    Option (Option State × Progress State) :=
  match node.kind with
  | .assign | .expr | .raw | .subCall | .romCall =>
    some (some (reading.effect node state), .inside rest (reading.effect node state))
  | .whileLoop =>
    (reading.holds? node state).map fun holds =>
      (none, .inside (if holds then node.children.map .node ++ .node node :: rest else rest) state)
  | .doUntil => some (none, .inside (node.children.map .node ++ .test node :: rest) state)
  | .nestedIf => some (none, .inside (node.children.map .node ++ rest) state)
  | .ifGoto =>
    (reading.holds? node state).map fun holds =>
      (none, if holds then .outside (.jump node.value) state else .inside rest state)
  | .goto =>
    (if node.params = [] then some true else reading.holds? node state).map fun holds =>
      (none, if holds then .outside (.jump node.value) state else .inside rest state)
  | .leave => some (none, .outside .back state)
  | .switch =>
    (reading.choose? node state node.children).map fun chosen =>
      (none, .inside ((chosen.map fun case => case.children.map .node ++ [.switchEnd]).getD []
        ++ rest) state)
  | .exitSwitch =>
    some (none, .inside ((rest.dropWhile fun task => !task.isSwitchEnd).drop 1) state)
  | _ => none

/-- Carries out nodes step by step. -/
def process : Process (Progress State) State (Departure × State) where
  step?
    | .inside [] state => some (none, .outside .through state)
    | .inside (.node node :: rest) state => reading.perform? node rest state
    | .inside (.test loop :: rest) state =>
      (reading.holds? loop state).map fun holds =>
        (none,
          .inside (if holds then rest else loop.children.map .node ++ .test loop :: rest) state)
    | .inside (.switchEnd :: rest) state => some (none, .inside rest state)
    | .outside _ _ => none
  result?
    | .inside _ _ => none
    | .outside departure state => some (departure, state)
  ended config h := by
    cases config with
    | inside => cases h
    | outside => rfl

variable {reading} {node : Node} {rest : List Task} {state : State}

theorem advances_of_perform? {next : Progress State}
    (h : reading.perform? node rest state = some (none, next)) :
    reading.process.Advances (.inside (.node node :: rest) state) [] next :=
  Process.advances_of_quiet_step h

theorem advances_statement (h : node.kind.isPlain = true) :
    reading.process.Advances (.inside (.node node :: rest) state) [reading.effect node state]
      (.inside rest (reading.effect node state)) := by
  have hperform : reading.perform? node rest state
      = some (some (reading.effect node state), .inside rest (reading.effect node state)) := by
    unfold perform?
    generalize node.kind = kind at h
    cases kind <;> first | rfl | cases h
  have hstep : reading.process.step? (.inside (.node node :: rest) state) = _ := hperform
  exact Process.advances_of_step hstep

/-- Statements are carried out one after the other. -/
theorem reaches_statements (reading : Reading State) {nodes : List Node}
    (h : ∀ node ∈ nodes, node.kind.isPlain = true) (rest : List Task) (state : State) :
    reading.process.Reaches (.inside (nodes.map .node ++ rest) state)
      (trail (nodes.map reading.effect) state)
      (.inside rest (trailEnd (nodes.map reading.effect) state)) := by
  induction nodes generalizing state with
  | nil => exact .refl _
  | cons node nodes ih =>
    obtain ⟨hplain, hrest⟩ := List.forall_mem_cons.mp h
    exact (advances_statement hplain).reaches.trans (ih hrest (reading.effect node state))

/-- Behind the last node control leaves. -/
theorem advances_through (state : State) : reading.process.Advances (.inside [] state) []
    (.outside .through state) :=
  Process.advances_of_quiet_step rfl

theorem advances_whileLoop (hkind : node.kind = .whileLoop) {holds : Bool}
    (hholds : reading.holds? node state = some holds) :
    reading.process.Advances (.inside (.node node :: rest) state) []
      (.inside (if holds then node.children.map .node ++ .node node :: rest else rest) state) := by
  apply advances_of_perform?
  simp only [perform?, hkind, hholds, Option.map_some]

theorem advances_doUntil (hkind : node.kind = .doUntil) :
    reading.process.Advances (.inside (.node node :: rest) state) []
      (.inside (node.children.map .node ++ .test node :: rest) state) := by
  apply advances_of_perform?
  simp only [perform?, hkind]

theorem advances_test {holds : Bool} (hholds : reading.holds? node state = some holds) :
    reading.process.Advances (.inside (.test node :: rest) state) []
      (.inside (if holds then rest else node.children.map .node ++ .test node :: rest) state) := by
  apply Process.advances_of_quiet_step
  simp only [process, hholds, Option.map_some]

theorem advances_nestedIf (hkind : node.kind = .nestedIf) :
    reading.process.Advances (.inside (.node node :: rest) state) []
      (.inside (node.children.map .node ++ rest) state) := by
  apply advances_of_perform?
  simp only [perform?, hkind]

theorem advances_ifGoto (hkind : node.kind = .ifGoto) {holds : Bool}
    (hholds : reading.holds? node state = some holds) :
    reading.process.Advances (.inside (.node node :: rest) state) []
      (if holds then .outside (.jump node.value) state else .inside rest state) := by
  apply advances_of_perform?
  simp only [perform?, hkind, hholds, Option.map_some]

theorem advances_goto (hkind : node.kind = .goto) (hparams : node.params = []) :
    reading.process.Advances (.inside (.node node :: rest) state) []
      (.outside (.jump node.value) state) := by
  apply advances_of_perform?
  simp only [perform?, hkind, hparams, if_true, Option.map_some]

theorem advances_switch (hkind : node.kind = .switch) {chosen : Option Node}
    (hchosen : reading.choose? node state node.children = some chosen) :
    reading.process.Advances (.inside (.node node :: rest) state) []
      (.inside ((chosen.map fun case => case.children.map .node ++ [.switchEnd]).getD [] ++ rest)
        state) := by
  apply advances_of_perform?
  simp only [perform?, hkind, hchosen, Option.map_some]

/-- Leaving a dispatch at the end of a case goes on behind the dispatch. -/
theorem advances_exitSwitch (hkind : node.kind = .exitSwitch) :
    reading.process.Advances (.inside (.node node :: .switchEnd :: rest) state) []
      (.inside rest state) := by
  apply advances_of_perform?
  simp only [perform?, hkind]
  rfl

/-- A condition with an operator that tests for equality. -/
theorem holds?_eq {left right : String} {comparison : Comparison}
    (hequality : comparison = .eq ∨ comparison = .ne)
    (hparams : node.params = [left, comparison.text, right]) (state : State) :
    reading.holds? node state
      = some (if comparison = .eq then reading.same node.address left right state
          else !reading.same node.address left right state) := by
  have hread : Comparison.read? comparison.text = some comparison := by
    rcases hequality with rfl | rfl <;> decide
  have hcondition : node.condition? = some (left, comparison, right) := by
    simp only [Node.condition?, hparams, hread, Option.map_some]
  rcases hequality with rfl | rfl <;> simp [holds?, hcondition]

end Reading

end Lift6502
