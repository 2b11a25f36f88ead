import Lift6502.Proofs.Flow.Runs
import Lift6502.Proofs.Routine.Accounting
import Lift6502.Proofs.Routine.Transfers
import Lift6502.Proofs.Tree.Execution

/-!
# Code that is watched until it is left

What the instructions do that a shape leaves alone is left open; a comparison that it absorbs is
taken for a test whether two values are equal, which the branch behind it follows. Code is watched
from one address on until control leaves it at a branch. A tree that was built from it is read in
the same sense if its statements do what their instructions do, and if its conditions compare what
was compared.
-/

namespace Lift6502

/-- What instructions do to a state, and in which states a comparison finds equal values. -/
structure Meaning (State : Type) where
  effect : Instruction → State → State
  equal : Instruction → State → Bool

/-- Where control is while code is watched, and what the last comparison found. -/
inductive Control (State : Type) where
  | inside (address : Address) (state : State) (equal : Bool)
  | outside (address : Address) (state : State)
  deriving DecidableEq

namespace Match

variable {State : Type}

/-- The machine that code of a match runs on. -/
def machine (found : Match) (meaning : Meaning State) : Interpretation (State × Bool) where
  effect i place := if found.absorbs i then (place.1, meaning.equal i place.1)
    else (meaning.effect i place.1, place.2)
  taken i place := if i.mnemonic = .beq then place.2 else !place.2

/-- Runs code until control leaves at a branch. Whether it does may depend on whether the branch is
taken. -/
def watch (found : Match) (meaning : Meaning State) (code : List Instruction)
    (leaves : Instruction → Bool → Bool) : Process (Control State) State (Address × State) where
  step?
    | .inside address state equal =>
      (code.find? (·.address == address)).bind fun i =>
        ((found.machine meaning).advance code (address, state, equal)).map fun next =>
          (if i.endsBlock || found.absorbs i then none else some next.2.1,
            if i.mnemonic.isConditionalBranch && leaves i
              ((found.machine meaning).taken i (state, equal)) then
              .outside next.1 next.2.1
            else .inside next.1 next.2.1 next.2.2)
    | .outside _ _ => none
  result?
    | .inside _ _ _ => none
    | .outside address state => some (address, state)
  ended config h := by
    cases config with
    | inside => cases h
    | outside => rfl

end Match

/-- Whether the branch of a test is taken. -/
def Test.takes {State : Type} (test : Test) (meaning : Meaning State) (state : State) : Bool :=
  if test.onEqual then meaning.equal test.compare state else !meaning.equal test.compare state

theorem Operation.not_isConditionalBranch {operation : Operation}
    (h : operation.endsBlock = false) : operation.mnemonic.isConditionalBranch = false := by
  simp only [endsBlock, Mnemonic.endsBlock, Bool.or_eq_false_iff] at h
  exact h.1.1

namespace Match

/-- What is left of instructions of which the last ones are absorbed. -/
theorem unabsorbed_of_front {found : Match} {instructions front back : List Instruction}
    (hparts : instructions = front ++ back) (hfront : ∀ i ∈ front, found.absorbs i = false)
    (hback : ∀ i ∈ back, found.absorbs i = true) : found.unabsorbed instructions = front := by
  rw [hparts, unabsorbed_append, unabsorbed_eq_nil hback, List.append_nil, unabsorbed,
    List.filter_eq_self]
  intro i hi
  simp [hfront i hi]

variable {State : Type} (found : Match) (meaning : Meaning State) {code : List Instruction}
  (leaves : Instruction → Bool → Bool) (hascending : Ascending code)

/-! ### Single steps -/

section Steps

variable {i : Instruction} (hmem : i ∈ code) (state : State) (equal : Bool)
include hascending hmem

theorem advances_statement (hplain : i.endsBlock = false) (hkept : found.absorbs i = false) :
    (found.watch meaning code leaves).Advances
      (.inside i.address state equal) [meaning.effect i state]
      (.inside i.nextAddress (meaning.effect i state) equal) := by
  have hstep : (found.watch meaning code leaves).step? (.inside i.address state equal)
      = some (some (meaning.effect i state),
        .inside i.nextAddress (meaning.effect i state) equal) := by
    simp [watch, Interpretation.find?_address hascending hmem,
      Interpretation.advance_plain hascending hmem hplain, hplain, hkept,
      Operation.not_isConditionalBranch hplain, machine]
  exact Process.advances_of_step hstep

theorem advances_compare (hplain : i.endsBlock = false) (habsorbed : found.absorbs i = true) :
    (found.watch meaning code leaves).Advances (.inside i.address state equal) []
      (.inside i.nextAddress state (meaning.equal i state)) := by
  apply Process.advances_of_quiet_step
  simp [watch, Interpretation.find?_address hascending hmem,
    Interpretation.advance_plain hascending hmem hplain, habsorbed,
    Operation.not_isConditionalBranch hplain, machine]

theorem advances_jump (hjump : i.mnemonic = .jmp) {target : Address}
    (htarget : i.target? = some target) :
    (found.watch meaning code leaves).Advances (.inside i.address state equal) []
      (.inside target state equal) := by
  have hends : i.endsBlock = true := by rw [Operation.endsBlock, hjump]; rfl
  have hbranch : Mnemonic.jmp.isConditionalBranch = false := rfl
  apply Process.advances_of_quiet_step
  simp [watch, Interpretation.find?_address hascending hmem,
    Interpretation.advance_jump hascending hmem hjump htarget, hends, hjump, hbranch]

end Steps

/-! ### Blocks -/

variable {block : Block} (hblock : block ∈ Block.partition code)
include hascending hblock

/-- Control runs through instructions of a block that the shape leaves alone. -/
theorem reaches_within {front segment after : List Instruction} {next : Instruction}
    (hparts : block.instructions = front ++ (segment ++ next :: after))
    (hkept : ∀ i ∈ segment, found.absorbs i = false) {start : Address}
    (hstart : (segment ++ next :: after).head?.map (·.address) = some start) (state : State)
    (equal : Bool) :
    (found.watch meaning code leaves).Reaches (.inside start state equal)
      (trail (segment.map meaning.effect) state)
      (.inside next.address (trailEnd (segment.map meaning.effect) state) equal) := by
  induction segment generalizing front start state with
  | nil =>
    obtain rfl := Option.some.inj hstart
    exact .refl _
  | cons i segment ih =>
    obtain rfl : i.address = start := Option.some.inj hstart
    obtain ⟨hkeeps, hrest⟩ := List.forall_mem_cons.mp hkept
    obtain ⟨second, more, hsecond⟩ :=
      List.exists_cons_of_ne_nil (List.append_ne_nil_of_right_ne_nil segment
      (List.cons_ne_nil next after))
    have hmem : i ∈ code := (Block.sublist_of_mem_partition hblock).subset (by simp [hparts])
    have hsplit : block.instructions = front ++ i :: second :: more := by
      rw [hparts, List.cons_append, hsecond]
    obtain ⟨hplain, haddress⟩ := Block.neighbours_of_mem_partition hblock hsplit
    have hnext : (segment ++ next :: after).head?.map (·.address) = some i.nextAddress := by
      rw [hsecond, List.head?_cons, Option.map_some, haddress]
    have hagain : block.instructions = (front ++ [i]) ++ (segment ++ next :: after) := by
      rw [hparts, List.append_assoc, List.singleton_append, List.cons_append]
    have hstep := advances_statement found meaning leaves hascending hmem state equal hplain hkeeps
    exact hstep.reaches.trans (ih hagain hrest hnext _)

variable {test : Test} (hcloses : test.Closes block) (habsorbed : found.absorbs test.compare = true)
include hcloses habsorbed

/-- A comparison and the branch behind it leave the state alone, and lead to the target or behind
the block. -/
theorem advances_test (state : State) (equal : Bool) :
    (found.watch meaning code leaves).Advances (.inside test.compare.address state equal) []
      (if leaves test.branch (test.takes meaning state) then
        .outside (if test.takes meaning state then test.target else block.nextAddress) state
      else
        .inside (if test.takes meaning state then test.target else block.nextAddress) state
          (meaning.equal test.compare state)) := by
  have hsublist := (Block.sublist_of_mem_partition hblock).subset
  obtain ⟨front, hfront⟩ := hcloses.instructions
  obtain ⟨hplain, haddress⟩ := Block.neighbours_of_mem_partition hblock hfront
  refine (advances_compare found meaning leaves hascending (hsublist hcloses.compare_mem) state
    equal hplain habsorbed).trans
    (Process.Advances.reaches (Process.advances_of_quiet_step ?_))
  rw [← haddress]
  -- The branch follows the comparison right in front of it.
  have hbranch : test.branch.mnemonic.isConditionalBranch = true := by
    rcases hcloses.branch with hbranch | hbranch <;> rw [hbranch] <;> rfl
  have htaken : (found.machine meaning).taken test.branch (state, meaning.equal test.compare state)
      = test.takes meaning state := by
    simp [machine, Test.takes, Test.onEqual]
  have hnext : test.branch.nextAddress = block.nextAddress := by
    rw [Block.nextAddress, (Block.terminator?_eq_some.mp hcloses.terminator).2]
  have hadvance : (found.machine meaning).advance code (test.branch.address, state,
      meaning.equal test.compare state) = _ :=
    Interpretation.advance_branch hascending (hsublist hcloses.branch_mem) hbranch _
  rw [htaken, hcloses.target, hnext, ← apply_ite some, Option.map_some] at hadvance
  simp only [watch, Interpretation.find?_address hascending (hsublist hcloses.branch_mem),
    Option.bind_some, hadvance, Option.map_some, hcloses.branch_endsBlock, Bool.true_or, if_true,
    hbranch, Bool.true_and, htaken]

end Match

/-! ### Statements -/

theorem Mnemonic.isConditionalBranch_of_condition? {mnemonic : Mnemonic} {condition : List String}
    (h : mnemonic.condition? = some condition) : mnemonic.isConditionalBranch = true := by
  cases mnemonic <;> first | rfl | cases h

namespace Statement

theorem call?_isPlain {symbols : SymbolTable} {operand : Operand} {node : Node}
    (h : call? symbols operand = some node) : node.kind.isPlain = true := by
  unfold call? at h
  split at h
  · split at h
    · obtain rfl := Option.some.inj h
      rfl
    · obtain ⟨name, _, rfl⟩ := Option.map_eq_some_iff.mp h
      rfl
  · obtain ⟨name, _, rfl⟩ := Option.map_eq_some_iff.mp h
    rfl

theorem rule?_isPlain {symbols : SymbolTable} {operation : Operation} {node : Node}
    (h : rule? symbols operation = some node) (hplain : operation.endsBlock = false) :
    node.kind.isPlain = true := by
  have hmap {α : Type} {operand : Option α} {make : α → Node}
      (hmake : ∀ text, (make text).kind.isPlain = true)
      (h : operand.map make = some node) : node.kind.isPlain = true := by
    obtain ⟨text, _, rfl⟩ := Option.map_eq_some_iff.mp h
    exact hmake text
  have hbranch := Operation.not_isConditionalBranch hplain
  simp only [rule?] at h
  split at h
  case h_17 => exact call?_isPlain h
  case h_18 hjump =>
    rw [Operation.endsBlock, hjump] at hplain
    cases hplain
  case h_19 =>
    split at h
    · exact hmap (fun _ => rfl) h
    · rename_i hcondition
      rw [Mnemonic.isConditionalBranch_of_condition? hcondition] at hbranch
      cases hbranch
    · split at h
      · rcases implied?_cases h with hkind | hreturn
        · rw [hkind]
          rfl
        · simp [Operation.endsBlock, Mnemonic.endsBlock, hreturn] at hplain
      · cases h
  all_goals exact hmap (fun _ => rfl) h

/-- The statement of an instruction that does not end a block changes the state and nothing else. -/
theorem isPlain_ofInstruction (symbols : SymbolTable) {i : Instruction}
    (hplain : i.endsBlock = false) : (ofInstruction symbols i).kind.isPlain = true := by
  have hstatement :
      ((rule? symbols i.toOperation).getD
        { kind := .raw, value := i.toOperation.text }).kind.isPlain = true := by
    cases hrule : rule? symbols i.toOperation with
    | none => rfl
    | some node => exact rule?_isPlain hrule hplain
  exact hstatement

end Statement

/-! ### Trees that are read in the sense of the code -/

/-- A tree is read in the sense of code that a match claims: the statement of an instruction does
what the instruction does, and the condition of a test compares what is compared there. The place of
a test is the address of the node with its condition. -/
structure Reading.Agrees {State : Type} (reading : Reading State) (meaning : Meaning State)
    (symbols : SymbolTable) (found : Match) (place : Test → Address) : Prop where
  statement : ∀ i ∈ found.instructions, found.absorbs i = false →
    reading.effect (Statement.ofInstruction symbols i) = meaning.effect i
  condition : ∀ block ∈ found.blocks, ∀ test, block.test? = some test →
    reading.same (some (place test)) test.register.text
      (Routine.valueText symbols test.compare.operand)
      = meaning.equal test.compare

namespace Reading

variable {State : Type} {reading : Reading State} {meaning : Meaning State} {symbols : SymbolTable}
  {found : Match}
  {place : Test → Address}

/-- Looks up what nodes mean by their addresses. -/
def ofMeaning (meaning : Meaning State) (found : Match) (place : Test → Address) :
    Reading State where
  effect node :=
    ((found.instructions.find? fun i => some i.address == node.address).map meaning.effect).getD id
  same address _ _ :=
    (((found.blocks.filterMap Block.test?).find? fun test => some (place test) == address).map
      fun test =>
      meaning.equal test.compare).getD fun _ => false

/-- Whatever instructions mean, a tree can be read in their sense, as long as tests that have one
place compare the same. -/
theorem ofMeaning_agrees (meaning : Meaning State) (symbols : SymbolTable)
    (hascending : Ascending found.instructions)
    (hplace : ∀ block ∈ found.blocks, ∀ test, block.test? = some test →
      ∀ nearby ∈ found.blocks, ∀ other, nearby.test? = some other → place test = place other →
      test.compare = other.compare) :
    (ofMeaning meaning found place).Agrees meaning symbols found place where
  statement i hi _ := by
    have hfind := Interpretation.find?_address hascending hi
    simp [ofMeaning, Statement.ofInstruction_address, hfind]
  condition block hblock test htest := by
    have hmem : test ∈ found.blocks.filterMap Block.test? :=
      List.mem_filterMap.mpr ⟨block, hblock, htest⟩
    rw [ofMeaning]
    dsimp only
    cases hfind : (found.blocks.filterMap Block.test?).find? fun other => some (place other) == some
      (place test) with
    | none => simpa using List.find?_eq_none.mp hfind test hmem
    | some other =>
      obtain ⟨nearby, hnearby, hother⟩ := List.mem_filterMap.mp (List.mem_of_find?_eq_some hfind)
      have hsame : place other = place test := by simpa using List.find?_some hfind
      rw [Option.map_some, Option.getD_some,
        hplace nearby hnearby other hother block hblock test htest hsame]

namespace Agrees

variable (h : reading.Agrees meaning symbols found place)
include h

section Conditions

variable {block : Block} (hblock : block ∈ found.blocks) {test : Test}
  (htest : block.test? = some test) {node : Node} (haddress : node.address = some (place test))
  (state : State)
include hblock htest haddress

theorem holds_takenWhen
    (hparams : node.params = [test.register.text, test.takenWhen.text,
      Routine.valueText symbols test.compare.operand]) :
    reading.holds? node state = some (test.takes meaning state) := by
  have hequality : test.takenWhen = .eq ∨ test.takenWhen = .ne := by
    unfold Test.takenWhen
    split <;> simp
  rw [holds?_eq hequality hparams, haddress, h.condition block hblock test htest, Test.takes,
    Test.takenWhen]
  by_cases honEqual : test.onEqual = true <;> simp [honEqual]

theorem holds_inverse
    (hparams : node.params = [test.register.text, test.takenWhen.inverse.text,
      Routine.valueText symbols test.compare.operand]) :
    reading.holds? node state = some !test.takes meaning state := by
  have hequality : test.takenWhen.inverse = .eq ∨ test.takenWhen.inverse = .ne := by
    unfold Test.takenWhen
    split <;> simp [Comparison.inverse]
  rw [holds?_eq hequality hparams, haddress, h.condition block hblock test htest, Test.takes,
    Test.takenWhen]
  by_cases honEqual : test.onEqual = true <;> simp [honEqual, Comparison.inverse]

end Conditions

/-- Where the shape leaves instructions of a block alone, tree and code go on side by side. -/
theorem moveAlike_within {code : List Instruction} (hascending : Ascending code)
    (leaves : Instruction → Bool → Bool) {block : Block} (hblock : block ∈ Block.partition code)
    (hclaimed : block ∈ found.blocks) {front segment after : List Instruction} {next : Instruction}
    (hparts : block.instructions = front ++ (segment ++ next :: after))
    (hkept : ∀ i ∈ segment, found.absorbs i = false) {start : Address}
    (hstart : (segment ++ next :: after).head?.map (·.address) = some start) (tasks : List Task)
    (state : State) (equal : Bool) :
    Process.MoveAlike reading.process (found.watch meaning code leaves)
      (.inside ((segment.map (Statement.ofInstruction symbols)).map .node ++ tasks) state)
      (.inside start state equal)
      (.inside tasks (trailEnd (segment.map meaning.effect) state))
      (.inside next.address (trailEnd (segment.map meaning.effect) state) equal) := by
  have heffects : (segment.map (Statement.ofInstruction symbols)).map reading.effect
      = segment.map meaning.effect := by
    rw [List.map_map]
    refine List.map_congr_left fun i hi => h.statement i ?_ (hkept i hi)
    exact Block.mem_instructionsOf.mpr ⟨block, hclaimed, by simp [hparts, hi]⟩
  have hplain : ∀ node ∈ segment.map (Statement.ofInstruction symbols), node.kind.isPlain
      = true := by
    intro node hnode
    obtain ⟨i, hi, rfl⟩ := List.mem_map.mp hnode
    exact Statement.isPlain_ofInstruction symbols (Block.straight_of_mem_partition hblock
      (by rw [hparts, ← List.append_assoc]) i (List.mem_append_right front hi))
  have htree := reading.reaches_statements hplain tasks state
  rw [heffects] at htree
  exact ⟨_, htree,
    found.reaches_within meaning leaves hascending hblock hparts hkept hstart state equal⟩

end Agrees

end Reading

end Lift6502
