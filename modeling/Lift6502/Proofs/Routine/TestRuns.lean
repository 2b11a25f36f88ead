import Lift6502.Proofs.Routine.Watched
import Lift6502.Proofs.Shape.Adjacency
import Lift6502.Proofs.Symbol.Targets
import Mathlib.Data.Set.Operations

/-!
# Tests run like their code

Blocks that end in tests are left by the first branch that is taken, or behind the last of them. The
conditional jumps that are written for them stand behind the statements of their blocks, so that
tree and code go on side by side. A dispatch is written as one node behind the statements of its
first block: the other blocks hold nothing but their tests, so that nothing changes while control
runs from one test to the next, and the first case with an equal constant is the first branch that
is taken.
-/

namespace Lift6502

/-- How nodes are left where code is left to an address: behind the last node if it is the address
behind the code, else by a jump to the label that names it. The name is all that ties the jump to
the address: it tells which address is meant where names differ (`LeaveAlike.address_eq`), and two
addresses that share a name are both led to. -/
def Departure.LeadsTo (symbols : SymbolTable) (exit : Address) : Departure → Address → Prop
  | through, address => address = exit
  | jump label, address => label = symbols.codeName address
  | back, _ => False

/-- A tree and code are left for the same place in the same state. -/
def LeaveAlike {State : Type} (symbols : SymbolTable) (exit : Address) (result : Departure × State)
    (outcome : Address × State) : Prop :=
  result.1.LeadsTo symbols exit outcome.1 ∧ result.2 = outcome.2

/-- An instruction stands in one block only. -/
theorem Block.eq_of_mem_of_mem {blocks : List Block} (h : Ascending (instructionsOf blocks))
    {block other : Block} (hblock : block ∈ blocks) (hother : other ∈ blocks) {i : Instruction}
    (hi : i ∈ block.instructions) (hi' : i ∈ other.instructions) : block = other := by
  have hpairwise : blocks.Pairwise fun block other =>
      ∀ i ∈ block.instructions, i ∈ other.instructions → block = other := by
    refine List.Pairwise.imp ?_ (List.pairwise_flatMap.mp h).2
    intro block other hlt i hi hi'
    exact absurd (hlt i hi i hi') (UInt16.lt_irrefl _)
  have hsymm : Std.Symm fun block other : Block =>
      ∀ i ∈ block.instructions, i ∈ other.instructions → block = other :=
    ⟨fun _ _ hsame i hi hi' => (hsame i hi' hi).symm⟩
  exact hpairwise.forall_of_forall (fun _ _ _ _ _ => rfl) hblock hother i hi hi'

/-- A match is a dispatch on a register: every test branches if the register is equal, and only the
first block may hold more than its test. -/
structure Match.Dispatches (found : Match) (register : Register) (first : Block)
    (rest : List Block) : Prop where
  shape : found.shape = .dispatch
  blocks : found.blocks = first :: rest
  subject : found.register = some register
  tests : ∀ block ∈ found.blocks, ∃ test, block.test? = some test ∧ test.onEqual = true ∧
    test.register = register
  pairs : ∀ block ∈ rest, block.instructions.length = 2

theorem Shape.dispatches_of_detectDispatch {symbols : SymbolTable} {blocks : List Block}
    {found : Match} (h : detectDispatch symbols blocks = some found) :
    ∃ register first rest, found.Dispatches register first rest := by
  obtain ⟨hzero, rfl⟩ := detectDispatch_eq_some_iff.mp h
  obtain ⟨length, hlength⟩ := Nat.exists_eq_succ_of_ne_zero hzero
  obtain ⟨first, rest, test, rfl, htest, honEqual, hrest⟩ := Block.dispatchLength_tests hlength
  rw [hlength, List.take_succ_cons]
  refine ⟨test.register, first, rest.take length, rfl, rfl, ?_, ?_,
    fun block hblock => (hrest block hblock).1⟩
  · simp [dispatchMatch, htest]
  · exact List.forall_mem_cons.mpr
      ⟨⟨test, htest, honEqual, rfl⟩, fun block hblock => (hrest block hblock).2⟩

namespace Routine

/-- The statements of a block and the conditional jump for its test. -/
def testNodes (symbols : SymbolTable) (found : Match) (block : Block) : List Node :=
  (found.unabsorbed block.instructions).map (Statement.ofInstruction symbols) ++
    (block.test?.map (conditionalJump symbols)).toList

theorem conditionals_eq_flatMap (symbols : SymbolTable) {found : Match}
    (hascending : Ascending found.instructions) :
    conditionals symbols found = found.blocks.flatMap (testNodes symbols found) := by
  refine List.flatMap_congr fun block hblock => ?_
  rw [statements_contains symbols found hascending hblock, testNodes]

end Routine

namespace Match

variable {found : Match}

/-- The statements of a block that ends in a test are those of all instructions in front of it. -/
theorem Tested.kept (h : found.Tested) (hascending : Ascending found.instructions) {block : Block}
    (hblock : block ∈ found.blocks) {test : Test} (htest : block.test? = some test)
    {front : List Instruction}
    (hparts : block.instructions = front ++ [test.compare, test.branch]) :
    ∀ i ∈ front, found.absorbs i = false := by
  intro i hi
  rw [Bool.eq_false_iff]
  intro habsorbs
  have himem : i ∈ block.instructions := by simp [hparts, hi]
  obtain ⟨other, hother, absorbed, habsorbed, haddress⟩ := h.absorbs_iff.mp habsorbs
  -- What is absorbed at the address of the instruction is the instruction, so its block is the one.
  have hsame {j : Instruction} (hj : j ∈ other.instructions)
      (haddress : j.address = i.address) : j = i :=
    hascending.eq_of_address_eq (Block.mem_instructionsOf.mpr ⟨other, hother, hj⟩)
      (Block.mem_instructionsOf.mpr ⟨block, hblock, himem⟩) haddress
  have hcloses := Block.test?_closes habsorbed
  have hclosing : i = absorbed.compare ∨ i = absorbed.branch := by
    rcases haddress with haddress | haddress
    · exact Or.inl (hsame hcloses.compare_mem haddress).symm
    · exact Or.inr (hsame hcloses.branch_mem haddress).symm
  have himem' : i ∈ other.instructions := by
    rcases hclosing with rfl | rfl
    · exact hcloses.compare_mem
    · exact hcloses.branch_mem
  obtain rfl := Block.eq_of_mem_of_mem hascending hblock hother himem himem'
  obtain rfl := Option.some.inj (htest.symm.trans habsorbed)
  have hordered : Ascending block.instructions :=
    hascending.sublist (List.sublist_flatten_of_mem (List.mem_map_of_mem hblock))
  rw [hparts] at hordered
  have hlt := (List.pairwise_append.mp hordered).2.2 i hi i (by simpa using hclosing)
  exact absurd hlt (UInt16.lt_irrefl _)

theorem Tested.unabsorbed_block (h : found.Tested) (hascending : Ascending found.instructions)
    {block : Block} (hblock : block ∈ found.blocks) {test : Test} (htest : block.test? = some test)
    {front : List Instruction}
    (hparts : block.instructions = front ++ [test.compare, test.branch]) :
    found.unabsorbed block.instructions = front := by
  refine unabsorbed_of_front hparts (h.kept hascending hblock htest hparts) fun i hi => ?_
  rcases List.mem_pair.mp hi with rfl | rfl
  · exact h.absorbs_iff.mpr ⟨block, hblock, test, htest, Or.inl rfl⟩
  · exact h.absorbs_iff.mpr ⟨block, hblock, test, htest, Or.inr rfl⟩

/-- Tests are left when a branch is taken, and behind the last of them. -/
def leavesTests (found : Match) (i : Instruction) (taken : Bool) : Bool :=
  taken || found.blocks.getLast?.any (·.last == i)

theorem leavesTests_last {before : List Block} {block : Block} {test : Test}
    (hblocks : found.blocks = before ++ [block]) (htest : block.test? = some test) (taken : Bool) :
    found.leavesTests test.branch taken = true := by
  have hlast := (Block.terminator?_eq_some.mp (Block.test?_closes htest).terminator).2
  simp [leavesTests, hblocks, hlast]

theorem leavesTests_inner (hascending : Ascending found.instructions) {before rest : List Block}
    {block next : Block} {test : Test} (hblocks : found.blocks = before ++ block :: next :: rest)
    (htest : block.test? = some test) (taken : Bool) :
    found.leavesTests test.branch taken = taken := by
  have hordered := (List.pairwise_flatMap.mp hascending).2
  rw [hblocks] at hordered
  have hlater := (List.pairwise_cons.mp (List.pairwise_append.mp hordered).2.1).1
  have hlast : found.blocks.getLast? = (next :: rest).getLast? := by
    rw [hblocks, List.getLast?_append_cons, List.getLast?_cons_cons]
  have hother : (next :: rest).getLast?.any (·.last == test.branch) = false := by
    rw [Option.any_eq_false]
    intro last hmem
    have hlt := hlater last (List.mem_of_getLast? hmem) test.branch
      (Block.test?_closes htest).branch_mem last.last
      (List.getLast_mem last.nonempty)
    rw [beq_eq_false_iff_ne]
    intro hsame
    rw [hsame] at hlt
    exact absurd hlt (UInt16.lt_irrefl _)
  rw [leavesTests, hlast, hother, Bool.or_false]

section Runs

variable {State : Type} (meaning : Meaning State) {code : List Instruction}
  (hascending : Ascending code)
  (hwithin : found.blocks <:+: Block.partition code) (htested : found.Tested)
include hascending hwithin htested

/-! ### Single tests -/

section Steps

variable {before : List Block} {block : Block} {test : Test} (htest : block.test? = some test)
  (state : State) (equal : Bool)
include htest

theorem advances_closing (hblock : block ∈ found.blocks) :
    (found.watch meaning code found.leavesTests).Advances
      (.inside test.compare.address state equal) []
      (if found.leavesTests test.branch (test.takes meaning state) then
        .outside (if test.takes meaning state then test.target else block.nextAddress) state
      else
        .inside (if test.takes meaning state then test.target else block.nextAddress) state
          (meaning.equal test.compare state)) := by
  apply found.advances_test meaning found.leavesTests hascending (hwithin.subset hblock)
    (Block.test?_closes htest)
  exact htested.absorbs_iff.mpr ⟨block, hblock, test, htest, Or.inl rfl⟩

theorem advances_taken (hblock : block ∈ found.blocks) (htakes : test.takes meaning state = true) :
    (found.watch meaning code found.leavesTests).Advances
      (.inside test.compare.address state equal) []
      (.outside test.target state) := by
  have hstep := advances_closing meaning hascending hwithin htested htest state equal hblock
  rwa [htakes] at hstep

theorem advances_last (hblocks : found.blocks = before ++ [block])
    (hpasses : test.takes meaning state = false) :
    (found.watch meaning code found.leavesTests).Advances
      (.inside test.compare.address state equal) []
      (.outside block.nextAddress state) := by
  have hstep := advances_closing meaning hascending hwithin htested htest state equal
    (by simp [hblocks])
  rwa [hpasses, leavesTests_last hblocks htest] at hstep

theorem advances_next (hjoined : Block.Joined found.blocks) {next : Block} {rest : List Block}
    (hblocks : found.blocks = before ++ block :: next :: rest)
    (hpasses : test.takes meaning state = false) :
    (found.watch meaning code found.leavesTests).Advances
      (.inside test.compare.address state equal) []
      (.inside next.start state (meaning.equal test.compare state)) := by
  have hstep := advances_closing meaning hascending hwithin htested htest state equal
    (by simp [hblocks])
  have hnext : block.nextAddress = next.start := by
    have hpair : Block.Joined [block, next] :=
      List.IsChain.infix hjoined ⟨before, rest, by simp [hblocks]⟩
    exact Block.joined_pair.mp hpair
  rw [hpasses, leavesTests_inner (Block.ascending_of_infix_partition hascending hwithin) hblocks
    htest] at hstep
  rwa [← hnext]

end Steps

/-! ### Conditional jumps -/

variable {meaning} {symbols : SymbolTable} {reading : Reading State}
  (hagrees : reading.Agrees meaning symbols found fun test => test.compare.address)
include hagrees

/-- The statements of a block lead to its test. -/
theorem endAlike_of_test {exit : Address} {block : Block} (hblock : block ∈ found.blocks)
    {test : Test} (htest : block.test? = some test) {tasks : List Task} {equal : Bool}
    (h : ∀ state, Process.EndAlike reading.process (found.watch meaning code found.leavesTests)
      (LeaveAlike symbols exit) (.inside tasks state) (.inside test.compare.address state equal))
    (state : State) :
    Process.EndAlike reading.process (found.watch meaning code found.leavesTests)
      (LeaveAlike symbols exit)
      (.inside
        (((found.unabsorbed block.instructions).map (Statement.ofInstruction symbols)).map .node
          ++ tasks) state)
      (.inside block.start state equal) := by
  obtain ⟨front, hfront⟩ := (Block.test?_closes htest).instructions
  have hordered := Block.ascending_of_infix_partition hascending hwithin
  have hkept := htested.kept hordered hblock htest hfront
  have hparts : block.instructions = [] ++ (front ++ [test.compare, test.branch]) := hfront
  rw [htested.unabsorbed_block hordered hblock htest hfront]
  exact (hagrees.moveAlike_within hascending found.leavesTests (hwithin.subset hblock) hblock
    hparts hkept (hfront ▸ block.head?_address) tasks state equal).endAlike (h _)

/-- A conditional jump leaves if the branch is taken, else both go on. -/
theorem endAlike_of_conditionalJump {exit : Address} {block : Block} (hblock : block ∈ found.blocks)
    {test : Test} (htest : block.test? = some test) {tasks : List Task} {equal : Bool}
    (h : ∀ state, test.takes meaning state = false →
      Process.EndAlike reading.process (found.watch meaning code found.leavesTests)
      (LeaveAlike symbols exit)
        (.inside tasks state) (.inside test.compare.address state equal)) (state : State) :
    Process.EndAlike reading.process (found.watch meaning code found.leavesTests)
      (LeaveAlike symbols exit)
      (.inside (.node (Routine.conditionalJump symbols test) :: tasks) state)
      (.inside test.compare.address state equal) := by
  have hholds : reading.holds? (Routine.conditionalJump symbols test) state
      = some (test.takes meaning state) :=
    hagrees.holds_takenWhen hblock htest rfl state rfl
  have hstep : reading.process.Advances
      (.inside (.node (Routine.conditionalJump symbols test) :: tasks) state) [] _ :=
    Reading.advances_ifGoto rfl hholds
  cases htakes : test.takes meaning state with
  | true =>
    rw [htakes] at hstep
    have htaken := advances_taken meaning hascending hwithin htested htest state equal hblock htakes
    exact ((Process.MoveAlike.of_left hstep).trans (.of_right htaken)).endAlike
      (.of_results rfl rfl ⟨rfl, rfl⟩)
  | false =>
    rw [htakes] at hstep
    exact (Process.MoveAlike.of_left hstep).endAlike (h state htakes)

variable (hjoined : Block.Joined found.blocks)
include hjoined

/-- From each block on, the conditional jumps end like the code. By induction on the blocks that are
left: behind a test that is not taken comes the next block or, at the last, the end of both. -/
theorem conditionals_endAlike {before rest : List Block} {block last : Block}
    (hblocks : found.blocks = before ++ block :: rest)
    (hlast : (block :: rest).getLast? = some last) (state : State) (equal : Bool) :
    Process.EndAlike reading.process (found.watch meaning code found.leavesTests)
      (LeaveAlike symbols last.nextAddress)
      (.inside (((block :: rest).flatMap (Routine.testNodes symbols found)).map .node) state)
      (.inside block.start state equal) := by
  induction rest generalizing before block state equal with
  | nil =>
    have hblock : block ∈ found.blocks := by simp [hblocks]
    obtain rfl := Option.some.inj hlast
    obtain ⟨test, htest⟩ := htested.tests block hblock
    rw [List.flatMap_singleton, Routine.testNodes, htest, Option.map_some, Option.toList_some,
      List.map_append]
    refine endAlike_of_test hascending hwithin htested hagrees hblock htest (fun state => ?_) state
    refine endAlike_of_conditionalJump hascending hwithin htested hagrees hblock htest
      (fun state hpasses => ?_) state
    have hpassed :=
      advances_last meaning hascending hwithin htested htest state equal hblocks hpasses
    exact ((Process.MoveAlike.of_left (Reading.advances_through state)).trans
      (.of_right hpassed)).endAlike
      (.of_results rfl rfl ⟨rfl, rfl⟩)
  | cons next rest ih =>
    have hblock : block ∈ found.blocks := by simp [hblocks]
    obtain ⟨test, htest⟩ := htested.tests block hblock
    rw [List.flatMap_cons, Routine.testNodes, htest, Option.map_some, Option.toList_some,
      List.append_assoc, List.map_append]
    refine endAlike_of_test hascending hwithin htested hagrees hblock htest (fun state => ?_) state
    refine endAlike_of_conditionalJump hascending hwithin htested hagrees hblock htest
      (fun state hpasses => ?_) state
    have hpassed :=
      advances_next meaning hascending hwithin htested htest state equal hjoined hblocks hpasses
    refine (Process.MoveAlike.of_right hpassed).endAlike ?_
    exact ih (hblocks.trans (List.append_cons before block _)) hlast state
      (meaning.equal test.compare state)

/-! ### Dispatches -/

omit hagrees in
variable (meaning) in
/-- Control runs through tests that stand alone to the target of the first branch that is taken, or
behind the last of them. -/
theorem reaches_target {before rest : List Block} {block last : Block}
    (hblocks : found.blocks = before ++ block :: rest)
    (hpairs : ∀ block ∈ rest, block.instructions.length = 2)
    (hlast : (block :: rest).getLast? = some last) {test : Test} (htest : block.test? = some test)
    (state : State) (equal : Bool) :
    (found.watch meaning code found.leavesTests).Reaches
      (.inside test.compare.address state equal) []
      (.outside
        (((((block :: rest).filterMap Block.test?).find? (·.takes meaning state)).map
          Test.target).getD last.nextAddress)
        state) := by
  induction rest generalizing before block test equal with
  | nil =>
    obtain rfl := Option.some.inj hlast
    rw [List.filterMap_cons_some htest, List.find?_cons]
    cases htakes : test.takes meaning state with
    | true =>
      exact (advances_taken meaning hascending hwithin htested htest state equal
        (by simp [hblocks]) htakes).reaches
    | false =>
      exact (advances_last meaning hascending hwithin htested htest state equal hblocks
        htakes).reaches
  | cons next rest ih =>
    rw [List.filterMap_cons_some htest, List.find?_cons]
    cases htakes : test.takes meaning state with
    | true =>
      exact (advances_taken meaning hascending hwithin htested htest state equal
        (by simp [hblocks]) htakes).reaches
    | false =>
      obtain ⟨following, hfollowing⟩ := htested.tests next (by simp [hblocks])
      have hstart : next.start = following.compare.address := by
        have hhead := next.head?_address
        rw [(Block.test?_closes hfollowing).eq_pair (hpairs next List.mem_cons_self)] at hhead
        exact (Option.some.inj hhead).symm
      have hstep :=
        advances_next meaning hascending hwithin htested htest state equal hjoined hblocks htakes
      rw [hstart] at hstep
      exact hstep.reaches.trans (ih (hblocks.trans (List.append_cons before block _))
        (List.forall_mem_cons.mp hpairs).2 hlast
        hfollowing _)

omit hascending hwithin htested hjoined in
/-- Of the cases of a dispatch the first is taken whose branch is taken. -/
theorem choose?_dispatchCases {register : Register} {exit : Address} {tests : List Test}
    (htests : ∀ test ∈ tests, test.onEqual = true ∧ test.register = register ∧
      ∃ block ∈ found.blocks, block.test? = some test)
    {switch : Node} (hvalue : switch.value = register.text) (state : State) :
    reading.choose? switch state (tests.map (Routine.dispatchCase symbols register.text exit))
      = some ((tests.find? (·.takes meaning state)).map
        (Routine.dispatchCase symbols register.text exit)) := by
  induction tests with
  | nil => rfl
  | cons test tests ih =>
    obtain ⟨⟨honEqual, hregister, block, hblock, htest⟩, hrest⟩ := List.forall_mem_cons.mp htests
    have hselects :
        reading.selects? switch (Routine.dispatchCase symbols register.text exit test) state
        = some (test.takes meaning state) := by
      have hsame := hagrees.condition block hblock test htest
      rw [hregister] at hsame
      simp [Reading.selects?, Routine.dispatchCase, hvalue, hsame, Test.takes, honEqual]
    rw [List.map_cons, Reading.choose?, hselects, Option.bind_some, List.find?_cons]
    cases test.takes meaning state with
    | true => rfl
    | false => exact ih hrest

omit hascending hwithin htested hjoined in
/-- A dispatch leaves for the target of the first branch that is taken. A case with the address
behind the dispatch as its target goes on behind it. -/
theorem endAlike_of_switch {register : Register} {exit : Address} {tests : List Test}
    (htests : ∀ test ∈ tests, test.onEqual = true ∧ test.register = register ∧
      ∃ block ∈ found.blocks, block.test? = some test)
    {switch : Node} (hkind : switch.kind = .switch) (hvalue : switch.value = register.text)
    (hchildren : switch.children = tests.map (Routine.dispatchCase symbols register.text exit))
    {place : Address} {state : State} {equal : Bool}
    (hcode : (found.watch meaning code found.leavesTests).Reaches (.inside place state equal) []
      (.outside (((tests.find? (·.takes meaning state)).map Test.target).getD exit) state)) :
    Process.EndAlike reading.process (found.watch meaning code found.leavesTests)
      (LeaveAlike symbols exit)
      (.inside [.node switch] state) (.inside place state equal) := by
  have hswitch : reading.process.Advances (.inside [.node switch] state) [] _ :=
    Reading.advances_switch hkind (hchildren ▸ choose?_dispatchCases hagrees htests hvalue state)
  refine Process.MoveAlike.endAlike ⟨[], hswitch.reaches, hcode⟩ ?_
  cases tests.find? (·.takes meaning state) with
  | none =>
    exact (Process.MoveAlike.of_left (Reading.advances_through state)).endAlike
      (.of_results rfl rfl ⟨rfl, rfl⟩)
  | some chosen =>
    by_cases hexit : chosen.target = exit
    · have hcase : (Routine.dispatchCase symbols register.text exit chosen).children
          = [{ kind := .exitSwitch }] := by
        simp [Routine.dispatchCase, hexit]
      have hleaves : reading.process.Advances
          (.inside [.node { kind := .exitSwitch }, .switchEnd] state) [] _ :=
        Reading.advances_exitSwitch rfl
      rw [Option.map_some, Option.map_some, hcase]
      exact (Process.MoveAlike.of_left
        (hleaves.trans (Reading.advances_through state).reaches)).endAlike
        (.of_results rfl rfl ⟨hexit, rfl⟩)
    · have hcase : (Routine.dispatchCase symbols register.text exit chosen).children
          = [{ kind := .goto, value := symbols.codeName chosen.target }] := by
        simp [Routine.dispatchCase, hexit]
      have hjumps : reading.process.Advances
          (.inside [.node { kind := .goto, value := symbols.codeName chosen.target },
            .switchEnd] state) [] _ :=
        Reading.advances_goto rfl rfl
      rw [Option.map_some, Option.map_some, hcase]
      exact (Process.MoveAlike.of_left hjumps).endAlike (.of_results rfl rfl ⟨rfl, rfl⟩)

theorem dispatch_endAlike {register : Register} {first last : Block} {rest : List Block}
    (h : found.Dispatches register first rest) (hlast : found.blocks.getLast? = some last)
    (state : State) (equal : Bool) :
    Process.EndAlike reading.process (found.watch meaning code found.leavesTests)
      (LeaveAlike symbols last.nextAddress)
      (.inside ((Routine.dispatch symbols found).map .node) state)
      (.inside first.start state equal) := by
  have hordered := Block.ascending_of_infix_partition hascending hwithin
  have hfirst : first ∈ found.blocks := by simp [h.blocks]
  obtain ⟨test, htest, -⟩ := h.tests first hfirst
  have hcases : ∀ test ∈ found.blocks.filterMap Block.test?, test.onEqual = true ∧
      test.register = register ∧
      ∃ block ∈ found.blocks, block.test? = some test := by
    intro other hother
    obtain ⟨block, hblock, htest⟩ := List.mem_filterMap.mp hother
    obtain ⟨same, hsame, honEqual, hregister⟩ := h.tests block hblock
    obtain rfl := Option.some.inj (htest.symm.trans hsame)
    exact ⟨honEqual, hregister, block, hblock, htest⟩
  have hhead : found.blocks.head? = some first := by rw [h.blocks, List.head?_cons]
  rw [Routine.dispatch, hhead, hlast]
  simp only [Routine.statements_contains symbols found hordered hfirst, Routine.registerText,
    h.subject, Option.map_some, Option.getD_some, List.map_append]
  refine endAlike_of_test hascending hwithin htested hagrees hfirst htest (fun state => ?_) state
  have hsplit : found.blocks = [] ++ first :: rest := h.blocks
  have hcode := reaches_target meaning hascending hwithin htested hjoined hsplit h.pairs
    (h.blocks ▸ hlast) htest state equal
  rw [← h.blocks] at hcode
  exact endAlike_of_switch hagrees hcases rfl rfl rfl hcode

end Runs

end Match

/-- Conditionals, chains of them and dispatches run like the nodes that are built for them, whatever
the instructions do that they leave alone and whatever their comparisons find. Tree and code make
the same changes and end: the code leaves for the target of the first branch that is taken or for
the address behind the last block, and the tree jumps to the label of that address or, if it is the
one behind the last block, may also be left behind its last node. -/
theorem tests_run_like_code {symbols : SymbolTable} {code : List Instruction} {blocks : List Block}
    {found : Match} (hascending : Ascending code) (hwithin : blocks <:+: Block.partition code)
    (hfound : Shape.detectConditional symbols blocks = some found ∨
      Shape.detectDispatch symbols blocks = some found)
    {State : Type} (meaning : Meaning State) (usage : Usage) :
    ∃ first last, found.blocks.head? = some first ∧ found.blocks.getLast? = some last ∧
      (∃ reading : Reading State, reading.Agrees meaning symbols found fun test =>
        test.compare.address) ∧
      ∀ reading : Reading State,
        reading.Agrees meaning symbols found (fun test => test.compare.address) → ∀ state equal,
        Process.EndAlike reading.process (found.watch meaning code found.leavesTests)
          (LeaveAlike symbols last.nextAddress)
          (.inside ((Routine.structured symbols usage found).2.map .node) state)
          (.inside first.start state equal) := by
  have hpromises : found.Fits blocks ∧ found.Sound :=
    hfound.elim Shape.detectConditional_promises Shape.detectDispatch_promises
  have hjoined := hfound.elim Shape.joined_of_detectConditional Shape.joined_of_detectDispatch
  have hclaimed : found.blocks <:+: Block.partition code :=
    hpromises.1.isPrefix.isInfix.trans hwithin
  have hordered := Block.ascending_of_infix_partition hascending hclaimed
  obtain ⟨first, rest, hblocks⟩ := List.exists_cons_of_ne_nil hpromises.1.nonempty
  obtain ⟨last, hlast⟩ : ∃ last, found.blocks.getLast? = some last :=
    ⟨_, List.getLast?_eq_some_getLast hpromises.1.nonempty⟩
  refine ⟨first, last, by rw [hblocks, List.head?_cons], hlast,
    ⟨_, Reading.ofMeaning_agrees meaning symbols hordered ?_⟩, ?_⟩
  · intro block hblock test htest nearby hnearby other hother haddress
    exact hordered.eq_of_address_eq
      (Block.mem_instructionsOf.mpr ⟨block, hblock, (Block.test?_closes htest).compare_mem⟩)
      (Block.mem_instructionsOf.mpr ⟨nearby, hnearby, (Block.test?_closes hother).compare_mem⟩)
        haddress
  · intro reading hagrees state equal
    rcases hfound with hconditional | hdispatch
    · have htested := Shape.detectConditional_tested hconditional
      have hsplit : found.blocks = [] ++ first :: rest := hblocks
      have hruns := Match.conditionals_endAlike hascending hclaimed htested hagrees hjoined hsplit
        (hblocks ▸ hlast) state equal
      rw [← hblocks, ← Routine.conditionals_eq_flatMap symbols hordered] at hruns
      rcases Shape.detectConditional_shape hconditional with hshape | hshape
      · rwa [Routine.structured, hshape]
      · -- The chain is one node, which is opened first.
        have hopens : reading.process.Advances
            (.inside [.node { kind := .nestedIf, children := Routine.conditionals symbols found }]
              state) [] _ :=
          Reading.advances_nestedIf rfl
        rw [List.append_nil] at hopens
        rw [Routine.structured, hshape]
        exact (Process.MoveAlike.of_left hopens).endAlike hruns
    · obtain ⟨register, head, others, h⟩ := Shape.dispatches_of_detectDispatch hdispatch
      obtain ⟨rfl, rfl⟩ := List.cons.inj (hblocks.symm.trans h.blocks)
      have htested := Shape.detectDispatch_tested hdispatch
      rw [Routine.structured, h.shape]
      exact Match.dispatch_endAlike hascending hclaimed htested hagrees hjoined h hlast state equal

/-- Code that loads a value and looks for it among three. -/
def choosingCode : List Instruction :=
  [{ address := 0xC000, mnemonic := .lda, operand := .immediate 2 },
   { address := 0xC002, mnemonic := .cmp, operand := .immediate 1 },
   { address := 0xC004, mnemonic := .beq, operand := .absolute 0xC100 },
   { address := 0xC006, mnemonic := .cmp, operand := .immediate 2 },
   { address := 0xC008, mnemonic := .beq, operand := .absolute 0xC200 },
   { address := 0xC00A, mnemonic := .cmp, operand := .immediate 2 },
   { address := 0xC00C, mnemonic := .beq, operand := .absolute 0xC00E }]

/-- The accumulator. -/
def choosingMeaning : Meaning UInt8 where
  effect i state :=
    match i.operand with
    | .immediate value => value
    | _ => state
  equal i state := i.operand == .immediate state

theorem choosingCode_recognised :
    (Shape.detectDispatch {} (Block.partition choosingCode)).isSome := by
  decide +kernel

theorem choosingCode_runs :
    ∃ found, Shape.detectDispatch {} (Block.partition choosingCode) = some found ∧
      ∃ reading : Reading UInt8, reading.process.Ends
        (.inside ((Routine.structured {} {} found).2.map .node) 0) [2]
        (.jump (SymbolTable.codeName {} 0xC200), 2) := by
  have hfound := (Option.some_get choosingCode_recognised).symm
  obtain ⟨first, last, hfirst, hlast, ⟨reading, hagrees⟩, hruns⟩ :=
    tests_run_like_code (by decide) (List.infix_refl _) (Or.inr hfound) choosingMeaning {}
  generalize hget : (Shape.detectDispatch {}
    (Block.partition choosingCode)).get choosingCode_recognised = found at *
  have hstart : found.blocks.head?.map Block.start = some 0xC000 := by rw [← hget]; decide +kernel
  have hcode : (found.watch choosingMeaning choosingCode found.leavesTests).Ends
      (.inside 0xC000 0 false) [2] (0xC200, 2) := by
    refine ⟨.outside 0xC200 2, ⟨5, ?_⟩, rfl⟩
    rw [← hget]
    decide +kernel
  have hexit : found.blocks.getLast?.map Block.nextAddress = some 0xC00E := by
    rw [← hget]; decide +kernel
  rw [hfirst] at hstart
  rw [hlast] at hexit
  obtain ⟨changes, ⟨departure, state⟩, outcome, htree, hends, hleaves, rfl⟩ :=
    hruns reading hagrees 0 false
  rw [Option.some.inj hstart] at hends
  rw [Option.some.inj hexit] at hleaves
  obtain ⟨rfl, rfl⟩ := hcode.unique hends
  refine ⟨found, hfound, reading, ?_⟩
  cases departure with
  | through => cases hleaves
  | jump label =>
    obtain rfl : label = SymbolTable.codeName {} 0xC200 := hleaves
    exact htree
  | back => cases hleaves

/-! ### Labels and addresses -/

/-- Whether different addresses of a table have different names. -/
def SymbolTable.TellsApart (symbols : SymbolTable) : Prop :=
  ∀ left right name, symbols.name? left = some name → symbols.name? right = some name → left = right

section

variable {text : String} {sources : Sources}

/-- If the names of a listing differ, they tell to which address a jump, a branch or a call goes. -/
theorem SymbolTable.TellsApart.injOn_codeName
    (h : (resolve (Listing.read text).candidates sources).TellsApart) :
    Set.InjOn (resolve (Listing.read text).candidates sources).codeName
      {target | ∃ i ∈ (Listing.read text).instructions, i.target? = some target} := by
  have hnamed : ∀ target, (∃ i ∈ (Listing.read text).instructions, i.target? = some target) →
      (Listing.read text).candidates.Claims target := by
    rintro target ⟨i, hi, htarget⟩
    exact Candidates.claims_collect _ hi htarget
  intro left hleft right hright hsame
  refine h left right _ (name?_resolve_eq_codeName _ sources (hnamed left hleft)) ?_
  rw [hsame]
  exact name?_resolve_eq_codeName _ sources (hnamed right hright)

/-- If the names of a listing differ, a tree that is left by a jump to the label of a target is left
for the same target as the code. -/
theorem LeaveAlike.address_eq {State : Type} {exit target : Address} {state : State}
    {outcome : Address × State}
    (hapart : (SymbolTable.resolve (Listing.read text).candidates sources).TellsApart)
    (htarget : ∃ i ∈ (Listing.read text).instructions, i.target? = some target)
    (houtcome : ∃ i ∈ (Listing.read text).instructions, i.target? = some outcome.1)
    (h : LeaveAlike (SymbolTable.resolve (Listing.read text).candidates sources) exit
      (.jump ((SymbolTable.resolve (Listing.read text).candidates sources).codeName target), state)
      outcome) :
    target = outcome.1 :=
  hapart.injOn_codeName htarget houtcome h.1

end

end Lift6502
