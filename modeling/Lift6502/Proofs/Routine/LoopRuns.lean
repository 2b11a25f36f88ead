import Lift6502.Proofs.Routine.Watched
import Lift6502.Proofs.Shape.Adjacency

/-!
# Loops with a test run like their code

A loop with its test at the top is written with its header in front of it and again at the end of
its body; one with its test at the bottom is written as it stands. In both cases tree and code meet
at the test: where the code is about to compare, the tree is about to look at the condition. From
one test to the next both make the same changes, so that they make the same changes for as long as
they run.
-/

namespace Lift6502

namespace Match

variable {found : Match}

/-- Exactly the instructions are absorbed whose addresses a match takes. -/
theorem absorbs_iff_mem {absorbed : List Instruction}
    (hcontrol : found.control = addressesOf absorbed) (hascending : Ascending found.instructions)
    (habsorbed : ∀ i ∈ absorbed, i ∈ found.instructions) {i : Instruction}
    (hi : i ∈ found.instructions) : found.absorbs i = true ↔ i ∈ absorbed := by
  rw [absorbs_of_control hcontrol]
  constructor
  · rintro ⟨other, hother, haddress⟩
    rwa [← hascending.eq_of_address_eq (habsorbed other hother) hi haddress]
  · exact fun hmem => ⟨i, hmem, rfl⟩

/-- What a match of a loop with a test says about the test. -/
structure Records (found : Match) (test : Test) : Prop where
  register : found.register = some test.register
  subject : found.subject = some test.compare.operand

/-- A match is a loop that leaves its header by a test and goes back to it by a jump. -/
structure TestsAtTop (found : Match) (header body : Block) (test : Test) (jump : Instruction)
    (front inner : List Instruction) : Prop extends found.Records test where
  shape : found.shape = if test.onEqual then .untilLoop else .whileLoop
  blocks : found.blocks = [header, body]
  comparison : found.comparison = some .eq
  anchor : found.anchor = header.start
  control : found.control = addressesOf [test.compare, test.branch, jump]
  tested : header.test? = some test
  headed : header.instructions = front ++ [test.compare, test.branch]
  embodied : body.instructions = inner ++ [jump]
  isJump : jump.mnemonic = .jmp
  back : jump.target? = some header.start
  exit : test.target = body.nextAddress

/-- A match is a block that ends in a test and goes back to an instruction in front of the
branch. -/
structure TestsAtBottom (found : Match) (block : Block) (test : Test)
    (before inner : List Instruction) : Prop extends
    found.Records test where
  shape : found.shape = .untilLoop
  blocks : found.blocks = [block]
  comparison : found.comparison = some test.takenWhen.inverse
  anchor : found.anchor = test.target
  control : found.control = addressesOf [test.compare, test.branch]
  tested : block.test? = some test
  instructions : block.instructions = before ++ (inner ++ [test.compare, test.branch])
  top : (inner ++ [test.compare, test.branch]).head?.map (·.address) = some test.target

section Kept

variable {header body block : Block} {test : Test} {jump : Instruction}
  {front inner before : List Instruction}
  (hascending : Ascending found.instructions)
include hascending

/-- A match leaves instructions alone that are none of those that it absorbs. -/
theorem not_absorbs_of_nodup {absorbed kept : List Instruction}
    (hcontrol : found.control = addressesOf absorbed)
    (hperm : found.instructions.Perm (kept ++ absorbed)) : ∀ i ∈ kept, found.absorbs i = false := by
  have hnodup : (kept ++ absorbed).Nodup :=
    hperm.nodup (List.Nodup.of_map _ hascending.nodup_addresses)
  intro i hi
  rw [Bool.eq_false_iff]
  intro habsorbs
  have hmem :=
    (absorbs_iff_mem hcontrol hascending (fun other hother => hperm.mem_iff.mpr (by simp [hother]))
    (hperm.mem_iff.mpr (by simp [hi]))).mp habsorbs
  exact (List.nodup_append.mp hnodup).2.2 i hi i hmem rfl

theorem TestsAtTop.kept (h : found.TestsAtTop header body test jump front inner) :
    ∀ i ∈ front ++ inner, found.absorbs i = false := by
  apply not_absorbs_of_nodup hascending h.control
  rw [instructions, h.blocks]
  simp only [Block.instructionsOf, List.flatMap_cons, List.flatMap_nil, List.append_nil, h.headed,
    h.embodied, List.append_assoc]
  exact List.Perm.append_left front (List.perm_append_comm_assoc _ _ _)

theorem TestsAtBottom.kept (h : found.TestsAtBottom block test before inner) :
    ∀ i ∈ before ++ inner, found.absorbs i = false := by
  apply not_absorbs_of_nodup hascending h.control
  rw [Match.instructions, h.blocks]
  simp only [Block.instructionsOf, List.flatMap_cons, List.flatMap_nil, List.append_nil,
    h.instructions, List.append_assoc]
  exact .refl _

end Kept

end Match

namespace Shape

variable {symbols : SymbolTable} {blocks : List Block} {found : Match}

theorem testsAtTop_of_detectTopTested (h : detectTopTested symbols blocks = some found) :
    ∃ header body test jump front inner, found.TestsAtTop header body test jump front inner := by
  obtain ⟨header, body, rest, test, jump, -, htest, hjump, hmnemonic, hback, hexit, rfl⟩ :=
    detectTopTested_eq_some_iff.mp h
  obtain ⟨front, hfront⟩ := (Block.test?_closes htest).instructions
  have hlast := (Block.terminator?_eq_some.mp hjump).2
  have hinner : body.instructions = body.instructions.dropLast ++ [jump] := by
    rw [← hlast, Block.dropLast_append_last]
  have hnext : test.target = body.nextAddress := by rw [hexit, Block.nextAddress, hlast]
  exact ⟨header, body, test, jump, front, _,
    ⟨rfl, rfl⟩, rfl, rfl, rfl, rfl, rfl, htest, hfront, hinner, hmnemonic, hback, hnext⟩

theorem testsAtBottom_of_detectBottomTested (h : detectBottomTested symbols blocks = some found) :
    ∃ block test before inner, found.TestsAtBottom block test before inner := by
  obtain ⟨block, rest, test, position, -, htest, hposition, hinside, rfl⟩ :=
    detectBottomTested_eq_some_iff.mp h
  obtain ⟨htop, haddress, _⟩ := List.findIdx?_eq_some_iff_getElem.mp hposition
  obtain ⟨front, hfront⟩ := (Block.test?_closes htest).instructions
  have hle : position ≤ front.length := by
    have hlength := congrArg List.length hfront
    rw [List.length_append, List.length_cons, List.length_singleton] at hlength
    omega
  have hdrop : front.drop position ++ [test.compare, test.branch]
      = block.instructions.drop position := by
    rw [hfront, List.drop_append_of_le_length hle]
  refine ⟨block, test, front.take position, front.drop position, ⟨rfl, rfl⟩, rfl, rfl, rfl,
    rfl, rfl, htest, ?_, ?_⟩
  · rw [← List.append_assoc, List.take_append_drop, hfront]
  · rw [hdrop, List.head?_drop, List.getElem?_eq_getElem htop]
    simpa using haddress

end Shape

namespace Routine

variable {found : Match}

/-- A node with the condition that the branch of a test is not taken. -/
def loopNode (symbols : SymbolTable) (kind : NodeKind) (test : Test) (place : Address)
    (children : List Instruction) : Node where
  kind
  params := [test.register.text, test.takenWhen.inverse.text,
    valueText symbols test.compare.operand]
  children := children.map (Statement.ofInstruction symbols)
  address := some place

theorem condition_of_records {test : Test} (h : found.Records test) (symbols : SymbolTable)
    (comparison : Comparison) :
    condition symbols found (some comparison)
      = [test.register.text, comparison.text, valueText symbols test.compare.operand] := by
  simp [condition, registerText, subjectText, h.register, h.subject]

variable {header body block : Block} {test : Test} {jump : Instruction}
  {front inner before : List Instruction}

/-- A loop with its test at the top goes on while the branch is not taken, whichever way it looks at
the comparison. -/
theorem structured_of_testsAtTop (h : found.TestsAtTop header body test jump front inner)
    (hascending : Ascending found.instructions) (symbols : SymbolTable) (usage : Usage) :
    (structured symbols usage found).2
      = front.map (Statement.ofInstruction symbols)
        ++ [loopNode symbols .whileLoop test header.start (inner ++ front)] := by
  obtain ⟨hfront, hinner⟩ := List.forall_mem_append.mp (h.kept hascending)
  have habsorbs {i : Instruction} (hi : i ∈ [test.compare, test.branch, jump]) :
      found.absorbs i = true :=
    (Match.absorbs_of_control h.control).mpr ⟨i, hi, rfl⟩
  have hheader : found.unabsorbed header.instructions = front :=
    Match.unabsorbed_of_front h.headed hfront (by simp +contextual [habsorbs])
  have hbody : found.unabsorbed body.instructions = inner :=
    Match.unabsorbed_of_front h.embodied hinner (by simp +contextual [habsorbs])
  have htop : (structured symbols usage found).2
      = topTested symbols found
          [test.register.text, test.takenWhen.inverse.text,
            valueText symbols test.compare.operand] := by
    rw [← condition_of_records h.toRecords]
    by_cases honEqual : test.onEqual = true
    · simp [structured, h.shape, honEqual, untilLoop, h.blocks, h.comparison, Test.takenWhen]
    · simp [structured, h.shape, honEqual, h.comparison, Test.takenWhen, Comparison.inverse]
  have hfirst : header ∈ found.blocks := by simp [h.blocks]
  have hsecond : body ∈ found.blocks := by simp [h.blocks]
  rw [htop, topTested, h.blocks]
  simp only [statements_contains symbols found hascending hfirst, hheader,
    statements_contains symbols found hascending hsecond, hbody, h.anchor, loopNode,
    List.map_append]

/-- A loop with its test at the bottom goes on until the branch is not taken. -/
theorem structured_of_testsAtBottom (h : found.TestsAtBottom block test before inner)
    (hascending : Ascending found.instructions) (symbols : SymbolTable) (usage : Usage) :
    (structured symbols usage found).2
      = before.map (Statement.ofInstruction symbols)
        ++ [loopNode symbols .doUntil test test.target inner] := by
  have hkept := h.kept hascending
  have hinstructions : found.instructions = (before ++ inner) ++ [test.compare, test.branch] := by
    simp [Match.instructions, Block.instructionsOf, h.blocks, h.instructions]
  have hunabsorbed : found.unabsorbed found.instructions = before ++ inner := by
    apply Match.unabsorbed_of_front hinstructions hkept
    intro i hi
    exact (Match.absorbs_of_control h.control).mpr ⟨i, hi, rfl⟩
  have hnodes : (structured symbols usage found).2 = bottomTested symbols found := by
    simp [structured, h.shape, untilLoop, h.blocks]
  -- The first instruction of the loop parts what stands in front of the top from what stands behind
  -- it.
  obtain ⟨first, rest, hfirst⟩ :=
    List.exists_cons_of_ne_nil (l := inner ++ [test.compare, test.branch]) (by simp)
  have htarget : first.address = test.target := by simpa [hfirst] using h.top
  have hordered : Ascending (before ++ first :: rest) := by
    rwa [hinstructions, List.append_assoc, hfirst] at hascending
  obtain ⟨-, hpassed, hcross⟩ := List.pairwise_append.mp hordered
  have hbefore : ∀ i ∈ before, i.address < test.target :=
    fun i hi => htarget ▸ hcross i hi first List.mem_cons_self
  have hinner : ∀ i ∈ inner, test.target ≤ i.address := by
    intro i hi
    have hmem : i ∈ first :: rest := hfirst ▸ List.mem_append_left _ hi
    rw [← htarget]
    rcases List.mem_cons.mp hmem with rfl | hrest
    · exact UInt16.le_refl _
    · exact UInt16.le_of_lt (List.rel_of_pairwise_cons hpassed hrest)
  have hbelow : (before ++ inner).filter (fun i => decide (i.address < test.target)) = before := by
    rw [List.filter_append, List.filter_eq_self.mpr (by simpa using hbefore),
      List.filter_eq_nil_iff.mpr (by simpa using hinner), List.append_nil]
  have habove : (before ++ inner).filter (fun i => decide (test.target ≤ i.address)) = inner := by
    rw [List.filter_append, List.filter_eq_nil_iff.mpr (by simpa using hbefore),
      List.filter_eq_self.mpr (by simpa using hinner), List.nil_append]
  rw [hnodes, bottomTested, statements_eq_map_filter, statements_eq_map_filter, hunabsorbed,
    h.anchor, hbelow, habove, h.comparison, condition_of_records h.toRecords, loopNode]

end Routine

/-! ### Runs -/

/-- A tree is left behind its last node in the state in which code is left to an address. -/
def LeavesTo {State : Type} (exit : Address) (result : Departure × State)
    (outcome : Address × State) : Prop :=
  result = (.through, outcome.2) ∧ outcome.1 = exit

namespace Match

variable {State : Type} {reading : Reading State} {meaning : Meaning State} {symbols : SymbolTable}
  {code : List Instruction}
  {found : Match}

/-- Tree and code that meet at a test run alike if they leave there together, and come back there
with the same changes if they do not leave. -/
theorem sameRuns_of_rounds {leaves : Instruction → Bool → Bool} {tasks : List Task}
    {place exit : Address} (ends : State → Bool) (again : List Task) (onward : Address)
    (hend : ∀ state equal, ends state = true →
      reading.process.Advances (.inside tasks state) [] (.outside .through state) ∧
      (found.watch meaning code leaves).Advances (.inside place state equal) []
      (.outside exit state))
    (hround : ∀ state equal, ends state = false → ∃ equal',
      reading.process.Advances (.inside tasks state) [] (.inside again state) ∧
      (found.watch meaning code leaves).Advances (.inside place state equal) []
      (.inside onward state equal'))
    (hback : ∀ state equal, ∃ state',
      Process.MoveAlike reading.process (found.watch meaning code leaves) (.inside again state)
      (.inside onward state equal)
        (.inside tasks state') (.inside place state' equal))
    (state : State) (equal : Bool) :
    Process.SameRuns reading.process (found.watch meaning code leaves) (LeavesTo exit)
      (.inside tasks state)
      (.inside place state equal) := by
  have hmeet : Process.Meet reading.process (found.watch meaning code leaves)
      (LeavesTo exit) fun config other =>
      (∃ state equal, config = .inside tasks state ∧ other = .inside place state equal) ∨
        ∃ state, config = .outside .through state ∧ other = .outside exit state := by
    rintro _ _ (⟨state, equal, rfl, rfl⟩ | ⟨state, rfl, rfl⟩)
    · refine Or.inr ?_
      cases hends : ends state with
      | true =>
        obtain ⟨htree, hcode⟩ := hend state equal hends
        exact ⟨_, _, _, htree, hcode, Or.inr ⟨state, rfl, rfl⟩⟩
      | false =>
        obtain ⟨equal', htree, hcode⟩ := hround state equal hends
        obtain ⟨state', changes, htree', hcode'⟩ := hback state equal'
        exact ⟨changes, _, _, htree.trans htree', hcode.trans hcode',
          Or.inl ⟨state', equal', rfl, rfl⟩⟩
    · exact Or.inl ⟨_, _, rfl, rfl, rfl, rfl⟩
  exact hmeet.sameRuns (Or.inl ⟨state, equal, rfl, rfl⟩)

variable {header body block : Block} {test : Test} {jump : Instruction}
  {front inner before : List Instruction}
  (hascending : Ascending code) (hwithin : found.blocks <:+: Block.partition code)
include hascending hwithin

section Top

variable (h : found.TestsAtTop header body test jump front inner)
  (hagrees : reading.Agrees meaning symbols found fun _ => header.start)
include h hagrees

/-- The statements of the header lead to the test. -/
theorem TestsAtTop.header_moveAlike (tasks : List Task) (state : State) (equal : Bool) :
    Process.MoveAlike reading.process (found.watch meaning code fun _ taken => taken)
      (.inside ((front.map (Statement.ofInstruction symbols)).map .node ++ tasks) state)
      (.inside header.start state equal)
      (.inside tasks (trailEnd (front.map meaning.effect) state))
      (.inside test.compare.address (trailEnd (front.map meaning.effect) state) equal) := by
  have hkept :=
    (List.forall_mem_append.mp (h.kept (Block.ascending_of_infix_partition hascending hwithin))).1
  have hheader : header ∈ found.blocks := by simp [h.blocks]
  have hparts : header.instructions = [] ++ (front ++ [test.compare, test.branch]) := h.headed
  exact hagrees.moveAlike_within hascending _ (hwithin.subset hheader) hheader hparts hkept
    (h.headed ▸ header.head?_address) tasks
    state equal

/-- The statements of the body lead back to the header. -/
theorem TestsAtTop.body_moveAlike (tasks : List Task) (state : State) (equal : Bool) :
    Process.MoveAlike reading.process (found.watch meaning code fun _ taken => taken)
      (.inside ((inner.map (Statement.ofInstruction symbols)).map .node ++ tasks) state)
      (.inside body.start state equal)
      (.inside tasks (trailEnd (inner.map meaning.effect) state))
      (.inside header.start (trailEnd (inner.map meaning.effect) state) equal) := by
  have hkept :=
    (List.forall_mem_append.mp (h.kept (Block.ascending_of_infix_partition hascending hwithin))).2
  have hbody : body ∈ found.blocks := by simp [h.blocks]
  have hparts : body.instructions = [] ++ (inner ++ [jump]) := h.embodied
  have hjump : jump ∈ code := (Block.sublist_of_mem_partition (hwithin.subset hbody)).subset
    (by simp [h.embodied])
  exact (hagrees.moveAlike_within hascending _ (hwithin.subset hbody) hbody hparts hkept
    (h.embodied ▸ body.head?_address) tasks
    state equal).trans
      (.of_right (found.advances_jump meaning _ hascending hjump _ equal h.isJump h.back))

theorem TestsAtTop.sameRuns (hnext : header.nextAddress = body.start) (state : State)
    (equal : Bool) :
    Process.SameRuns reading.process (found.watch meaning code fun _ taken => taken)
      (LeavesTo body.nextAddress)
      (.inside ((front.map (Statement.ofInstruction symbols) ++
        [Routine.loopNode symbols .whileLoop test header.start (inner ++ front)]).map .node) state)
      (.inside header.start state equal) := by
  have hheader : header ∈ found.blocks := by simp [h.blocks]
  have hcompare : found.absorbs test.compare = true :=
    (absorbs_of_control h.control).mpr ⟨test.compare, by simp, rfl⟩
  have htest (state : State) (equal : Bool) :=
    found.advances_test meaning (fun _ taken => taken) hascending
    (hwithin.subset hheader) (Block.test?_closes h.tested) hcompare state equal
  generalize hloop : Routine.loopNode symbols .whileLoop test header.start (inner ++ front) = loop
  have hchildren : loop.children.map Task.node ++ [Task.node loop]
      = (inner.map (Statement.ofInstruction symbols)).map Task.node
        ++ ((front.map (Statement.ofInstruction symbols)).map Task.node ++ [Task.node loop]) := by
    rw [← hloop, Routine.loopNode]
    simp
  have hstep (state : State) : reading.process.Advances (.inside [.node loop] state) []
      (.inside (if !test.takes meaning state then loop.children.map .node ++ [.node loop] else [])
        state) :=
    Reading.advances_whileLoop (by rw [← hloop, Routine.loopNode])
      (hagrees.holds_inverse hheader h.tested (by rw [← hloop, Routine.loopNode]) state
        (by rw [← hloop, Routine.loopNode]))
  rw [List.map_append]
  refine (h.header_moveAlike hascending hwithin hagrees [.node loop] state equal).sameRuns ?_
  refine sameRuns_of_rounds (test.takes meaning) (loop.children.map .node ++ [.node loop])
    body.start
    (fun state equal htakes => ⟨?_, ?_⟩) (fun state equal hpasses => ?_) (fun state equal => ?_) _ _
  · have hleaves := hstep state
    rw [htakes] at hleaves
    exact hleaves.trans (Reading.advances_through state).reaches
  · have hleaves := htest state equal
    rwa [htakes, h.exit] at hleaves
  · have henters := hstep state
    have hfalls := htest state equal
    rw [hpasses] at henters hfalls
    rw [hnext] at hfalls
    exact ⟨_, henters, hfalls⟩
  · rw [hchildren]
    exact ⟨_, (h.body_moveAlike hascending hwithin hagrees _ state equal).trans
      (h.header_moveAlike hascending hwithin hagrees [.node loop] _ equal)⟩

end Top

section Bottom

variable (h : found.TestsAtBottom block test before inner)
  (hagrees : reading.Agrees meaning symbols found fun _ => test.target)
include h hagrees

/-- The statements of the loop lead to the test. -/
theorem TestsAtBottom.inner_moveAlike (tasks : List Task) (state : State) (equal : Bool) :
    Process.MoveAlike reading.process (found.watch meaning code fun _ taken => !taken)
      (.inside ((inner.map (Statement.ofInstruction symbols)).map .node ++ tasks) state)
      (.inside test.target state equal)
      (.inside tasks (trailEnd (inner.map meaning.effect) state))
      (.inside test.compare.address (trailEnd (inner.map meaning.effect) state) equal) := by
  have hkept :=
    (List.forall_mem_append.mp (h.kept (Block.ascending_of_infix_partition hascending hwithin))).2
  have hblock : block ∈ found.blocks := by simp [h.blocks]
  exact hagrees.moveAlike_within hascending _ (hwithin.subset hblock) hblock h.instructions hkept
    h.top tasks state equal

/-- The statements in front of the loop lead to its top. -/
theorem TestsAtBottom.before_moveAlike (tasks : List Task) (state : State) (equal : Bool) :
    Process.MoveAlike reading.process (found.watch meaning code fun _ taken => !taken)
      (.inside ((before.map (Statement.ofInstruction symbols)).map .node ++ tasks) state)
      (.inside block.start state equal)
      (.inside tasks (trailEnd (before.map meaning.effect) state))
      (.inside test.target (trailEnd (before.map meaning.effect) state) equal) := by
  have hkept :=
    (List.forall_mem_append.mp (h.kept (Block.ascending_of_infix_partition hascending hwithin))).1
  have hblock : block ∈ found.blocks := by simp [h.blocks]
  obtain ⟨first, rest, hfirst⟩ :=
    List.exists_cons_of_ne_nil (List.append_ne_nil_of_right_ne_nil inner
    (List.cons_ne_nil test.compare [test.branch]))
  have htarget : first.address = test.target := by simpa [hfirst] using h.top
  have hwhole : block.instructions = before ++ first :: rest := by rw [h.instructions, hfirst]
  have hparts : block.instructions = [] ++ (before ++ first :: rest) := hwhole
  rw [← htarget]
  exact hagrees.moveAlike_within hascending _ (hwithin.subset hblock) hblock hparts hkept
    (hwhole ▸ block.head?_address) tasks
    state equal

theorem TestsAtBottom.sameRuns (state : State) (equal : Bool) :
    Process.SameRuns reading.process (found.watch meaning code fun _ taken => !taken)
      (LeavesTo block.nextAddress)
      (.inside ((before.map (Statement.ofInstruction symbols) ++
        [Routine.loopNode symbols .doUntil test test.target inner]).map .node) state)
      (.inside block.start state equal) := by
  have hblock : block ∈ found.blocks := by simp [h.blocks]
  have hcompare : found.absorbs test.compare = true :=
    (absorbs_of_control h.control).mpr ⟨test.compare, by simp, rfl⟩
  have htest (state : State) (equal : Bool) :=
    found.advances_test meaning (fun _ taken => !taken) hascending
    (hwithin.subset hblock) (Block.test?_closes h.tested) hcompare state equal
  generalize hloop : Routine.loopNode symbols .doUntil test test.target inner = loop
  have hinner (state : State) (equal : Bool) :=
    h.inner_moveAlike hascending hwithin hagrees [.test loop] state equal
  have hchildren : inner.map (Statement.ofInstruction symbols) = loop.children := by
    rw [← hloop, Routine.loopNode]
  rw [hchildren] at hinner
  have hstep (state : State) : reading.process.Advances (.inside [.test loop] state) []
      (.inside (if !test.takes meaning state then [] else loop.children.map .node ++ [.test loop])
        state) :=
    Reading.advances_test
      (hagrees.holds_inverse hblock h.tested (by rw [← hloop, Routine.loopNode]) state
        (by rw [← hloop, Routine.loopNode]))
  have henters (state : State) : reading.process.Advances (.inside [.node loop] state) []
      (.inside (loop.children.map .node ++ [.test loop]) state) :=
    Reading.advances_doUntil (by rw [← hloop, Routine.loopNode])
  rw [List.map_append]
  -- The tree enters the loop while the code stands at its top.
  refine (h.before_moveAlike hascending hwithin hagrees [.node loop] state equal).sameRuns ?_
  refine ((Process.MoveAlike.of_left (henters _)).trans (hinner _ equal)).sameRuns ?_
  refine sameRuns_of_rounds (fun state => !test.takes meaning state)
    (loop.children.map .node ++ [.test loop]) test.target
    (fun state equal hstays => ⟨?_, ?_⟩) (fun state equal hreturns => ?_)
      (fun state equal => ⟨_, hinner state equal⟩) _ _
  · have hleaves := hstep state
    rw [hstays] at hleaves
    exact hleaves.trans (Reading.advances_through state).reaches
  · have hleaves := htest state equal
    rw [Bool.not_eq_true'] at hstays
    rwa [hstays] at hleaves
  · have hgoesOn := hstep state
    have hback := htest state equal
    rw [hreturns] at hgoesOn
    rw [Bool.not_eq_false'] at hreturns
    rw [hreturns] at hback
    exact ⟨_, hgoesOn, hback⟩

end Bottom

end Match

/-- In a loop with its test at the top nothing but its header is a test. -/
theorem Match.TestsAtTop.compare_eq {found : Match} {header body : Block} {test : Test}
    {jump : Instruction} {front inner : List Instruction}
    (h : found.TestsAtTop header body test jump front inner) {block : Block}
    (hblock : block ∈ found.blocks) {other : Test} (hother : block.test? = some other) :
    other = test := by
  rw [h.blocks] at hblock
  rcases List.mem_pair.mp hblock with rfl | rfl
  · exact Option.some.inj (hother.symm.trans h.tested)
  · have hcloses := Block.test?_closes hother
    obtain ⟨before, hbefore⟩ := hcloses.instructions
    have hlast : other.branch = jump := by
      have hends := congrArg List.getLast? (hbefore.symm.trans h.embodied)
      simpa using hends
    rcases hcloses.branch with hbranch | hbranch <;> rw [hlast, h.isJump] at hbranch
      <;> cases hbranch

/-- A loop that tests at its top or at its bottom runs like the nodes that are built for it,
whatever the instructions do that it leaves alone and whatever its comparison finds: tree and code
make the same changes one after the other, whether they end or not, and when the code leaves for the
address behind the loop, the tree is left behind its last node. A loop of two blocks is left when
the branch of its header is taken, one of a single block when its branch is not taken. -/
theorem tested_loops_run_like_code {symbols : SymbolTable} {code : List Instruction}
    {blocks : List Block} {found : Match} (hascending : Ascending code)
    (hwithin : blocks <:+: Block.partition code)
    (hfound : Shape.detectTestedLoop symbols blocks = some found) {State : Type}
    (meaning : Meaning State) (usage : Usage) :
    ((∃ header body, found.blocks = [header, body]) ∨ ∃ block, found.blocks = [block]) ∧
    (∃ reading : Reading State, reading.Agrees meaning symbols found fun _ => found.anchor) ∧
    ∀ reading : Reading State, reading.Agrees meaning symbols found (fun _ => found.anchor) →
    ∀ state equal,
      (∀ header body, found.blocks = [header, body] → header.nextAddress = body.start →
        Process.SameRuns reading.process (found.watch meaning code fun _ taken => taken)
          (LeavesTo body.nextAddress)
          (.inside ((Routine.structured symbols usage found).2.map .node) state)
          (.inside header.start state equal)) ∧
      (∀ block, found.blocks = [block] →
        Process.SameRuns reading.process (found.watch meaning code fun _ taken => !taken)
          (LeavesTo block.nextAddress)
          (.inside ((Routine.structured symbols usage found).2.map .node) state)
          (.inside block.start state equal)) := by
  have hclaimed : found.blocks <:+: Block.partition code :=
    (Shape.detectTestedLoop_promises hfound).1.isPrefix.isInfix.trans hwithin
  have hordered := Block.ascending_of_infix_partition hascending hclaimed
  rcases Shape.detectTestedLoop_eq_some_iff.mp hfound with htop | ⟨-, hbottom⟩
  · obtain ⟨header, body, test, jump, front, inner, h⟩ := Shape.testsAtTop_of_detectTopTested htop
    refine ⟨Or.inl ⟨header, body, h.blocks⟩,
      ⟨_, Reading.ofMeaning_agrees meaning symbols hordered ?_⟩, ?_⟩
    · intro block hblock other hother nearby hnearby another hanother _
      rw [h.compare_eq hblock hother, h.compare_eq hnearby hanother]
    · intro reading hagrees state equal
      refine ⟨fun header' body' hblocks hnext => ?_, fun block hblocks => ?_⟩
      · obtain ⟨rfl, hrest⟩ := List.cons.inj (hblocks.symm.trans h.blocks)
        obtain rfl := List.singleton_inj.mp hrest
        rw [h.anchor] at hagrees
        rw [Routine.structured_of_testsAtTop h hordered]
        exact h.sameRuns hascending hclaimed hagrees hnext state equal
      · cases hblocks.symm.trans h.blocks
  · obtain ⟨block, test, before, inner, h⟩ := Shape.testsAtBottom_of_detectBottomTested hbottom
    refine ⟨Or.inr ⟨block, h.blocks⟩, ⟨_, Reading.ofMeaning_agrees meaning symbols hordered ?_⟩, ?_⟩
    · intro block' hblock other hother nearby hnearby another hanother _
      rw [h.blocks] at hblock hnearby
      obtain rfl := List.mem_singleton.mp hblock
      obtain rfl := List.mem_singleton.mp hnearby
      rw [Option.some.inj (hother.symm.trans hanother)]
    · intro reading hagrees state equal
      refine ⟨fun header body hblocks => ?_, fun block' hblocks => ?_⟩
      · cases hblocks.symm.trans h.blocks
      · obtain rfl := List.singleton_inj.mp (hblocks.symm.trans h.blocks)
        rw [h.anchor] at hagrees
        rw [Routine.structured_of_testsAtBottom h hordered]
        exact h.sameRuns hascending hclaimed hagrees state equal

/-- Code that counts a place up until it holds three, with the test in front. -/
def countingCode : List Instruction :=
  [{ address := 0xC000, mnemonic := .lda, operand := .absolute 0x0400 },
   { address := 0xC003, mnemonic := .cmp, operand := .immediate 3 },
   { address := 0xC005, mnemonic := .beq, operand := .absolute 0xC00D },
   { address := 0xC007, mnemonic := .inc, operand := .absolute 0x0400 },
   { address := 0xC00A, mnemonic := .jmp, operand := .absolute 0xC000 }]

/-- The place that is counted and the accumulator. -/
def countingMeaning : Meaning (Nat × Nat) where
  effect i state :=
    match i.mnemonic with
    | .lda => (state.1, state.1)
    | .inc => (state.1 + 1, state.2)
    | _ => state
  equal _ state := state.2 == 3

theorem countingCode_recognised :
    (Shape.detectTestedLoop {} (Block.partition countingCode)).isSome := by
  decide +kernel

theorem countingCode_runs :
    ∃ found, Shape.detectTestedLoop {} (Block.partition countingCode) = some found ∧
      found.shape = .untilLoop ∧
      ∃ reading : Reading (Nat × Nat), reading.process.Ends
        (.inside ((Routine.structured {} {} found).2.map .node) (1, 0))
        [(1, 1), (2, 1), (2, 2), (3, 2), (3, 3)] (.through, 3, 3) := by
  have hfound := (Option.some_get countingCode_recognised).symm
  obtain ⟨hblocks, ⟨reading, hagrees⟩, hruns⟩ :=
    tested_loops_run_like_code (by decide) (List.infix_refl _) hfound countingMeaning {}
  generalize hget : (Shape.detectTestedLoop {}
    (Block.partition countingCode)).get countingCode_recognised = found at *
  have hshape : found.shape = .untilLoop := by rw [← hget]; decide +kernel
  have hstarts : found.blocks.map Block.start = [0xC000, 0xC007] := by rw [← hget]; decide +kernel
  have hnexts : found.blocks.map Block.nextAddress = [0xC007, 0xC00D] := by
    rw [← hget]; decide +kernel
  have hcode : (found.watch countingMeaning countingCode fun _ taken => taken).Ends
      (.inside 0xC000 (1, 0) false)
      [(1, 1), (2, 1), (2, 2), (3, 2), (3, 3)] (0xC00D, 3, 3) := by
    refine ⟨.outside 0xC00D (3, 3), ⟨13, ?_⟩, rfl⟩
    rw [← hget]
    decide +kernel
  rcases hblocks with ⟨header, body, hblocks⟩ | ⟨block, hblocks⟩
  · rw [hblocks] at hstarts hnexts
    simp only [List.map_cons, List.map_nil, List.cons.injEq, and_true] at hstarts hnexts
    have hsame := (hruns reading hagrees (1, 0) false).1 header body hblocks
      (hnexts.1.trans hstarts.2.symm)
    rw [hstarts.1] at hsame
    obtain ⟨result, hends, hleaves, -⟩ := hsame.ended _ _ hcode
    exact ⟨found, hfound, hshape, reading, hleaves ▸ hends⟩
  · rw [hblocks] at hstarts
    simp at hstarts

end Lift6502
