import Lift6502.Proofs.Routine.Declarations

/-!
# Tests of the flags

A comparison that no shape absorbs becomes a statement that sets `FLAGS`, and a branch that none
absorbs a jump on `FLAGS`. Each is told by its kind and by the address of its instruction, whatever
else was done to its node. A tree tests and jumps on the flags exactly where it writes the
instructions that do; so a jump may stand in it without the test that it looks at, if a shape has
absorbed that one alone.
-/

namespace Lift6502

/-- What is done with the flags at an address. -/
inductive FlagUse where
  | test (address : Address)
  | jump (address : Address)
  deriving DecidableEq

/-- Whether a mnemonic compares and does nothing else. -/
def Mnemonic.isComparison : Mnemonic → Bool
  | cmp | cpx | cpy | bit => true
  | _ => false

/-- Whether a mnemonic branches on what a comparison left. -/
def Mnemonic.branchesOnFlags : Mnemonic → Bool
  | beq | bne | bmi | bpl => true
  | _ => false

/-- Whether a comparison has an operand that can be read. -/
def Operation.isFlagTest (operation : Operation) : Bool :=
  match operation.operand with
  | .implied | .accumulator | .indirect _ => false
  | .immediate _ => operation.mnemonic.isComparison && operation.mnemonic != .bit
  | _ => operation.mnemonic.isComparison

/-- Whether a branch on the flags has an operand that can be jumped to. -/
def Operation.isFlagJump (operation : Operation) : Bool :=
  match operation.operand with
  | .absolute _ | .symbolic _ => operation.mnemonic.branchesOnFlags
  | _ => false

/-- What an instruction does with the flags. -/
def Instruction.flagUse? (instruction : Instruction) : Option FlagUse :=
  if instruction.isFlagTest then some (.test instruction.address)
  else if instruction.isFlagJump then some (.jump instruction.address)
  else none

namespace Instruction

variable {instruction : Instruction} {address : Address}

theorem flagUse?_eq_test :
    instruction.flagUse? = some (.test address) ↔ instruction.isFlagTest = true ∧
      instruction.address = address := by
  unfold flagUse?
  split <;> simp_all

theorem flagUse?_eq_jump :
    instruction.flagUse? = some (.jump address) ↔ instruction.isFlagJump = true ∧
      instruction.address = address := by
  have hapart : instruction.isFlagTest = true → instruction.isFlagJump = false := by
    obtain ⟨⟨mnemonic, operand⟩, _⟩ := instruction
    intro htest
    cases operand <;> cases mnemonic <;> first | rfl | cases htest
  unfold flagUse?
  split <;> simp_all

end Instruction

namespace Node

/-- What a node that was built from an instruction does with the flags. -/
def flagUse? (node : Node) : Option FlagUse :=
  match node.kind, node.address with
  | .expr, some address => if node.value = "FLAGS" then some (.test address) else none
  | .goto, some address => if node.params.head? = some "FLAGS" then some (.jump address) else none
  | _, _ => none

/-- What the nodes in some trees do with the flags. -/
def flagUses (nodes : List Node) : List FlagUse := (walkAll nodes).filterMap flagUse?

theorem flagUses_nil : flagUses [] = [] := by
  rw [flagUses, walkAll_nil, List.filterMap_nil]

theorem flagUses_append (left right : List Node) :
    flagUses (left ++ right) = flagUses left ++ flagUses right := by
  rw [flagUses, walkAll_append, List.filterMap_append, flagUses, flagUses]

theorem flagUses_flatMap {α : Type} (elements : List α) (nodes : α → List Node) :
    flagUses (elements.flatMap nodes) = elements.flatMap fun element =>
      flagUses (nodes element) := by
  induction elements with
  | nil => rw [List.flatMap_nil, flagUses_nil, List.flatMap_nil]
  | cons element elements ih => rw [List.flatMap_cons, flagUses_append, ih, List.flatMap_cons]

theorem flagUse?_eq_none {node : Node} (h : node.kind ≠ .expr ∧ node.kind ≠ .goto) :
    node.flagUse? = none := by
  unfold flagUse?
  split
  · exact absurd ‹_› h.1
  · exact absurd ‹_› h.2
  · rfl

theorem flagUse?_eq_test {node : Node} {address : Address} :
    node.flagUse? = some (.test address) ↔ node.kind = .expr ∧ node.value = "FLAGS" ∧
      node.address = some address := by
  unfold flagUse?
  split <;> simp_all

theorem flagUse?_eq_jump {node : Node} {address : Address} :
    node.flagUse? = some (.jump address) ↔
      node.kind = .goto ∧ node.params.head? = some "FLAGS" ∧ node.address = some address := by
  unfold flagUse?
  split <;> simp_all

theorem flagUses_singleton {node : Node} (h : node.kind ≠ .expr ∧ node.kind ≠ .goto) :
    flagUses [node] = flagUses node.children := by
  rw [flagUses, walkAll_cons, walkAll_nil, List.append_nil, walk_eq,
    List.filterMap_cons_none (flagUse?_eq_none h), flagUses]

theorem flagUses_of_leaves {nodes : List Node} (h : ∀ node ∈ nodes, node.children = []) :
    flagUses nodes = nodes.filterMap flagUse? := by
  rw [flagUses, walkAll_of_leaves h]

theorem flagUses_eq_own (nodes : List Node) : flagUses nodes = (own nodes).filterMap flagUse? := by
  rw [flagUses, own, List.filterMap_filter]
  apply List.filterMap_congr
  intro node _
  cases hown : node.isOwn with
  | true => rfl
  | false =>
    unfold flagUse?
    split <;> simp_all [isOwn, NodeKind.isStatement]

theorem flagUses_eq_alone (node : Node) :
    flagUses [node] = (node.walk.map alone).filterMap flagUse? := by
  rw [flagUses, walkAll_cons, walkAll_nil, List.append_nil, List.filterMap_map]
  rfl

theorem flagUse?_endProgram (node : Node) : node.alone.endProgram.flagUse? = node.flagUse? := by
  by_cases hkind : node.kind = .leave
  · have hother : node.kind ≠ .expr ∧ node.kind ≠ .goto := by simp [hkind]
    rw [flagUse?_eq_none hother, flagUse?_eq_none]
    rw [kind_endProgram]
    exact hother
  · rw [endProgram_alone_of_ne hkind]
    rfl

end Node

/-- The statement of an instruction does with the flags what the instruction does. -/
theorem Statement.flagUse?_ofInstruction (symbols : SymbolTable) (instruction : Instruction) :
    (ofInstruction symbols instruction).flagUse? = instruction.flagUse? := by
  obtain ⟨⟨mnemonic, operand⟩, address⟩ := instruction
  -- A mnemonic and the mode of its operand fix the kind of statement; only a call looks at the
  -- symbols for it.
  cases operand with
  | absolute target =>
    cases mnemonic with
    | jsr =>
      have hcall : Operation.callTarget? ⟨.jsr, .absolute target⟩ = some target := rfl
      rw [ofInstruction_of_callTarget? hcall, callNode]
      split <;> rfl
    | _ => rfl
  | indirectIndexed pointer index => cases index <;> cases mnemonic <;> rfl
  | _ => cases mnemonic <;> rfl

/-! ### Shapes -/

/-- The instructions of a match that have nodes of their own. Of code that repeats, an unrolled loop
has the first copy only, and a template has nothing but the ends of the blocks. -/
def Match.written (found : Match) : List Instruction :=
  match found.shape with
  | .unrolled => found.blocks.head?.toList.flatMap (·.instructions)
  | .template => found.blocks.filterMap Block.terminator?
  | _ => found.unabsorbed found.instructions

theorem Match.written_subset (found : Match) : found.written ⊆ found.instructions := by
  intro i hi
  unfold written at hi
  split at hi
  · obtain ⟨block, hblock, hinside⟩ := List.mem_flatMap.mp hi
    exact Block.mem_instructionsOf.mpr ⟨block, List.mem_of_mem_head? (Option.mem_toList.mp hblock),
      hinside⟩
  · obtain ⟨block, hblock, hlast⟩ := List.mem_filterMap.mp hi
    exact Block.mem_instructionsOf.mpr ⟨block, hblock, Block.terminator?_mem hlast⟩
  · exact List.mem_of_mem_filter hi

namespace Routine

variable (symbols : SymbolTable) {found : Match}

theorem flagUses_map_ofInstruction (instructions : List Instruction) :
    Node.flagUses (instructions.map (Statement.ofInstruction symbols))
      = instructions.filterMap Instruction.flagUse? := by
  rw [Node.flagUses_eq_own, Statement.own_map_ofInstruction, List.filterMap_map]
  exact List.filterMap_congr fun i _ => Statement.flagUse?_ofInstruction symbols i

theorem flagUse?_statementFor (instruction : Instruction) :
    (statementFor symbols found instruction).flagUse? = instruction.flagUse? := by
  unfold statementFor recordStatement
  split
  · split
    · rename_i hstored
      unfold Shape.storedPlace? at hstored
      split at hstored
      · rename_i hmnemonic hoperand
        simp only [Instruction.flagUse?, Operation.isFlagTest, Operation.isFlagJump, hmnemonic,
          hoperand]
        rfl
      · cases hstored
    · exact Statement.flagUse?_ofInstruction symbols instruction
  · exact Statement.flagUse?_ofInstruction symbols instruction

theorem flagUse?_substitute {instruction : Instruction}
    (hflow : instruction.mnemonic.isControlFlow = false) (old new : String) :
    (substitute old new (Statement.ofInstruction symbols instruction)).flagUse?
      = instruction.flagUse? := by
  obtain ⟨⟨mnemonic, operand⟩, address⟩ := instruction
  -- Only parameters are replaced, and of all that uses the flags only jumps are told by those.
  cases mnemonic with
  | bcc | bcs | beq | bmi | bne | bpl | bvc | bvs | jmp | jsr => cases hflow
  | _ =>
    cases operand with
    | indirectIndexed pointer index => cases index <;> rfl
    | _ => rfl

theorem flagUses_unrolledBody (first : Block) (rest : List Block) (usage : Usage)
    {pairs : List (Instruction × Nat)} (h : pairs ⊆ first.instructions.zipIdx) :
    (unrolledBody symbols ((Block.variations? (first :: rest)).getD []) usage pairs).2.filterMap
      Node.flagUse?
      = (pairs.map (·.1)).filterMap Instruction.flagUse? := by
  induction pairs generalizing usage with
  | nil => rfl
  | cons pair pairs ih =>
    obtain ⟨instruction, position⟩ := pair
    obtain ⟨hpair, hpairs⟩ := List.cons_subset.mp h
    rw [unrolledBody, List.map_cons, List.filterMap_cons]
    cases hfound : ((Block.variations? (first :: rest)).getD []).find? (·.position == position) with
    | none =>
      simp only [List.filterMap_cons, Statement.flagUse?_ofInstruction, ih usage hpairs]
    | some variation =>
      have hflow := not_isControlFlow_of_find? hpair hfound
      simp only [List.filterMap_cons, flagUse?_substitute symbols hflow, ih _ hpairs]

theorem flagUses_unrolled (hshape : found.shape = .unrolled) (usage : Usage) :
    Node.flagUses (structured symbols usage found).2
      = found.written.filterMap Instruction.flagUse? := by
  rw [structured, Match.written, hshape]
  simp only [unrolled]
  cases hblocks : found.blocks with
  | nil => rw [Node.flagUses_nil]; rfl
  | cons first rest =>
    have hleaves :=
      (unrolledBody_isStatement symbols ((Block.variations? (first :: rest)).getD []) usage
      first.instructions.zipIdx).1
    rw [Node.flagUses_singleton (by simp), Node.flagUses_of_leaves fun node hnode =>
      (hleaves node hnode).leaf, flagUses_unrolledBody symbols first rest usage
        (List.Subset.refl _), List.zipIdx_map_fst]
    simp

theorem flagUses_template (hshape : found.shape = .template) (usage : Usage) :
    Node.flagUses (structured symbols usage found).2
      = found.written.filterMap Instruction.flagUse? := by
  have hcall (name : String) (varying : List Variation) (pair : Block × Nat) :
      Node.flagUses (templateCall symbols name varying pair.1 pair.2)
        = pair.1.terminator?.toList.filterMap Instruction.flagUse? := by
    rw [templateCall, ← List.singleton_append, Node.flagUses_append,
      Node.flagUses_singleton (by simp), Node.flagUses_nil, List.nil_append, Option.toList_map,
      flagUses_map_ofInstruction]
  rw [Match.written, hshape]
  cases hblocks : found.blocks with
  | nil =>
    rw [structured, hshape]
    simp only [template, hblocks]
    exact Node.flagUses_nil
  | cons first rest =>
    rw [structured_template hshape hblocks, Node.flagUses_flatMap]
    simp only [hcall]
    nth_rewrite 2 [← List.zipIdx_map_fst 0 (first :: rest)]
    rw [List.filterMap_eq_flatMap_toList Block.terminator?, List.filterMap_flatMap,
      List.flatMap_map]

theorem mem_flagUses_topTested (hascending : Ascending found.instructions)
    (htop : found.isTopTested = true) (usage : Usage) {use : FlagUse} :
    use ∈ Node.flagUses (structured symbols usage found).2 ↔
      use ∈ (found.unabsorbed found.instructions).filterMap Instruction.flagUse? := by
  have hrecord : found.shape ≠ .record := by
    intro hrecord
    simp [Match.isTopTested, hrecord] at htop
  obtain ⟨header, body, loop, hblocks, hkind, hnodes, hchildren⟩ :=
    structured_of_isTopTested symbols hascending htop usage
  rw [statementFor_of_shape_ne symbols hrecord] at hnodes hchildren
  rw [hnodes, Node.flagUses_append, Node.flagUses_singleton (by simp [hkind]), hchildren,
    Node.flagUses_append, flagUses_map_ofInstruction, flagUses_map_ofInstruction,
    Match.instructions, hblocks, Match.unabsorbed_instructionsOf]
  simp only [List.flatMap_cons, List.flatMap_nil, List.append_nil, List.filterMap_append,
    List.mem_append]
  -- The header is written twice, in front of the loop and at its end.
  tauto

/-- A shape tests and jumps on the flags as the instructions do that it writes. -/
theorem mem_flagUses_structured (hascending : Ascending found.instructions) (hsound : found.Sound)
    (usage : Usage) {use : FlagUse} :
    use ∈ Node.flagUses (structured symbols usage found).2 ↔
      use ∈ found.written.filterMap Instruction.flagUse? := by
  by_cases hunrolled : found.shape = .unrolled
  · rw [flagUses_unrolled symbols hunrolled]
  by_cases htemplate : found.shape = .template
  · rw [flagUses_template symbols htemplate]
  have hwritten : found.written = found.unabsorbed found.instructions := by
    unfold Match.written
    split
    · exact absurd ‹_› hunrolled
    · exact absurd ‹_› htemplate
    · rfl
  rw [hwritten]
  cases htop : found.isTopTested with
  | true => exact mem_flagUses_topTested symbols hascending htop usage
  | false =>
    have hsame : Node.flagUse? ∘ statementFor symbols found = Instruction.flagUse? :=
      funext (flagUse?_statementFor symbols)
    rw [Node.flagUses_eq_own, own_structured symbols hascending hsound hunrolled htemplate htop,
      List.filterMap_map, hsame]

theorem mem_flagUses_codeFor (usage : Usage) {matched : List Match} {use : FlagUse}
    (h : ∀ found ∈ matched, ∀ usage, use ∈ Node.flagUses (structured symbols usage found).2 ↔
      use ∈ found.written.filterMap Instruction.flagUse?) :
    use ∈ Node.flagUses (codeFor symbols usage matched).2 ↔
      use ∈ (matched.flatMap Match.written).filterMap Instruction.flagUse? := by
  induction matched generalizing usage with
  | nil => rw [codeFor, Node.flagUses_nil]; rfl
  | cons found others ih =>
    obtain ⟨hfound, hothers⟩ := List.forall_mem_cons.mp h
    rw [codeFor, List.flatMap_cons, List.filterMap_append, List.mem_append]
    simp only
    rw [Node.flagUses_append, List.mem_append, hfound, ih _ hothers]

theorem mem_flagUses_build {blocks : List Block}
    (hascending : Ascending (Block.instructionsOf blocks)) (usage : Usage) {use : FlagUse} :
    use ∈ Node.flagUses (build symbols usage blocks).2 ↔
      use ∈ ((shapes symbols blocks).flatMap Match.written).filterMap Instruction.flagUse? := by
  rw [build_eq_codeFor]
  apply mem_flagUses_codeFor
  intro found hfound usage
  exact mem_flagUses_structured symbols (ascending_of_mem_shapes hascending hfound)
    (sound_of_mem_shapes hfound) usage

end Routine

/-! ### Programs -/

namespace Program

variable (symbols : SymbolTable)

/-- The instructions of a program that have nodes of their own. -/
def written (symbols : SymbolTable) (blocks : List Block) : List Instruction :=
  (shapes symbols blocks).flatMap Match.written

theorem flagUses_routineNode (entry : Address) (children : List Node) :
    Node.flagUses [routineNode symbols entry children] = Node.flagUses children := by
  have hfinished : ∀ node : Node, (finished symbols entry node.alone).flagUse? = node.flagUse? := by
    intro node
    unfold finished
    split
    · rfl
    · exact Node.flagUse?_endProgram node
  have hroutine : (routineNode symbols entry []).flagUse? = none := by
    apply Node.flagUse?_eq_none
    simp [kind_routineNode]
  rw [Node.flagUses_eq_alone, map_alone_walk_routineNode, List.filterMap_cons_none hroutine,
    List.map_map, List.filterMap_map]
  exact List.filterMap_congr fun node _ => hfinished node

/-- Whether routines that were built from some segments test and jump on the flags where they write
instructions that do. -/
def Routines.UsesFlags (symbols : SymbolTable) (segments : List (List Block))
    (routines : Routines) : Prop :=
  Ascending (Block.instructionsOf segments.flatten) →
    ∀ use, use ∈ Node.flagUses routines.functions ↔
    use ∈ ((segments.flatMap (Routine.shapes symbols)).flatMap Match.written).filterMap
      Instruction.flagUse?

variable {symbols} in
theorem usesFlags_add {segments : List (List Block)} {routines : Routines}
    (h : routines.UsesFlags symbols segments) (segment : List Block) :
    (routines.add symbols segment).UsesFlags symbols (segments ++ [segment]) := by
  intro hall use
  rw [List.flatten_concat, Block.instructionsOf_append] at hall
  have hbefore := h (hall.sublist (List.sublist_append_left _ _)) use
  cases segment with
  | nil =>
    change use ∈ Node.flagUses routines.functions ↔ _
    rw [hbefore]
    simp [Routine.shapes]
  | cons first rest =>
    rw [functions_add, Node.flagUses_append, List.mem_append, hbefore, flagUses_routineNode,
      Routine.mem_flagUses_build symbols (hall.sublist (List.sublist_append_right _ _)),
      List.flatMap_append, List.flatMap_append, List.filterMap_append, List.mem_append,
      List.flatMap_singleton]

theorem mem_flagUses_functions {blocks : List Block}
    (hascending : Ascending (Block.instructionsOf blocks)) {use : FlagUse} :
    use ∈ Node.flagUses (routines symbols blocks).functions ↔
      use ∈ (written symbols blocks).filterMap Instruction.flagUse? := by
  have hnone : Routines.UsesFlags symbols [] {} := by
    intro _ use
    change use ∈ Node.flagUses [] ↔ _
    rw [Node.flagUses_nil]
    rfl
  rw [← flatten_divide symbols blocks] at hascending
  exact foldl_add_induction (motive := Routines.UsesFlags symbols)
    (fun _ _ segment h => usesFlags_add h segment) hnone
    (Routine.divide symbols blocks) hascending use

theorem flagUses_templates {templates : List Node} (h : ∀ node ∈ templates, node.IsTemplate) :
    Node.flagUses templates = [] := by
  rw [Node.flagUses, List.filterMap_eq_nil_iff]
  intro node hnode
  obtain ⟨template, htemplate, hnode⟩ := Node.mem_walkAll.mp hnode
  -- What was cut out has no addresses.
  have hlines := (h template htemplate).lines
  rw [Node.walk_eq, Node.walkAll_of_leaves fun child hchild => (hlines child hchild).1.leaf]
    at hnode
  rcases List.mem_cons.mp hnode with rfl | hchild
  · apply Node.flagUse?_eq_none
    simp [(h node htemplate).kind]
  · unfold Node.flagUse?
    rw [(hlines node hchild).2.1]
    split <;> simp_all

/-- A tree tests and jumps on the flags where it writes the instructions that do. -/
theorem mem_flagUses_root {blocks : List Block}
    (hascending : Ascending (Block.instructionsOf blocks)) (use : FlagUse) :
    use ∈ Node.flagUses [(build symbols blocks).root] ↔
      use ∈ (written symbols blocks).filterMap Instruction.flagUse? := by
  have htemplates := flagUses_templates (built_routines symbols blocks).templates
  rw [Node.flagUses_eq_alone, map_alone_walk_root, ← Node.flagUses_eq_alone,
    Node.flagUses_singleton (by simp [unlabelled]), unlabelled, Node.flagUses_append, htemplates,
    List.append_nil]
  exact mem_flagUses_functions symbols hascending

theorem mem_of_mem_written {blocks : List Block} {i : Instruction}
    (h : i ∈ written symbols blocks) : i ∈ Block.instructionsOf blocks := by
  obtain ⟨found, hfound, hi⟩ := List.mem_flatMap.mp h
  rw [← instructions_shapes symbols blocks]
  exact List.mem_flatMap.mpr ⟨found, hfound, found.written_subset hi⟩

section Listing

variable {instructions : List Instruction} (hascending : Ascending instructions)
include hascending

theorem exists_flagUse?_iff (use : FlagUse) :
    (∃ node ∈ (build symbols (Block.partition instructions)).root.walk, node.flagUse? = some use) ↔
      ∃ i ∈ written symbols (Block.partition instructions), i.flagUse? = some use := by
  have hblocks : Ascending (Block.instructionsOf (Block.partition instructions)) := by
    rwa [Block.instructionsOf_partition]
  have hmem := mem_flagUses_root symbols hblocks use
  rwa [Node.flagUses, Node.walkAll_cons, Node.walkAll_nil, List.append_nil, List.mem_filterMap,
    List.mem_filterMap] at hmem

theorem exists_written_iff {instruction : Instruction} (hmem : instruction ∈ instructions)
    {kept : Instruction → Prop} :
    (∃ i ∈ written symbols (Block.partition instructions), kept i ∧
      i.address = instruction.address) ↔
      instruction ∈ written symbols (Block.partition instructions) ∧ kept instruction := by
  constructor
  · rintro ⟨i, hi, hkept, haddress⟩
    -- In ascending code an address is that of one instruction.
    have hinside := mem_of_mem_written symbols hi
    rw [Block.instructionsOf_partition] at hinside
    obtain rfl := hascending.eq_of_address_eq hinside hmem haddress
    exact ⟨hi, hkept⟩
  · rintro ⟨hwritten, hkept⟩
    exact ⟨instruction, hwritten, hkept, rfl⟩

/-- A comparison sets `FLAGS` in the tree exactly if it is written and can be read. -/
theorem exists_flagTest_iff {test : Instruction} (hmem : test ∈ instructions) :
    (∃ node ∈ (build symbols (Block.partition instructions)).root.walk,
        node.kind = .expr ∧ node.value = "FLAGS" ∧ node.address = some test.address) ↔
      test ∈ written symbols (Block.partition instructions) ∧ test.isFlagTest = true := by
  have hiff := exists_flagUse?_iff symbols hascending (.test test.address)
  simp only [Node.flagUse?_eq_test, Instruction.flagUse?_eq_test] at hiff
  rw [hiff]
  exact exists_written_iff symbols hascending hmem

/-- A branch jumps on `FLAGS` in the tree exactly if it is written and its target can be named. -/
theorem exists_flagJump_iff {branch : Instruction} (hmem : branch ∈ instructions) :
    (∃ node ∈ (build symbols (Block.partition instructions)).root.walk,
        node.kind = .goto ∧ node.params.head? = some "FLAGS" ∧ node.address = some branch.address) ↔
      branch ∈ written symbols (Block.partition instructions) ∧ branch.isFlagJump = true := by
  have hiff := exists_flagUse?_iff symbols hascending (.jump branch.address)
  simp only [Node.flagUse?_eq_jump, Instruction.flagUse?_eq_jump] at hiff
  rw [hiff]
  exact exists_written_iff symbols hascending hmem

end Listing

/-- Walking back from a branch through instructions that follow one another, a comparison is met
before any jump or return. -/
def MetBefore (instructions : List Instruction) (test branch : Instruction) : Prop :=
  ∃ front between back, instructions = front ++ test :: (between ++ branch :: back) ∧
    (test :: (between ++ [branch])).IsChain (fun i next => next.address = i.nextAddress) ∧
    test.mnemonic.isComparison = true ∧ ∀ i ∈ between, i.mnemonic ≠ .jmp ∧
    i.mnemonic.isReturn = false

/-- A jump on the flags has its test in the tree of a listing exactly if the branch is not written,
or the comparison is written as well and can be read. -/
theorem flag_jump_has_test_iff (symbols : SymbolTable) (text : String) {test branch : Instruction}
    (hmet : MetBefore (Listing.read text).instructions test branch) :
    let tree := (ofListing symbols text).root
    let written := written symbols (Block.partition (Listing.read text).instructions)
    ((∃ jump ∈ tree.walk, jump.kind = .goto ∧ jump.params.head? = some "FLAGS" ∧
      jump.address = some branch.address) →
        ∃ node ∈ tree.walk, node.kind = .expr ∧ node.value = "FLAGS" ∧
        node.address = some test.address) ↔
      (branch ∈ written ∧ branch.isFlagJump = true → test ∈ written ∧ test.isFlagTest = true) := by
  intro tree written
  obtain ⟨front, between, back, hparts, -⟩ := hmet
  have htest : test ∈ (Listing.read text).instructions := by simp [hparts]
  have hbranch : branch ∈ (Listing.read text).instructions := by simp [hparts]
  have hascending := Listing.ascending_read text
  exact imp_congr (exists_flagJump_iff symbols hascending hbranch)
    (exists_flagTest_iff symbols hascending htest)

/-- A comparison that a branch on a negative result looks at. -/
def negativeLoop : String := "$C000: CMP #$05\n$C002: BMI $C000\n$C004: RTS\n"

theorem negativeLoop_has_test :
    let symbols := SymbolTable.resolve (Listing.read negativeLoop).candidates Sources.empty
    let tree := (ofListing symbols negativeLoop).root
    (∃ jump ∈ tree.walk, jump.kind = .goto ∧ jump.params.head? = some "FLAGS" ∧
      jump.address = some 0xC002) ∧
      ∃ node ∈ tree.walk, node.kind = .expr ∧ node.value = "FLAGS" ∧
      node.address = some 0xC000 := by
  intro symbols tree
  let test : Instruction := { address := 0xC000, mnemonic := .cmp, operand := .immediate 5 }
  let branch : Instruction := { address := 0xC002, mnemonic := .bmi, operand := .absolute 0xC000 }
  have hmet : MetBefore (Listing.read negativeLoop).instructions test branch := by
    refine ⟨[], [], [{ address := 0xC004, mnemonic := .rts, operand := .implied }], ?_, ?_, ?_, ?_⟩
    · decide +kernel
    · decide +kernel
    · rfl
    · simp
  have hjump : ∃ jump ∈ tree.walk, jump.kind = .goto ∧ jump.params.head? = some "FLAGS" ∧
      jump.address = some 0xC002 := by
    decide +kernel
  have hwritten :
      test ∈ written symbols (Block.partition (Listing.read negativeLoop).instructions) := by
    decide +kernel
  exact ⟨hjump,
    (flag_jump_has_test_iff symbols negativeLoop hmet).mpr (fun _ => ⟨hwritten, rfl⟩) hjump⟩

/-- Two branches that look at one comparison. -/
def sharedTest : String :=
  "$C000: CMP #$05\n$C002: BEQ $C007\n$C004: BMI $C007\n$C006: NOP\n$C007: RTS\n"

/-- The first branch takes the comparison with it, and the second is left with flags that nothing
sets. -/
theorem sharedTest_lost :
    let symbols := SymbolTable.resolve (Listing.read sharedTest).candidates Sources.empty
    let tree := (ofListing symbols sharedTest).root
    (∃ test branch, MetBefore (Listing.read sharedTest).instructions test branch ∧
      test.address = 0xC000 ∧
      branch.address = 0xC004) ∧
    (∃ jump ∈ tree.walk, jump.kind = .goto ∧ jump.params.head? = some "FLAGS" ∧
      jump.address = some 0xC004) ∧
    ¬ ∃ node ∈ tree.walk, node.kind = .expr ∧ node.value = "FLAGS" := by
  intro symbols tree
  refine ⟨?_, by decide +kernel, by decide +kernel⟩
  refine ⟨{ address := 0xC000, mnemonic := .cmp, operand := .immediate 5 },
    { address := 0xC004, mnemonic := .bmi, operand := .absolute 0xC007 }, ⟨[],
      [{ address := 0xC002, mnemonic := .beq, operand := .absolute 0xC007 }],
      [{ address := 0xC006, mnemonic := .nop, operand := .implied },
       { address := 0xC007, mnemonic := .rts, operand := .implied }], ?_, ?_, rfl, ?_⟩, rfl, rfl⟩
  · decide +kernel
  · decide +kernel
  · decide

end Program

end Lift6502
