import Lift6502.Proofs.Routine.Matches
import Lift6502.Proofs.Routine.Statements

/-!
# Every instruction is accounted for

Structuring neither loses an instruction nor repeats one. Each shape sorts the instructions that it
does not absorb with filters of its own: by the top of a loop, by the blocks that contain them, or
by the place of the terminator. In ascending code every such filter cuts the instructions into
consecutive parts, so that the statements of a shape are those of its unabsorbed instructions, one
for one and in order. Only a loop with its test at the top says the statements of its header twice.
Repeated code is left out here: it is written once on purpose.
-/

namespace Lift6502

namespace Match

/-- The instructions of a match that its shape leaves to statements of their own. -/
def unabsorbed (found : Match) (instructions : List Instruction) : List Instruction :=
  instructions.filter fun i => !found.absorbs i

/-- Whether a match is a loop with its test at the top. -/
def isTopTested (found : Match) : Bool :=
  (found.shape == .whileLoop || found.shape == .untilLoop) && found.blocks.length == 2

theorem unabsorbed_append (found : Match) (left right : List Instruction) :
    found.unabsorbed (left ++ right) = found.unabsorbed left ++ found.unabsorbed right :=
  List.filter_append left right

theorem unabsorbed_instructionsOf (found : Match) (blocks : List Block) :
    found.unabsorbed (Block.instructionsOf blocks) = blocks.flatMap fun block =>
      found.unabsorbed block.instructions :=
  List.filter_flatMap

theorem ascending_unabsorbed (found : Match) {instructions : List Instruction}
    (h : Ascending instructions) : Ascending (found.unabsorbed instructions) :=
  h.filter _

theorem unabsorbed_of_control_empty {found : Match} (h : found.control = ∅)
    (instructions : List Instruction) : found.unabsorbed instructions = instructions := by
  rw [unabsorbed, List.filter_eq_self]
  intro i _
  simp [absorbs, h]

theorem unabsorbed_eq_nil {found : Match} {instructions : List Instruction}
    (h : ∀ i ∈ instructions, found.absorbs i = true) : found.unabsorbed instructions = [] := by
  rw [unabsorbed, List.filter_eq_nil_iff]
  intro i hi
  simp [h i hi]

theorem absorbs_of_control {found : Match} {absorbed : List Instruction}
    (h : found.control = addressesOf absorbed) {instruction : Instruction} :
    found.absorbs instruction = true ↔ ∃ i ∈ absorbed, i.address = instruction.address := by
  simp [absorbs, h, addressesOf]

/-- A match of tests absorbs the comparison and the branch of each of its blocks. -/
theorem Tested.absorbs_iff {found : Match} (h : found.Tested) {instruction : Instruction} :
    found.absorbs instruction = true ↔ ∃ block ∈ found.blocks, ∃ test, block.test? = some test ∧
      (test.compare.address = instruction.address ∨ test.branch.address = instruction.address) := by
  rw [absorbs_of_control h.control]
  simp only [List.mem_flatMap, List.mem_filterMap, List.mem_cons, List.not_mem_nil, or_false]
  constructor
  · rintro ⟨i, ⟨test, ⟨block, hblock, htest⟩, rfl | rfl⟩, haddress⟩
    · exact ⟨block, hblock, test, htest, Or.inl haddress⟩
    · exact ⟨block, hblock, test, htest, Or.inr haddress⟩
  · rintro ⟨block, hblock, test, htest, haddress | haddress⟩
    · exact ⟨test.compare, ⟨test, ⟨block, hblock, htest⟩, Or.inl rfl⟩, haddress⟩
    · exact ⟨test.branch, ⟨test, ⟨block, hblock, htest⟩, Or.inr rfl⟩, haddress⟩

/-- A block of a match that is nothing but its test has nothing left. -/
theorem Tested.unabsorbed_pair {found : Match} (h : found.Tested) {block : Block}
    (hblock : block ∈ found.blocks) (hlength : block.instructions.length = 2) :
    found.unabsorbed block.instructions = [] := by
  obtain ⟨test, htest⟩ := h.tests block hblock
  apply unabsorbed_eq_nil
  intro i hi
  rw [(Block.test?_closes htest).eq_pair hlength] at hi
  rw [h.absorbs_iff]
  rcases List.mem_pair.mp hi with rfl | rfl
  · exact ⟨block, hblock, test, htest, Or.inl rfl⟩
  · exact ⟨block, hblock, test, htest, Or.inr rfl⟩

end Match

namespace Routine

variable (symbols : SymbolTable) (found : Match)

/-! ### Filtered statements -/

theorem statements_eq_map_filter (keep : Instruction → Bool) :
    statements symbols found keep
      = ((found.unabsorbed found.instructions).filter keep).map (Statement.ofInstruction
        symbols) := by
  rw [statements, Match.unabsorbed, List.filter_filter]
  simp only [Bool.and_comm]

theorem statements_all :
    statements symbols found (fun _ => true)
      = (found.unabsorbed found.instructions).map (Statement.ofInstruction symbols) := by
  rw [statements_eq_map_filter, List.filter_eq_self.mpr fun _ _ => rfl]

theorem own_statements (keep : Instruction → Bool) :
    Node.own (statements symbols found keep) = statements symbols found keep :=
  Statement.own_map_ofInstruction symbols _

/-- The statements in front of an address and those from it on are all statements. -/
theorem statements_split (hascending : Ascending found.instructions) (top : Address) :
    statements symbols found (·.address < top) ++ statements symbols found (top ≤ ·.address)
      = (found.unabsorbed found.instructions).map (Statement.ofInstruction symbols) := by
  rw [statements_eq_map_filter, statements_eq_map_filter, ← List.map_append,
    (found.ascending_unabsorbed hascending).filter_lt_append_filter_le top]

/-- The statements at the addresses of a claimed block are those of its own instructions. -/
theorem statements_contains (hascending : Ascending found.instructions) {block : Block}
    (hblock : block ∈ found.blocks) :
    statements symbols found (fun i => block.contains i.address)
      = (found.unabsorbed block.instructions).map (Statement.ofInstruction symbols) := by
  have hblocks := Block.filter_contains_eq hascending hblock
  rw [statements_eq_map_filter, Match.unabsorbed, List.filter_comm, Match.instructions, hblocks]
  rfl

/-! ### The statements of each shape -/

theorem own_counted (hascending : Ascending found.instructions) :
    Node.own (counted symbols found)
      = (found.unabsorbed found.instructions).map (Statement.ofInstruction symbols) := by
  rw [counted, Node.own_append, Node.own_singleton rfl, own_statements, own_statements]
  exact statements_split symbols found hascending _

theorem own_bottomTested (hascending : Ascending found.instructions) :
    Node.own (bottomTested symbols found)
      = (found.unabsorbed found.instructions).map (Statement.ofInstruction symbols) := by
  rw [bottomTested, Node.own_append, Node.own_singleton rfl, own_statements, own_statements]
  exact statements_split symbols found hascending _

theorem own_conditionals (hascending : Ascending found.instructions) :
    Node.own (conditionals symbols found)
      = (found.unabsorbed found.instructions).map (Statement.ofInstruction symbols) := by
  have hjump (block : Block) : Node.own (block.test?.map (conditionalJump symbols)).toList
      = [] := by
    cases block.test? with
    | none => rfl
    | some test => rfl
  have hblock (block : Block) (h : block ∈ found.blocks) :
      Node.own ((statements symbols found fun i => block.contains i.address)
          ++ (block.test?.map (conditionalJump symbols)).toList)
        = (found.unabsorbed block.instructions).map (Statement.ofInstruction symbols) := by
    rw [Node.own_append, hjump, List.append_nil, own_statements,
      statements_contains symbols found hascending h]
  rw [conditionals, Node.own_flatMap, List.flatMap_congr hblock, ← List.map_flatMap,
    Match.instructions, Match.unabsorbed_instructionsOf]

/-- A case holds one node, which was built from no instruction of its own. -/
theorem children_dispatchCase (subject : String) (exit : Address) (test : Test) :
    ∃ kind value, (dispatchCase symbols subject exit test).children = [{ kind, value }] ∧
      (kind = .goto ∨ kind = .exitSwitch) := by
  unfold dispatchCase
  by_cases hexit : test.target = exit
  · simp only [if_pos hexit]
    exact ⟨.exitSwitch, "", rfl, Or.inr rfl⟩
  · simp only [if_neg hexit]
    exact ⟨.goto, symbols.codeName test.target, rfl, Or.inl rfl⟩

/-- A case and what it holds are all the nodes that a test gives. -/
theorem walkAll_dispatchCases (subject : String) (exit : Address) (tests : List Test) :
    Node.walkAll (tests.map (dispatchCase symbols subject exit))
      = tests.flatMap fun test => dispatchCase symbols subject exit test ::
        (dispatchCase symbols subject exit test).children := by
  rw [Node.walkAll_eq_flatMap, List.flatMap_map]
  refine List.flatMap_congr fun test _ => ?_
  obtain ⟨kind, value, hchildren, -⟩ := children_dispatchCase symbols subject exit test
  rw [Node.walk_eq, Node.walkAll_of_leaves]
  rw [hchildren]
  exact List.forall_mem_singleton.mpr rfl

theorem own_dispatchCases (subject : String) (exit : Address) (tests : List Test) :
    Node.own (tests.map (dispatchCase symbols subject exit)) = [] := by
  rw [Node.own, walkAll_dispatchCases, List.filter_eq_nil_iff]
  intro node hnode
  obtain ⟨test, -, hnode⟩ := List.mem_flatMap.mp hnode
  obtain ⟨kind, value, hchildren, -⟩ := children_dispatchCase symbols subject exit test
  rw [hchildren, List.mem_pair] at hnode
  rcases hnode with rfl | rfl <;> simp [Node.isOwn, dispatchCase, NodeKind.isStatement]

/-- Behind its first block a dispatch has nothing left. -/
theorem unabsorbed_of_pairs {found : Match} (htested : found.Tested) {first : Block}
    {rest : List Block} (hblocks : found.blocks = first :: rest)
    (hpairs : ∀ block ∈ rest, block.instructions.length = 2) :
    found.unabsorbed found.instructions = found.unabsorbed first.instructions := by
  have hrest : found.unabsorbed (Block.instructionsOf rest) = [] := by
    rw [Match.unabsorbed_instructionsOf, List.flatMap_eq_nil_iff]
    intro block hblock
    exact htested.unabsorbed_pair (by simp [hblocks, hblock]) (hpairs block hblock)
  rw [Match.instructions, hblocks, ← List.singleton_append, Block.instructionsOf_append,
    Match.unabsorbed_append, hrest, List.append_nil]
  simp [Block.instructionsOf]

theorem own_dispatch (hascending : Ascending found.instructions) (htested : found.Tested)
    (hpairs : ∀ block ∈ found.blocks.tail, block.instructions.length = 2) :
    Node.own (dispatch symbols found)
      = (found.unabsorbed found.instructions).map (Statement.ofInstruction symbols) := by
  unfold dispatch
  cases hblocks : found.blocks with
  | nil =>
    simp [Match.instructions, hblocks, Block.instructionsOf, Match.unabsorbed, Node.own,
      Node.walkAll]
  | cons first rest =>
    have hfirst : first ∈ found.blocks := by simp [hblocks]
    have hall := unabsorbed_of_pairs htested hblocks (by simpa [hblocks] using hpairs)
    rw [List.head?_cons, List.getLast?_cons]
    simp only
    rw [Node.own_append, Node.own_singleton rfl, own_statements,
      statements_contains symbols found hascending hfirst, own_dispatchCases, List.append_nil, hall]

/-- The statement that an instruction becomes in a match: in a record, a store becomes one to a
field. -/
def statementFor (symbols : SymbolTable) (found : Match) (instruction : Instruction) : Node :=
  match found.shape, found.subject with
  | .record, some (.absolute base) => recordStatement symbols base instruction
  | _, _ => Statement.ofInstruction symbols instruction

theorem recordStatement_isStatement (base : Address) (instruction : Instruction) :
    (recordStatement symbols base instruction).IsStatement := by
  unfold recordStatement
  split
  · exact ⟨rfl, rfl, rfl⟩
  · exact Statement.ofInstruction_isStatement symbols instruction

theorem recordStatement_address (base : Address) (instruction : Instruction) :
    (recordStatement symbols base instruction).address = some instruction.address := by
  unfold recordStatement
  split <;> rfl

theorem recordStatement_of_endsBlock (base : Address) {instruction : Instruction}
    (h : instruction.endsBlock = true) :
    recordStatement symbols base instruction = Statement.ofInstruction symbols instruction := by
  have hstored : Shape.storedPlace? instruction = none := by
    unfold Shape.storedPlace?
    split
    · rename_i hmnemonic _
      rw [Operation.endsBlock, hmnemonic] at h
      cases h
    · rfl
  rw [recordStatement, hstored]

theorem own_record {block : Block} {base : Address} (hcontrol : found.control = ∅)
    (hblocks : found.blocks = [block]) (hsubject : found.subject = some (.absolute base)) :
    Node.own (record symbols found)
      = (found.unabsorbed found.instructions).map (recordStatement symbols base) := by
  have hterminator : (block.terminator?.map (Statement.ofInstruction symbols)).toList
      = block.terminator?.toList.map (recordStatement symbols base) := by
    cases hlast : block.terminator? with
    | none => rfl
    | some last =>
      obtain ⟨hends, rfl⟩ := Block.terminator?_eq_some.mp hlast
      simp [recordStatement_of_endsBlock symbols base hends]
  have hown := Node.own_map_of_isStatement (recordStatement_isStatement symbols base)
    (recordStatement_address symbols base)
  rw [Match.unabsorbed_of_control_empty hcontrol, record, hsubject, hblocks]
  simp only [List.head?_cons]
  rw [← List.singleton_append, Node.own_append, Node.own_singleton rfl, hterminator, hown, hown,
    ← List.map_append, Block.body_append_terminator?, Match.instructions, hblocks]
  simp [Block.instructionsOf]

/-- Announcing changes nothing but what was announced, and gives nodes that tell of variables
only. -/
theorem announce_spec (usage : Usage) (instructions : List Instruction) :
    (∃ announced, (announce symbols usage instructions).1 = { usage with announced }) ∧
      ∀ node ∈ (announce symbols usage instructions).2,
        ∃ value params, node = { kind := .globalVar, value, params } := by
  induction instructions generalizing usage with
  | nil => exact ⟨⟨usage.announced, rfl⟩, List.forall_mem_nil _⟩
  | cons instruction rest ih =>
    unfold announce
    split
    · rename_i address _
      split
      · obtain ⟨husage, hnodes⟩ := ih { usage with announced := usage.announced.insert address }
        exact ⟨husage, List.forall_mem_cons.mpr ⟨⟨_, _, rfl⟩, hnodes⟩⟩
      · exact ih usage
    · exact ih usage

theorem walkAll_announce (usage : Usage) (instructions : List Instruction) :
    Node.walkAll (announce symbols usage instructions).2
      = (announce symbols usage instructions).2 := by
  refine Node.walkAll_of_leaves fun node hnode => ?_
  obtain ⟨_, _, rfl⟩ := (announce_spec symbols usage instructions).2 node hnode
  rfl

theorem own_announce (usage : Usage) (instructions : List Instruction) :
    Node.own (announce symbols usage instructions).2 = [] := by
  rw [Node.own, walkAll_announce, List.filter_eq_nil_iff]
  intro node hnode
  obtain ⟨_, _, rfl⟩ := (announce_spec symbols usage instructions).2 node hnode
  simp [Node.isOwn]

/-! ### All shapes -/

theorem statementFor_address (instruction : Instruction) :
    (statementFor symbols found instruction).address = some instruction.address := by
  unfold statementFor
  split
  · exact recordStatement_address symbols _ instruction
  · exact Statement.ofInstruction_address symbols instruction

theorem statementFor_of_shape_ne {found : Match} (h : found.shape ≠ .record) :
    statementFor symbols found = Statement.ofInstruction symbols := by
  funext instruction
  unfold statementFor
  split
  · contradiction
  · rfl

theorem statementFor_record {found : Match} {base : Address} (hshape : found.shape = .record)
    (hsubject : found.subject = some (.absolute base)) :
    statementFor symbols found = recordStatement symbols base := by
  funext instruction
  rw [statementFor, hshape, hsubject]

/-- Unless a shape repeats code or tests at its top, its statements are those of its unabsorbed
instructions. -/
theorem own_structured {found : Match} (hascending : Ascending found.instructions)
    (hsound : found.Sound) (hunrolled : found.shape ≠ .unrolled)
    (htemplate : found.shape ≠ .template) (htop : found.isTopTested = false) (usage : Usage) :
    Node.own (structured symbols usage found).2
      = (found.unabsorbed found.instructions).map (statementFor symbols found) := by
  by_cases hrecord : found.shape = .record
  · simp only [Match.Sound, hrecord] at hsound
    obtain ⟨hcontrol, block, base, hblocks, hsubject, _⟩ := hsound
    rw [statementFor_record symbols hrecord hsubject, structured, hrecord]
    exact own_record symbols found hcontrol hblocks hsubject
  · rw [statementFor_of_shape_ne symbols hrecord, structured]
    cases hshape : found.shape <;> simp only [hshape, Match.Sound] at hsound ⊢
    case countUp | countDown => exact own_counted symbols found hascending
    case whileLoop =>
      -- A while loop is always top tested, an until loop only if it has two blocks.
      obtain ⟨header, body, hblocks⟩ := hsound
      simp [Match.isTopTested, hshape, hblocks] at htop
    case untilLoop =>
      have hlength : found.blocks.length ≠ 2 := by simpa [Match.isTopTested, hshape] using htop
      rw [untilLoop, if_neg hlength]
      exact own_bottomTested symbols found hascending
    case conditional => exact own_conditionals symbols found hascending
    case conditionalChain =>
      rw [Node.own_singleton rfl]
      exact own_conditionals symbols found hascending
    case dispatch => exact own_dispatch symbols found hascending hsound.1 hsound.2
    case record => exact absurd hshape hrecord
    case unrolled => exact absurd hshape hunrolled
    case template => exact absurd hshape htemplate
    case globalVariable =>
      rw [Node.own_append, own_announce, List.nil_append, own_statements, statements_all]
    case bitField | pointer | timer | inputHandler | interrupt =>
      rw [Node.own_singleton rfl, marked, own_statements, statements_all]
    case call | jump | plain => rw [own_statements, statements_all]

/-- A loop with its test at the top says its header in front of the loop and again at the end of the
loop's body. -/
theorem structured_of_isTopTested {found : Match} (hascending : Ascending found.instructions)
    (htop : found.isTopTested = true) (usage : Usage) :
    ∃ header body loop, found.blocks = [header, body] ∧ loop.kind = .whileLoop ∧
      (structured symbols usage found).2
        = (found.unabsorbed header.instructions).map (statementFor symbols found) ++ [loop] ∧
      loop.children = (found.unabsorbed body.instructions).map (statementFor symbols found)
        ++ (found.unabsorbed header.instructions).map (statementFor symbols found) := by
  simp only [Match.isTopTested, Bool.and_eq_true, Bool.or_eq_true, beq_iff_eq] at htop
  obtain ⟨hshape, hlength⟩ := htop
  obtain ⟨header, body, hblocks⟩ : ∃ header body, found.blocks = [header, body] :=
    List.length_eq_two.mp hlength
  have hrecord : found.shape ≠ .record := by
    rintro hrecord
    rcases hshape with hshape | hshape <;> rw [hrecord] at hshape <;> cases hshape
  have hheader :=
    statements_contains symbols found hascending (show header ∈ found.blocks by simp [hblocks])
  have hbody :=
    statements_contains symbols found hascending (show body ∈ found.blocks by simp [hblocks])
  obtain ⟨condition, hnodes⟩ :
      ∃ condition, (structured symbols usage found).2 = topTested symbols found condition := by
    rcases hshape with hshape | hshape
    · exact ⟨condition symbols found found.comparison, by simp only [structured, hshape]⟩
    · refine ⟨condition symbols found (found.comparison.map Comparison.inverse), ?_⟩
      simp only [structured, hshape, untilLoop, hlength, if_true]
  rw [hnodes, topTested, hblocks, statementFor_of_shape_ne symbols hrecord]
  simp only [hheader, hbody]
  exact ⟨header, body, _, rfl, rfl, rfl, rfl⟩

/-- Nodes hold each instruction of a match that its shape does not absorb, and no other. -/
structure Accounts (symbols : SymbolTable) (found : Match) (nodes : List Node) : Prop where
  ascending : Ascending (found.unabsorbed found.instructions)
  address : ∀ i, (statementFor symbols found i).address = some i.address
  /-- The statements are those of the unabsorbed instructions, in order. -/
  once : found.isTopTested = false →
    Node.own nodes = (found.unabsorbed found.instructions).map (statementFor symbols found)
  /-- Only a test at the top makes the header be said twice: in front of the loop, and at the end of
  its body. -/
  twice : found.isTopTested = true → ∃ header body loop, found.blocks = [header, body] ∧
    loop.kind = .whileLoop ∧
    nodes = (found.unabsorbed header.instructions).map (statementFor symbols found) ++ [loop] ∧
    loop.children = (found.unabsorbed body.instructions).map (statementFor symbols found)
      ++ (found.unabsorbed header.instructions).map (statementFor symbols found)
  /-- An absorbed instruction has no statement. -/
  absorbed : ∀ i ∈ found.instructions, found.absorbs i = true →
    ∀ node ∈ Node.own nodes, node.address ≠ some i.address

theorem not_absorbs_of_mem_unabsorbed {found : Match} {instructions : List Instruction}
    {instruction : Instruction} (h : instruction ∈ found.unabsorbed instructions) :
    found.absorbs instruction = false := by
  simpa using (List.mem_filter.mp h).2

/-- A statement of unabsorbed instructions does not stand at the address of an absorbed one. -/
theorem address_ne_of_absorbs {found : Match} {instructions : List Instruction} {node : Node}
    (hnode : node ∈ (found.unabsorbed instructions).map (statementFor symbols found))
    {instruction : Instruction} (h : found.absorbs instruction = true) :
    node.address ≠ some instruction.address := by
  obtain ⟨i, hi, rfl⟩ := List.mem_map.mp hnode
  rw [statementFor_address]
  intro haddress
  have hsame : found.absorbs i = found.absorbs instruction := by
    rw [Match.absorbs, Match.absorbs, Option.some.inj haddress]
  rw [not_absorbs_of_mem_unabsorbed hi, h] at hsame
  cases hsame

theorem own_map_statementFor (instructions : List Instruction) :
    Node.own (instructions.map (statementFor symbols found))
      = instructions.map (statementFor symbols found) := by
  refine Node.own_map_of_isStatement (fun i => ?_) (statementFor_address symbols found) instructions
  unfold statementFor
  split
  · exact recordStatement_isStatement symbols _ i
  · exact Statement.ofInstruction_isStatement symbols i

theorem structured_accounts {found : Match} (hascending : Ascending found.instructions)
    (hsound : found.Sound) (hunrolled : found.shape ≠ .unrolled)
    (htemplate : found.shape ≠ .template) (usage : Usage) :
    Accounts symbols found (structured symbols usage found).2 := by
  have honce (htop : found.isTopTested = false) :=
    own_structured symbols hascending hsound hunrolled htemplate htop usage
  have htwice (htop : found.isTopTested = true) :=
    structured_of_isTopTested symbols hascending htop usage
  refine ⟨found.ascending_unabsorbed hascending, statementFor_address symbols found, honce,
    htwice, ?_⟩
  intro instruction _ habsorbs node hnode
  cases htop : found.isTopTested with
  | false =>
    rw [honce htop] at hnode
    exact address_ne_of_absorbs symbols hnode habsorbs
  | true =>
    obtain ⟨header, body, loop, _, hkind, hnodes, hchildren⟩ := htwice htop
    have hloop : loop.isOwn = false := by rw [Node.isOwn, hkind]; rfl
    rw [hnodes, Node.own_append, Node.own_singleton hloop, hchildren, Node.own_append,
      own_map_statementFor, own_map_statementFor, ← List.map_append, ← List.map_append,
      ← Match.unabsorbed_append, ← Match.unabsorbed_append] at hnode
    exact address_ne_of_absorbs symbols hnode habsorbs

/-- A routine in ascending code is the code for matches that claim each of its blocks exactly once,
and unless a match folds repeated code, its nodes account for its instructions. -/
theorem build_accounts_for_instructions {instructions : List Instruction}
    (hascending : Ascending instructions) {segment : List Block}
    (hsegment : segment <:+: Block.partition instructions) (symbols : SymbolTable) (usage : Usage) :
    build symbols usage segment = codeFor symbols usage (shapes symbols segment) ∧
    (shapes symbols segment).flatMap (·.blocks) = segment ∧
    ∀ found ∈ shapes symbols segment, found.shape ≠ .unrolled → found.shape ≠ .template →
      ∀ usage, Accounts symbols found (structured symbols usage found).2 := by
  refine ⟨build_eq_codeFor symbols usage segment, flatMap_blocks_shapes symbols segment, ?_⟩
  intro found hfound hunrolled htemplate usage
  have hsegment := Block.ascending_of_infix_partition hascending hsegment
  exact structured_accounts symbols (ascending_of_mem_shapes hsegment hfound)
    (sound_of_mem_shapes hfound) hunrolled
    htemplate usage

/-- A loop that waits for a key, with its test at the top. -/
def waitingLoop : List Instruction :=
  [{ address := 0xC000, mnemonic := .lda, operand := .absolute 0xDC01 },
   { address := 0xC003, mnemonic := .cmp, operand := .immediate 0xFF },
   { address := 0xC005, mnemonic := .bne, operand := .absolute 0xC00D },
   { address := 0xC007, mnemonic := .inc, operand := .absolute 0xD020 },
   { address := 0xC00A, mnemonic := .jmp, operand := .absolute 0xC000 },
   { address := 0xC00D, mnemonic := .rts, operand := .implied }]

theorem waitingLoop_accounts :
    Ascending waitingLoop ∧ ∃ found ∈ shapes {} (Block.partition waitingLoop),
      found.isTopTested = true ∧ ∀ usage, Accounts {} found (structured {} usage found).2 := by
  have hascending : Ascending waitingLoop := by decide +kernel
  obtain ⟨_, _, haccounts⟩ := build_accounts_for_instructions hascending List.infix_rfl {} {}
  have hmem : Shape.recognise {} (Block.partition waitingLoop)
      ∈ shapes {} (Block.partition waitingLoop) := by
    rw [show Block.partition waitingLoop = (Block.partition waitingLoop).head (by decide +kernel)
      :: (Block.partition waitingLoop).tail from (List.cons_head_tail _).symm, shapes]
    exact List.mem_cons_self
  have hshape : (Shape.recognise {} (Block.partition waitingLoop)).shape = .whileLoop := by
    decide +kernel
  refine ⟨hascending, _, hmem, by decide +kernel, haccounts _ hmem ?_ ?_⟩
  · rw [hshape]
    decide
  · rw [hshape]
    decide

end Routine

end Lift6502
