import Lift6502.Proofs.Routine.Items

/-!
# Which instructions can carry a label

A label needs a node at its address. Every instruction that a shape does not absorb has one, and so
has the instruction that the shape itself is placed at, but the others of a shape are hidden: the
steps and tests of a loop, the branch of a conditional, and the copies of code that is written once.
Here that is made exact for each shape.
-/

namespace Lift6502

/-- Whether no node is placed at the address of an instruction of a match. -/
def Match.hides (found : Match) (instruction : Instruction) : Bool :=
  match found.shape with
  | .countUp | .countDown | .whileLoop | .untilLoop =>
    found.absorbs instruction && instruction.address != found.anchor
  | .conditional | .conditionalChain | .dispatch =>
    found.absorbs instruction && instruction.endsBlock
  | .unrolled => !found.blocks.head?.any (·.contains instruction.address)
  | .template => !found.blocks.any fun block =>
      block.start == instruction.address || block.terminator?.any (·.address == instruction.address)
  | _ => false

/-- The addresses of the instructions that a match does not hide. -/
def Match.Shows (found : Match) (address : Address) : Prop :=
  ∃ i ∈ found.instructions, found.hides i = false ∧ i.address = address

namespace Node

theorem carriesLabel_of_isStatement {kind : NodeKind} (h : kind.isStatement = true) :
    kind.carriesLabel = true := by
  cases kind <;> first | rfl | cases h

theorem IsStatement.site?_eq {node : Node} (h : node.IsStatement) : node.site? = node.address := by
  rw [site?, carriesLabel_of_isStatement h.kind, if_pos rfl]

theorem sites_map_of_isStatement {make : Instruction → Node} (hmake : ∀ i, (make i).IsStatement)
    (haddress : ∀ i, (make i).address = some i.address) (instructions : List Instruction) :
    sites (instructions.map make) = instructions.map (·.address) := by
  rw [sites_of_leaves, List.filterMap_map, ← List.filterMap_eq_map]
  · refine List.filterMap_congr fun i _ => ?_
    rw [Function.comp_apply, (hmake i).site?_eq, haddress]
    rfl
  · intro node hnode
    obtain ⟨i, _, rfl⟩ := List.mem_map.mp hnode
    exact (hmake i).leaf

theorem sites_map_ofInstruction (symbols : SymbolTable) (instructions : List Instruction) :
    sites (instructions.map (Statement.ofInstruction symbols)) = instructions.map (·.address) :=
  sites_map_of_isStatement (Statement.ofInstruction_isStatement symbols)
    (Statement.ofInstruction_address symbols)
    instructions

end Node

namespace Routine

open Node (sites sites_append sites_singleton sites_cons sites_nil sites_map_ofInstruction)

variable (symbols : SymbolTable) (found : Match)

/-! ### Shapes that absorb nothing -/

theorem shows_of_hides_false {found : Match} (h : ∀ i ∈ found.instructions, found.hides i = false)
    (address : Address) : found.Shows address ↔ address ∈ found.instructions.map (·.address) := by
  rw [List.mem_map]
  constructor
  · rintro ⟨i, hi, _, haddress⟩
    exact ⟨i, hi, haddress⟩
  · rintro ⟨i, hi, haddress⟩
    exact ⟨i, hi, h i hi, haddress⟩

theorem sites_statements_all {found : Match} (hcontrol : found.control = ∅) :
    sites (statements symbols found fun _ => true) = found.instructions.map (·.address) := by
  rw [statements_all, sites_map_ofInstruction, Match.unabsorbed_of_control_empty hcontrol]

theorem sites_announce (usage : Usage) (instructions : List Instruction) :
    sites (announce symbols usage instructions).2 = [] := by
  rw [sites, walkAll_announce, List.filterMap_eq_nil_iff]
  intro node hnode
  obtain ⟨_, _, rfl⟩ := (announce_spec symbols usage instructions).2 node hnode
  rfl

theorem mem_sites_record {found : Match} {block : Block} {base : Address}
    (hblocks : found.blocks = [block]) (hsubject : found.subject = some (.absolute base))
    (address : Address) :
    address ∈ sites (record symbols found) ↔ address ∈ found.instructions.map (·.address) := by
  have hbody := Node.sites_map_of_isStatement (recordStatement_isStatement symbols base)
    (recordStatement_address symbols base) block.body
  have hterminator : sites (block.terminator?.map (Statement.ofInstruction symbols)).toList
      = block.terminator?.toList.map (·.address) := by
    rw [Option.toList_map, sites_map_ofInstruction]
  have hall : found.instructions = block.body ++ block.terminator?.toList := by
    rw [Match.instructions, hblocks, Block.body_append_terminator?]
    simp [Block.instructionsOf]
  have hstart : block.start ∈ found.instructions.map (·.address) := by
    obtain ⟨i, hi, haddress⟩ := block.start_mem
    rw [hall, Block.body_append_terminator?, ← haddress]
    exact List.mem_map_of_mem hi
  rw [record, hsubject, hblocks]
  simp only [List.head?_cons]
  rw [sites_cons, hbody, hterminator, List.append_assoc, ← List.map_append, ← hall, List.mem_append]
  refine ⟨?_, Or.inr⟩
  rintro (haddress | haddress)
  · have : address = block.start := by simpa [Node.site?, NodeKind.carriesLabel] using haddress
    rwa [this]
  · exact haddress

/-! ### Loops -/

theorem shows_of_loop {found : Match} {address : Address}
    (hhides : ∀ i, found.hides i = (found.absorbs i && i.address != found.anchor))
    (hanchored : ∃ i ∈ found.instructions, i.address = found.anchor) :
    found.Shows address ↔
      address ∈ (found.unabsorbed found.instructions).map (·.address) ∨ address = found.anchor := by
  constructor
  · rintro ⟨i, hi, hvisible, rfl⟩
    rw [hhides, Bool.and_eq_false_iff] at hvisible
    rcases hvisible with habsorbs | hanchor
    · exact Or.inl (List.mem_map_of_mem (List.mem_filter.mpr ⟨hi, by rw [habsorbs]; rfl⟩))
    · exact Or.inr (by simpa using hanchor)
  · rintro (hown | rfl)
    · obtain ⟨i, hi, haddress⟩ := List.mem_map.mp hown
      refine ⟨i, (List.mem_filter.mp hi).1, ?_, haddress⟩
      rw [hhides, not_absorbs_of_mem_unabsorbed hi, Bool.false_and]
    · obtain ⟨i, hi, haddress⟩ := hanchored
      refine ⟨i, hi, ?_, haddress⟩
      simp [hhides, haddress]

/-- A loop after some statements and around others is the only site beside theirs. -/
private theorem mem_sites_around {before : List Node} {loop : Node} {own : List Instruction}
    {anchor address : Address} (hsite : loop.site? = some anchor)
    (hsites : address ∈ sites (before ++ loop.children) ↔ address ∈ own.map (·.address)) :
    address ∈ sites (before ++ [loop]) ↔ address ∈ own.map (·.address) ∨ address = anchor := by
  rw [← hsites, sites_append, sites_append, sites_singleton, hsite]
  simp only [Option.toList_some, List.mem_append, List.mem_singleton]
  tauto

theorem mem_sites_counted (hascending : Ascending found.instructions) (address : Address) :
    address ∈ sites (counted symbols found) ↔
      address ∈ (found.unabsorbed found.instructions).map (·.address) ∨ address = found.anchor := by
  refine mem_sites_around rfl ?_
  rw [statements_split symbols found hascending, sites_map_ofInstruction]

theorem mem_sites_bottomTested (hascending : Ascending found.instructions) (address : Address) :
    address ∈ sites (bottomTested symbols found) ↔
      address ∈ (found.unabsorbed found.instructions).map (·.address) ∨ address = found.anchor := by
  refine mem_sites_around rfl ?_
  rw [statements_split symbols found hascending, sites_map_ofInstruction]

theorem mem_sites_topTested {found : Match} (hascending : Ascending found.instructions)
    {header body : Block} (hblocks : found.blocks = [header, body]) (condition : List String)
    (address : Address) :
    address ∈ sites (topTested symbols found condition) ↔
      address ∈ (found.unabsorbed found.instructions).map (·.address) ∨ address = found.anchor := by
  have hheader :=
    statements_contains symbols found hascending (show header ∈ found.blocks by simp [hblocks])
  have hbody :=
    statements_contains symbols found hascending (show body ∈ found.blocks by simp [hblocks])
  have hall : found.instructions = header.instructions ++ body.instructions := by
    simp [Match.instructions, hblocks, Block.instructionsOf]
  rw [topTested, hblocks]
  simp only [hheader, hbody]
  refine mem_sites_around rfl ?_
  rw [sites_append, sites_append, sites_map_ofInstruction, sites_map_ofInstruction, hall,
    Match.unabsorbed_append, List.map_append, List.mem_append, List.mem_append, List.mem_append]
  tauto

/-! ### Tests -/

/-- The comparison of a test shows, and its branch is hidden behind it. -/
theorem shows_of_tested {found : Match} {address : Address}
    (hascending : Ascending found.instructions) (htested : found.Tested)
    (hhides : ∀ i, found.hides i = (found.absorbs i && i.endsBlock)) :
    found.Shows address ↔ address ∈ (found.unabsorbed found.instructions).map (·.address) ∨
      ∃ block ∈ found.blocks, ∃ test, block.test? = some test ∧ test.compare.address = address := by
  constructor
  · rintro ⟨i, hi, hvisible, rfl⟩
    rw [hhides, Bool.and_eq_false_iff] at hvisible
    cases habsorbs : found.absorbs i with
    | false => exact Or.inl (List.mem_map_of_mem (List.mem_filter.mpr ⟨hi, by rw [habsorbs]; rfl⟩))
    | true =>
      obtain ⟨block, hblock, test, htest, hcompare | hbranch⟩ := htested.absorbs_iff.mp habsorbs
      · exact Or.inr ⟨block, hblock, test, htest, hcompare⟩
      · have hcloses := Block.test?_closes htest
        have hmem : test.branch ∈ found.instructions :=
          Block.mem_instructionsOf.mpr ⟨block, hblock, hcloses.branch_mem⟩
        obtain rfl := hascending.eq_of_address_eq hmem hi hbranch
        rw [habsorbs, hcloses.branch_endsBlock] at hvisible
        simp at hvisible
  · rintro (hown | ⟨block, hblock, test, htest, rfl⟩)
    · obtain ⟨i, hi, haddress⟩ := List.mem_map.mp hown
      refine ⟨i, (List.mem_filter.mp hi).1, ?_, haddress⟩
      rw [hhides, not_absorbs_of_mem_unabsorbed hi, Bool.false_and]
    · have hcloses := Block.test?_closes htest
      refine ⟨test.compare, Block.mem_instructionsOf.mpr ⟨block, hblock, hcloses.compare_mem⟩, ?_,
        rfl⟩
      rw [hhides, hcloses.compare_not_endsBlock, Bool.and_false]

theorem mem_sites_conditionals (hascending : Ascending found.instructions) (address : Address) :
    address ∈ sites (conditionals symbols found) ↔
      address ∈ (found.unabsorbed found.instructions).map (·.address) ∨
      ∃ block ∈ found.blocks, ∃ test, block.test? = some test ∧ test.compare.address = address := by
  have hjump (block : Block) : address ∈ sites (block.test?.map (conditionalJump symbols)).toList ↔
      ∃ test, block.test? = some test ∧ test.compare.address = address := by
    cases block.test? with
    | none => simp [sites_nil]
    | some test =>
      have hsites : sites [conditionalJump symbols test] = [test.compare.address] := rfl
      rw [Option.map_some, Option.toList_some, hsites]
      simp [eq_comm]
  have hblock (block : Block) (h : block ∈ found.blocks) :
      address ∈ sites ((statements symbols found fun i => block.contains i.address)
          ++ (block.test?.map (conditionalJump symbols)).toList) ↔
        address ∈ (found.unabsorbed block.instructions).map (·.address) ∨
          ∃ test, block.test? = some test ∧ test.compare.address = address := by
    rw [sites_append, List.mem_append, hjump, statements_contains symbols found hascending h,
      sites_map_ofInstruction]
  rw [conditionals, Node.sites_flatMap, List.mem_flatMap, Match.instructions,
    Match.unabsorbed_instructionsOf, List.map_flatMap, List.mem_flatMap]
  constructor
  · rintro ⟨block, hmem, haddress⟩
    rcases (hblock block hmem).mp haddress with hown | htest
    · exact Or.inl ⟨block, hmem, hown⟩
    · exact Or.inr ⟨block, hmem, htest⟩
  · rintro (⟨block, hmem, hown⟩ | ⟨block, hmem, htest⟩)
    · exact ⟨block, hmem, (hblock block hmem).mpr (Or.inl hown)⟩
    · exact ⟨block, hmem, (hblock block hmem).mpr (Or.inr htest)⟩

theorem sites_dispatchCases (subject : String) (exit : Address) (tests : List Test) :
    sites (tests.map (dispatchCase symbols subject exit)) = tests.map (·.compare.address) := by
  rw [sites, walkAll_dispatchCases, List.filterMap_flatMap, List.map_eq_flatMap]
  refine List.flatMap_congr fun test _ => ?_
  obtain ⟨kind, value, hchildren, -⟩ := children_dispatchCase symbols subject exit test
  have haction : Node.site? { kind, value } = none := by simp [Node.site?]
  rw [hchildren, List.filterMap_cons_some (rfl : Node.site? _ = some test.compare.address),
    List.filterMap_cons_none haction, List.filterMap_nil]

theorem mem_sites_dispatch {found : Match} (hascending : Ascending found.instructions)
    (htested : found.Tested) (hpairs : ∀ block ∈ found.blocks.tail, block.instructions.length = 2)
    (address : Address) :
    address ∈ sites (dispatch symbols found) ↔
      address ∈ (found.unabsorbed found.instructions).map (·.address) ∨
      ∃ block ∈ found.blocks, ∃ test, block.test? = some test ∧ test.compare.address = address := by
  have hcases : address ∈ (found.blocks.filterMap Block.test?).map (·.compare.address) ↔
      ∃ block ∈ found.blocks, ∃ test, block.test? = some test ∧ test.compare.address = address := by
    simp only [List.mem_map, List.mem_filterMap]
    exact ⟨fun ⟨test, ⟨block, hblock, htest⟩, h⟩ => ⟨block, hblock, test, htest, h⟩,
      fun ⟨block, hblock, test, htest, h⟩ => ⟨test, ⟨block, hblock, htest⟩, h⟩⟩
  rw [← hcases]
  cases hblocks : found.blocks with
  | nil =>
    simp [dispatch, Match.instructions, hblocks, Block.instructionsOf, Match.unabsorbed, sites_nil]
  | cons first rest =>
    have hfirst : first ∈ found.blocks := by simp [hblocks]
    have hall := unabsorbed_of_pairs htested hblocks (by simpa [hblocks] using hpairs)
    obtain ⟨test, htest⟩ := htested.tests first hfirst
    rw [dispatch, hblocks]
    simp only [List.head?_cons, List.getLast?_cons, List.filterMap_cons, htest, Option.map_some,
      Option.getD_some]
    rw [sites_append, sites_singleton, statements_contains symbols found hascending hfirst,
      sites_dispatchCases, sites_map_ofInstruction, hall]
    simp [Node.site?, NodeKind.carriesLabel]

/-! ### Repeated code -/

theorem sites_unrolledBody (varying : List Variation) (usage : Usage)
    (pairs : List (Instruction × Nat)) :
    sites (unrolledBody symbols varying usage pairs).2 = pairs.map (·.1.address) := by
  induction pairs generalizing usage with
  | nil => exact sites_nil
  | cons pair rest ih =>
    obtain ⟨usage', statement, hstatement, haddress, _, hbody⟩ :=
      exists_unrolledBody_cons symbols varying usage pair.1 pair.2 rest
    rw [hbody, sites_cons, hstatement.leaf, hstatement.site?_eq, haddress, sites_nil, ih]
    rfl

theorem mem_sites_unrolled {found : Match} {first : Block} {rest : List Block}
    (hblocks : found.blocks = first :: rest) (usage : Usage) (address : Address) :
    address ∈ sites (unrolled symbols usage found).2 ↔ first.contains address = true := by
  have hmap : first.instructions.zipIdx.map (·.1.address) = first.instructions.map (·.address) := by
    rw [← Function.comp_def, ← List.map_map, List.zipIdx_map_fst]
  rw [unrolled, hblocks]
  simp only
  rw [sites_singleton, sites_unrolledBody, hmap, Block.contains_eq_true]
  change address ∈ [first.start] ++ first.instructions.map (·.address) ↔ _
  rw [List.mem_append, List.mem_singleton, List.mem_map]
  constructor
  · rintro (rfl | hown)
    · exact first.start_mem
    · exact hown
  · exact Or.inr

theorem mem_sites_template (usage : Usage) (address : Address) :
    address ∈ sites (template symbols usage found).2 ↔ ∃ block ∈ found.blocks,
      (block.start == address || block.terminator?.any (·.address == address)) = true := by
  have hcall (name : String) (varying : List Variation) (block : Block) (position : Nat) :
      address ∈ sites (templateCall symbols name varying block position) ↔
        (block.start == address || block.terminator?.any (·.address == address)) = true := by
    rw [templateCall, sites_cons, Option.toList_map, sites_map_ofInstruction]
    change address ∈ [block.start] ++ sites [] ++ block.terminator?.toList.map (·.address) ↔ _
    rw [sites_nil, List.append_nil, List.mem_append, List.mem_singleton, eq_comm, Bool.or_eq_true,
      beq_iff_eq, Option.any_eq_true]
    simp
  cases hblocks : found.blocks with
  | nil => simp [template, hblocks, sites_nil]
  | cons first rest =>
    rw [template, hblocks]
    simp only
    rw [Node.sites_flatMap, List.mem_flatMap]
    simp only [hcall]
    constructor
    · rintro ⟨⟨block, position⟩, hmem, h⟩
      exact ⟨block, List.fst_mem_of_mem_zipIdx hmem, h⟩
    · rintro ⟨block, hmem, h⟩
      obtain ⟨position, hposition⟩ := List.getElem?_of_mem hmem
      exact ⟨(block, position), List.mem_zipIdx_iff_getElem?.mpr hposition, h⟩

theorem shows_unrolled {found : Match} {first : Block} {rest : List Block}
    (hshape : found.shape = .unrolled) (hblocks : found.blocks = first :: rest)
    (address : Address) : found.Shows address ↔ first.contains address = true := by
  have hhides (i : Instruction) : found.hides i = !first.contains i.address := by
    rw [Match.hides, hshape, hblocks]
    rfl
  constructor
  · rintro ⟨i, _, hvisible, rfl⟩
    simpa [hhides] using hvisible
  · intro hcontains
    obtain ⟨i, hi, rfl⟩ := Block.contains_eq_true.mp hcontains
    exact ⟨i, Block.mem_instructionsOf.mpr ⟨first, by simp [hblocks], hi⟩,
      by simp [hhides, hcontains], rfl⟩

theorem shows_template {found : Match} (hshape : found.shape = .template) (address : Address) :
    found.Shows address ↔ ∃ block ∈ found.blocks,
      (block.start == address || block.terminator?.any (·.address == address)) = true := by
  have hhides (i : Instruction) : found.hides i = false ↔ ∃ block ∈ found.blocks,
      (block.start == i.address || block.terminator?.any (·.address == i.address)) = true := by
    rw [Match.hides, hshape]
    simp only [Bool.not_eq_false', List.any_eq_true]
  constructor
  · rintro ⟨i, _, hvisible, rfl⟩
    exact (hhides i).mp hvisible
  · rintro ⟨block, hblock, h⟩
    obtain ⟨i, hi, rfl⟩ : ∃ i ∈ block.instructions, i.address = address := by
      rcases Bool.or_eq_true_iff.mp h with hstart | hterminator
      · rw [← eq_of_beq hstart]
        exact block.start_mem
      · rw [Option.any_eq_true] at hterminator
        obtain ⟨i, hi, haddress⟩ := hterminator
        exact ⟨i, Block.terminator?_mem hi, eq_of_beq haddress⟩
    exact ⟨i, Block.mem_instructionsOf.mpr ⟨block, hblock, hi⟩,
      (hhides i).mpr ⟨block, hblock, h⟩, rfl⟩

/-! ### All shapes -/

/-- The sites of the nodes of a match are the addresses of the instructions that it does not
hide. -/
theorem mem_sites_structured {found : Match} (hascending : Ascending found.instructions)
    (hsound : found.Sound) (hanchored : ∃ i ∈ found.instructions, i.address = found.anchor)
    (usage : Usage) (address : Address) :
    address ∈ sites (structured symbols usage found).2 ↔ found.Shows address := by
  have hplain (hcontrol : found.control = ∅) (hhides : ∀ i, found.hides i = false) :
      address ∈ sites (statements symbols found fun _ => true) ↔ found.Shows address := by
    rw [sites_statements_all symbols hcontrol, shows_of_hides_false fun i _ => hhides i]
  rw [structured]
  cases hshape : found.shape <;> simp only [hshape, Match.Sound] at hsound ⊢
  case countUp | countDown =>
    rw [mem_sites_counted symbols found hascending,
      shows_of_loop (fun i => by rw [Match.hides, hshape]) hanchored]
  case whileLoop =>
    obtain ⟨header, body, hblocks⟩ := hsound
    rw [mem_sites_topTested symbols hascending hblocks,
      shows_of_loop (fun i => by rw [Match.hides, hshape]) hanchored]
  case untilLoop =>
    rw [shows_of_loop (fun i => by rw [Match.hides, hshape]) hanchored, untilLoop]
    rcases hsound with ⟨header, body, hblocks⟩ | ⟨block, hblocks⟩
    · rw [if_pos (by simp [hblocks]), mem_sites_topTested symbols hascending hblocks]
    · rw [if_neg (by simp [hblocks]), mem_sites_bottomTested symbols found hascending]
  case conditional =>
    rw [mem_sites_conditionals symbols found hascending,
      shows_of_tested hascending hsound fun i => by rw [Match.hides, hshape]]
  case conditionalChain =>
    rw [sites_singleton]
    change address ∈ [] ++ sites (conditionals symbols found) ↔ _
    rw [List.nil_append, mem_sites_conditionals symbols found hascending,
      shows_of_tested hascending hsound fun i => by rw [Match.hides, hshape]]
  case dispatch =>
    rw [mem_sites_dispatch symbols hascending hsound.1 hsound.2,
      shows_of_tested hascending hsound.1 fun i => by rw [Match.hides, hshape]]
  case record =>
    obtain ⟨_, block, base, hblocks, hsubject, _⟩ := hsound
    rw [mem_sites_record symbols hblocks hsubject,
      shows_of_hides_false fun i _ => by rw [Match.hides, hshape]]
  case unrolled =>
    cases hblocks : found.blocks with
    | nil =>
      obtain ⟨i, hi, _⟩ := hanchored
      simp [Match.instructions, hblocks, Block.instructionsOf] at hi
    | cons first rest => rw [mem_sites_unrolled symbols hblocks, shows_unrolled hshape hblocks]
  case template => rw [mem_sites_template, shows_template hshape]
  case globalVariable =>
    rw [sites_append, sites_announce, List.nil_append]
    exact hplain hsound fun i => by rw [Match.hides, hshape]
  case bitField | pointer | timer | inputHandler | interrupt =>
    rw [sites_singleton]
    exact hplain hsound fun i => by rw [Match.hides, hshape]
  case call | jump | plain => exact hplain hsound fun i => by rw [Match.hides, hshape]

end Routine

end Lift6502
