import Lift6502.Proofs.Flow.Cuts
import Lift6502.Proofs.Routine.Transfers

/-!
# Calls and returns are carried over

Every return of a listing has its node in the tree, and every call of the ROM has one as well, of
its own or in the code that stands for all that repeat it. Together with where such nodes come from,
this says what a tree calls and where it returns without looking at the tree.
-/

namespace Lift6502

namespace Block

/-- Whether only the last instruction of a block may end it. -/
def Straight (block : Block) : Prop := ∀ i ∈ block.instructions.dropLast, i.endsBlock = false

variable {block : Block} (h : block.Straight)

include h

theorem Straight.terminator?_eq {instruction : Instruction}
    (hmem : instruction ∈ block.instructions) (hends : instruction.endsBlock = true) :
    block.terminator? = some instruction := by
  rw [← block.dropLast_append_last, List.mem_append, List.mem_singleton] at hmem
  rcases hmem with hinner | rfl
  · rw [h instruction hinner] at hends
    cases hends
  · exact terminator?_eq_some.mpr ⟨hends, rfl⟩

theorem Straight.endsBlock_of_mem_body {instruction : Instruction}
    (hmem : instruction ∈ block.body) : instruction.endsBlock = false := by
  cases hends : instruction.endsBlock with
  | false => rfl
  | true =>
    have hinside : instruction ∈ block.instructions := by
      rw [← block.body_append_terminator?]
      exact List.mem_append_left _ hmem
    obtain ⟨hlast, -⟩ := terminator?_eq_some.mp (h.terminator?_eq hinside hends)
    rw [body, if_pos hlast] at hmem
    rw [← h instruction hmem, hends]

end Block

theorem Instruction.endsBlock_of_leaves {instruction : Instruction}
    (h : instruction.leaves = true) : instruction.endsBlock = true := by
  simp only [leaves, Bool.and_eq_true] at h
  rw [Operation.endsBlock, Mnemonic.endsBlock, h.1, Bool.or_true, Bool.true_or]

/-- What trees and the templates that were cut out of them do with the calls and returns of some
instructions. -/
structure CarriesOver (symbols : SymbolTable) (instructions : List Instruction)
    (nodes templates : List Node) : Prop where
  traced : Node.Traced symbols instructions nodes
  /-- Every return has its node. -/
  leaves : ∀ i ∈ instructions, i.leaves = true →
    Statement.ofInstruction symbols i ∈ Node.walkAll nodes
  /-- Templates do not return, and where they call the ROM an instruction does. -/
  cut : ∀ node ∈ Node.walkAll templates, node.kind.isTransfer = true →
    node.kind = .romCall ∧ ∃ i ∈ instructions, node.alone
      = { Statement.ofInstruction symbols i with address := none }
  /-- Every call of the ROM has a node, of its own or for all that repeat it. -/
  calls : ∀ i ∈ instructions, ∀ target, i.callTarget? = some target →
    symbols.kind? target = some .kernalCall →
    ∃ node ∈ Node.walkAll (nodes ++ templates), node.kind = .romCall ∧
    node.value = symbols.codeName target ∧
      node.params = [Text.decimal target.toNat]

namespace CarriesOver

variable {symbols : SymbolTable}

theorem nothing : CarriesOver symbols [] [] [] := by
  refine ⟨Node.Traced.nil, List.forall_mem_nil _, ?_, List.forall_mem_nil _⟩
  rw [Node.walkAll_nil]
  exact List.forall_mem_nil _

theorem append {front back : List Instruction} {nodes others templates more : List Node}
    (hfront : CarriesOver symbols front nodes templates)
    (hback : CarriesOver symbols back others more) :
    CarriesOver symbols (front ++ back) (nodes ++ others) (templates ++ more) := by
  refine ⟨Node.Traced.append ?_ ?_, ?_, ?_, ?_⟩
  · intro node hnode htransfer
    obtain ⟨i, hi, hstatement⟩ := hfront.traced node hnode htransfer
    exact ⟨i, List.mem_append_left back hi, hstatement⟩
  · intro node hnode htransfer
    obtain ⟨i, hi, hstatement⟩ := hback.traced node hnode htransfer
    exact ⟨i, List.mem_append_right front hi, hstatement⟩
  · intro i hi hleaves
    rw [Node.walkAll_append, List.mem_append]
    rcases List.mem_append.mp hi with hi | hi
    · exact Or.inl (hfront.leaves i hi hleaves)
    · exact Or.inr (hback.leaves i hi hleaves)
  · intro node hnode htransfer
    rw [Node.walkAll_append, List.mem_append] at hnode
    rcases hnode with hnode | hnode
    · obtain ⟨hkind, i, hi, hstatement⟩ := hfront.cut node hnode htransfer
      exact ⟨hkind, i, List.mem_append_left back hi, hstatement⟩
    · obtain ⟨hkind, i, hi, hstatement⟩ := hback.cut node hnode htransfer
      exact ⟨hkind, i, List.mem_append_right front hi, hstatement⟩
  · intro i hi target htarget hkind
    simp only [Node.walkAll_append, List.mem_append]
    rcases List.mem_append.mp hi with hi | hi
    · obtain ⟨node, hnode, hcall⟩ := hfront.calls i hi target htarget hkind
      rw [Node.walkAll_append, List.mem_append] at hnode
      exact ⟨node, hnode.imp Or.inl Or.inl, hcall⟩
    · obtain ⟨node, hnode, hcall⟩ := hback.calls i hi target htarget hkind
      rw [Node.walkAll_append, List.mem_append] at hnode
      exact ⟨node, hnode.imp Or.inr Or.inr, hcall⟩

end CarriesOver

namespace Routine

variable {symbols : SymbolTable} {found : Match}

theorem statementFor_of_isTransfer {instruction : Instruction}
    (h : instruction.mnemonic.isTransfer = true) :
    statementFor symbols found instruction = Statement.ofInstruction symbols instruction := by
  have hstored : Shape.storedPlace? instruction = none := by
    unfold Shape.storedPlace?
    split
    · rename_i hmnemonic _
      rw [hmnemonic] at h
      cases h
    · rfl
  unfold statementFor
  split
  · rw [recordStatement, hstored]
  · rfl

/-- Where a shape writes all of its code, calls and returns have the statements of their own. -/
theorem mem_walkAll_structured (hascending : Ascending found.instructions) (hsound : found.Sound)
    (htransparent : found.Transparent) (hunrolled : found.shape ≠ .unrolled)
    (htemplate : found.shape ≠ .template) (usage : Usage) {instruction : Instruction}
    (hmem : instruction ∈ found.instructions) (htransfer : instruction.mnemonic.isTransfer = true) :
    Statement.ofInstruction symbols instruction
      ∈ Node.walkAll (structured symbols usage found).2 := by
  have hspared : found.absorbs instruction = false := by
    cases habsorbs : found.absorbs instruction with
    | false => rfl
    | true => rw [← htransparent.isTransfer_of_absorbs hascending hmem habsorbs, htransfer]
  have hstatement {part : List Instruction} (hpart : instruction ∈ part) :
      Statement.ofInstruction symbols instruction
        ∈ (found.unabsorbed part).map (statementFor symbols found) := by
    rw [← statementFor_of_isTransfer htransfer]
    exact List.mem_map_of_mem (List.mem_filter.mpr ⟨hpart, by simp [hspared]⟩)
  cases htop : found.isTopTested with
  | false =>
    have hown := own_structured symbols hascending hsound hunrolled htemplate htop usage
    exact List.mem_of_mem_filter (hown ▸ hstatement hmem)
  | true =>
    obtain ⟨header, body, loop, hblocks, _, hnodes, hchildren⟩ :=
      structured_of_isTopTested symbols hascending htop usage
    rw [hnodes, Node.mem_walkAll]
    rw [Match.instructions, hblocks] at hmem
    obtain ⟨block, hblock, hinside⟩ := Block.mem_instructionsOf.mp hmem
    rcases List.mem_pair.mp hblock with rfl | rfl
    · exact ⟨_, List.mem_append_left _ (hstatement hinside), Node.mem_walk_self _⟩
    · refine ⟨loop, List.mem_append_right _ (List.mem_singleton_self loop), ?_⟩
      refine Node.mem_walk_of_mem_children (Node.mem_walk_self loop) ?_
      rw [hchildren]
      exact List.mem_append_left _ (hstatement hinside)

theorem templates_structured (h : found.shape ≠ .template) (usage : Usage) :
    (structured symbols usage found).1.templates = usage.templates := by
  rw [structured]
  cases hshape : found.shape
  case unrolled =>
    simp only [unrolled]
    split
    · rfl
    · exact (unrolledBody_isStatement symbols _ usage _).2
  case template => exact absurd hshape h
  case globalVariable => exact (announce_fresh symbols usage _).2
  all_goals rfl

theorem carriesOver_of_written (hascending : Ascending found.instructions) (hsound : found.Sound)
    (htransparent : found.Transparent) (hunrolled : found.shape ≠ .unrolled)
    (htemplate : found.shape ≠ .template) (usage : Usage) :
    CarriesOver symbols found.instructions (structured symbols usage found).2 [] := by
  have hmem {i : Instruction} (hi : i ∈ found.instructions)
      (htransfer : i.mnemonic.isTransfer = true) :
      Statement.ofInstruction symbols i ∈ Node.walkAll (structured symbols usage found).2 :=
    mem_walkAll_structured hascending hsound htransparent hunrolled htemplate usage hi htransfer
  refine ⟨traced_structured symbols found usage, fun i hi hleaves => hmem hi ?_, ?_,
    fun i hi target htarget hkind => ?_⟩
  · simp only [Instruction.leaves, Bool.and_eq_true] at hleaves
    rw [Mnemonic.isTransfer, hleaves.1, Bool.or_true]
  · rw [Node.walkAll_nil]
    exact List.forall_mem_nil _
  · have hcall : i.mnemonic.isTransfer = true := by
      rw [(Instruction.callTarget?_eq_some.mp htarget).1]
      rfl
    rw [List.append_nil]
    exact ⟨_, hmem hi hcall, Statement.romCall_of_callTarget? htarget hkind⟩

/-- An unrolled loop has no return in it, and its calls stand in the first of its blocks. -/
theorem carriesOver_unrolled (hrepeated : found.Repeated)
    (hstraight : ∀ block ∈ found.blocks, block.Straight) (hshape : found.shape = .unrolled)
    (usage : Usage) :
    CarriesOver symbols found.instructions (structured symbols usage found).2 [] := by
  refine ⟨traced_structured symbols found usage, fun i hi hleaves => ?_, ?_,
    fun i hi target htarget hkind => ?_⟩
  · obtain ⟨block, hblock, hinside⟩ := Block.mem_instructionsOf.mp hi
    have hlast :=
      (hstraight block hblock).terminator?_eq hinside (Instruction.endsBlock_of_leaves hleaves)
    have hthrough := hrepeated.through hshape block hblock
    simp only [Shape.runsThrough, hlast] at hthrough
    simp only [Instruction.leaves, Bool.and_eq_true] at hleaves
    rcases Mnemonic.isReturn_eq_true.mp hleaves.1 with hmnemonic | hmnemonic
    · rw [hmnemonic] at hthrough
      cases hthrough
    · rw [hmnemonic] at hthrough
      cases hthrough
  · rw [Node.walkAll_nil]
    exact List.forall_mem_nil _
  · have hflow : i.mnemonic.isControlFlow = true := by
      rw [(Instruction.callTarget?_eq_some.mp htarget).1]
      rfl
    obtain ⟨first, rest, hblocks, pair, hpair, hsame⟩ := hrepeated.exists_toOperation hi hflow
    obtain ⟨node, hnode, hkeeps⟩ := exists_right_of_forall₂
      (unrolledBody_keeps symbols first rest usage (List.Subset.refl _)) hpair
    have hcall : pair.1.callTarget? = some target := by
      rw [hsame]
      exact htarget
    have hnode : node ∈ Node.walkAll (structured symbols usage found).2 := by
      rw [structured, hshape]
      simp only [unrolled, hblocks]
      refine Node.mem_walkAll.mpr ⟨_, List.mem_singleton_self _, ?_⟩
      exact Node.mem_walk_of_mem_children (Node.mem_walk_self _) hnode
    rw [List.append_nil]
    exact ⟨node, hnode, hkeeps.romCall hcall hkind⟩

/-- The template that is cut out of repeated blocks. -/
def cutOut (symbols : SymbolTable) (first : Block) (rest : List Block) : Node :=
  { kind := .function
    value := templateName first.start
    params := (List.range ((Block.variations? (first :: rest)).getD []).length).map parameterName
    children := first.body.zipIdx.map fun pair =>
      templateStatement symbols ((Block.variations? (first :: rest)).getD []) pair.1 pair.2 }

theorem structured_template {first : Block} {rest : List Block} (hshape : found.shape = .template)
    (hblocks : found.blocks = first :: rest) (usage : Usage) :
    structured symbols usage found
      = ({ usage with templates := usage.templates ++ [cutOut symbols first rest] },
        (first :: rest).zipIdx.flatMap fun pair =>
          templateCall symbols (templateName first.start)
            ((Block.variations? (first :: rest)).getD []) pair.1 pair.2) := by
  rw [structured, hshape]
  simp only [template, hblocks]
  rfl

theorem zipIdx_body_subset (block : Block) : block.body.zipIdx ⊆ block.instructions.zipIdx := by
  rw [← block.body_append_terminator?, List.zipIdx_append]
  exact List.subset_append_left _ _

theorem mem_zipIdx_body {block : Block} {pair : Instruction × Nat}
    (hpair : pair ∈ block.instructions.zipIdx) (h : pair.1.endsBlock = false) :
    pair ∈ block.body.zipIdx := by
  rw [← block.body_append_terminator?, List.zipIdx_append, List.mem_append] at hpair
  rcases hpair with hbody | hlast
  · exact hbody
  · have hlast := List.fst_mem_of_mem_zipIdx hlast
    obtain ⟨hends, heq⟩ := Block.terminator?_eq_some.mp (Option.mem_toList.mp hlast)
    rw [← heq, hends] at h
    cases h

theorem isTemplate_cutOut (symbols : SymbolTable) (first : Block) (rest : List Block) :
    (cutOut symbols first rest).IsTemplate :=
  isTemplate_template symbols _ _ _ _

/-- What calls the ROM or returns in a template is the statement of an instruction, without its
address. -/
theorem exists_of_mem_walk_cutOut {first : Block} {rest : List Block} {node : Node}
    (hnode : node ∈ (cutOut symbols first rest).walk) (htransfer : node.kind.isTransfer = true) :
    ∃ i ∈ first.body, (Statement.ofInstruction symbols i).kind = node.kind ∧
      node.alone = { Statement.ofInstruction symbols i with address := none } := by
  rw [Node.walk_eq, Node.walkAll_of_leaves fun child hchild =>
    ((isTemplate_cutOut symbols first rest).lines child hchild).1.leaf] at hnode
  rcases List.mem_cons.mp hnode with rfl | hchild
  · cases htransfer
  · obtain ⟨pair, hpair, rfl⟩ := List.mem_map.mp hchild
    obtain ⟨kept, hkeeps, heq⟩ :=
      templateStatement_keeps symbols first rest (zipIdx_body_subset first hpair)
    rw [heq] at htransfer ⊢
    refine ⟨pair.1, List.fst_mem_of_mem_zipIdx hpair, hkeeps.kind.symm, ?_⟩
    rw [hkeeps.transfer htransfer]
    exact congrArg (fun statement : Node => { statement with address := none })
      (Statement.alone_ofInstruction symbols pair.1)

section Template

variable {first : Block} {rest : List Block} (hblocks : found.blocks = first :: rest)

include hblocks

theorem leaves_template (hstraight : ∀ block ∈ found.blocks, block.Straight)
    (hshape : found.shape = .template) (usage : Usage) {i : Instruction}
    (hi : i ∈ found.instructions) (hleaves : i.leaves = true) :
    Statement.ofInstruction symbols i ∈ Node.walkAll (structured symbols usage found).2 := by
  obtain ⟨block, hblock, hinside⟩ := Block.mem_instructionsOf.mp hi
  have hlast :=
    (hstraight block hblock).terminator?_eq hinside (Instruction.endsBlock_of_leaves hleaves)
  obtain ⟨position, hposition⟩ := List.getElem?_of_mem (hblocks ▸ hblock)
  rw [structured_template hshape hblocks, Node.mem_walkAll]
  refine ⟨_,
    List.mem_flatMap.mpr ⟨(block, position), List.mk_mem_zipIdx_iff_getElem?.mpr hposition, ?_⟩,
    Node.mem_walk_self _⟩
  rw [templateCall, hlast]
  exact List.mem_cons_of_mem _ (List.mem_singleton_self _)

theorem cut_template (hstraight : ∀ block ∈ found.blocks, block.Straight) {node : Node}
    (hnode : node ∈ (cutOut symbols first rest).walk) (htransfer : node.kind.isTransfer = true) :
    node.kind = .romCall ∧
      ∃ i ∈ found.instructions, node.alone
        = { Statement.ofInstruction symbols i with address := none } := by
  obtain ⟨i, hi, hkind, hstatement⟩ := exists_of_mem_walk_cutOut hnode htransfer
  have hfirst : first ∈ found.blocks := by simp [hblocks]
  have hinside : i ∈ found.instructions := by
    refine Block.mem_instructionsOf.mpr ⟨first, hfirst, ?_⟩
    rw [← first.body_append_terminator?]
    exact List.mem_append_left _ hi
  refine ⟨?_, i, hinside, hstatement⟩
  rcases Statement.transfer_cases (hkind ▸ htransfer) with ⟨target, htarget, hrom⟩ | hleaves
  · exact hkind.symm.trans (Statement.romCall_of_callTarget? htarget hrom).1
  · -- A return ends its block, and the body of a block is what stands in front of its end.
    have hends := (hstraight first hfirst).endsBlock_of_mem_body hi
    rw [Instruction.endsBlock_of_leaves hleaves] at hends
    cases hends

theorem calls_template (hrepeated : found.Repeated) {i : Instruction} (hi : i ∈ found.instructions)
    {target : Address} (htarget : i.callTarget? = some target)
    (hrom : symbols.kind? target = some .kernalCall) :
    ∃ node ∈ (cutOut symbols first rest).walk, node.kind = .romCall ∧
      node.value = symbols.codeName target ∧
      node.params = [Text.decimal target.toNat] := by
  have hmnemonic := (Instruction.callTarget?_eq_some.mp htarget).1
  obtain ⟨other, others, hothers, pair, hpair, hsame⟩ :=
    hrepeated.exists_toOperation hi (by rw [hmnemonic]; rfl)
  obtain ⟨rfl, rfl⟩ := List.cons.inj (hothers.symm.trans hblocks)
  have hcall : pair.1.callTarget? = some target := by
    rw [hsame]
    exact htarget
  have hbody : pair ∈ other.body.zipIdx := by
    refine mem_zipIdx_body hpair ?_
    rw [Operation.endsBlock, (Instruction.callTarget?_eq_some.mp hcall).1]
    rfl
  obtain ⟨kept, hkeeps, heq⟩ := templateStatement_keeps symbols other others hpair
  refine ⟨{ kept with address := none }, ?_, hkeeps.romCall hcall hrom⟩
  refine Node.mem_walk_of_mem_children (Node.mem_walk_self _) ?_
  rw [← heq]
  exact List.mem_map.mpr ⟨pair, hbody, rfl⟩

/-- A template keeps the calls of the first block, and the returns stay behind the calls of the
template. -/
theorem carriesOver_template (hrepeated : found.Repeated)
    (hstraight : ∀ block ∈ found.blocks, block.Straight) (hshape : found.shape = .template)
    (usage : Usage) :
    CarriesOver symbols found.instructions
      (structured symbols usage found).2 [cutOut symbols first rest] := by
  have hcut : Node.walkAll [cutOut symbols first rest] = (cutOut symbols first rest).walk := by
    rw [Node.walkAll_cons, Node.walkAll_nil, List.append_nil]
  refine ⟨traced_structured symbols found usage,
    fun i hi => leaves_template hblocks hstraight hshape usage hi, fun node hnode =>
      cut_template hblocks hstraight (hcut ▸ hnode), fun i hi target htarget hrom => ?_⟩
  obtain ⟨node, hnode, hcall⟩ := calls_template hblocks hrepeated hi htarget hrom
  refine ⟨node, ?_, hcall⟩
  rw [Node.walkAll_append, hcut]
  exact List.mem_append_right _ hnode

end Template

/-- Whatever a match is, the code for it and the templates that it adds carry its calls and returns
over. -/
theorem carriesOver_structured (hascending : Ascending found.instructions) (hsound : found.Sound)
    (htransparent : found.Transparent) (hstraight : ∀ block ∈ found.blocks, block.Straight)
    (usage : Usage) :
    ∃ fresh, (structured symbols usage found).1.templates = usage.templates ++ fresh ∧
      CarriesOver symbols found.instructions (structured symbols usage found).2 fresh := by
  by_cases htemplate : found.shape = .template
  · have hrepeated := htransparent.repeated (Or.inr htemplate)
    obtain ⟨first, rest, hblocks, _⟩ := hrepeated.alike
    refine ⟨[cutOut symbols first rest], ?_,
      carriesOver_template hblocks hrepeated hstraight htemplate usage⟩
    rw [structured_template htemplate hblocks]
  · refine ⟨[], by rw [templates_structured htemplate, List.append_nil], ?_⟩
    by_cases hunrolled : found.shape = .unrolled
    · exact carriesOver_unrolled (htransparent.repeated (Or.inl hunrolled)) hstraight
        hunrolled usage
    · exact carriesOver_of_written hascending hsound htransparent hunrolled htemplate usage

theorem carriesOver_codeFor {matched : List Match} (usage : Usage)
    (h : ∀ found ∈ matched, ∀ usage, ∃ fresh, (structured symbols usage found).1.templates
      = usage.templates ++ fresh ∧
      CarriesOver symbols found.instructions (structured symbols usage found).2 fresh) :
    ∃ fresh, (codeFor symbols usage matched).1.templates = usage.templates ++ fresh ∧
      CarriesOver symbols (matched.flatMap Match.instructions) (codeFor symbols usage matched).2
        fresh := by
  induction matched generalizing usage with
  | nil => exact ⟨[], (List.append_nil _).symm, CarriesOver.nothing⟩
  | cons found others ih =>
    obtain ⟨hfound, hothers⟩ := List.forall_mem_cons.mp h
    obtain ⟨fresh, htemplates, hcarries⟩ :=
      hfound (found.instructions.foldl (Usage.note symbols) usage)
    obtain ⟨more, hmore, hrest⟩ :=
      ih (structured symbols (found.instructions.foldl (Usage.note symbols) usage) found).1 hothers
    refine ⟨fresh ++ more, ?_, hcarries.append hrest⟩
    rw [codeFor]
    simp only
    rw [hmore, htemplates, templates_foldl_note, List.append_assoc]

/-- In ascending code the routine that is built from straight blocks carries their calls and returns
over. -/
theorem carriesOver_build (symbols : SymbolTable) {blocks : List Block}
    (hascending : Ascending (Block.instructionsOf blocks))
    (hstraight : ∀ block ∈ blocks, block.Straight) (usage : Usage) :
    ∃ fresh, (build symbols usage blocks).1.templates = usage.templates ++ fresh ∧
      CarriesOver symbols (Block.instructionsOf blocks) (build symbols usage blocks).2 fresh := by
  rw [build_eq_codeFor, ← flatMap_instructions_shapes symbols blocks]
  refine carriesOver_codeFor usage fun found hfound usage => ?_
  obtain ⟨block, rest, hrecognised⟩ := exists_recognise_of_mem_shapes hfound
  have htransparent : found.Transparent := hrecognised ▸ Shape.recognise_transparent symbols
    (block :: rest)
  refine carriesOver_structured (ascending_of_mem_shapes hascending hfound)
    (sound_of_mem_shapes hfound) htransparent
    (fun block hblock => hstraight block ?_) usage
  rw [← flatMap_blocks_shapes symbols blocks]
  exact List.mem_flatMap.mpr ⟨found, hfound, hblock⟩

end Routine

end Lift6502
