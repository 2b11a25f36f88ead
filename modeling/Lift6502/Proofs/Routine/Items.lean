import Lift6502.Proofs.Routine.Accounting
import Lift6502.Proofs.Routine.Placement

/-!
# What trees are made of

The trees that are built are shallow. A routine holds lines, loops and groups of lines, chains of
conditionals, and switches; a loop or a group holds lines only, and a case holds the one jump that
it leads to. Dialects rely on that shape: what stands in a switch is a case, and where a routine
could fall off its end there is always something to write.
-/

namespace Lift6502

/-- Whether nodes of a kind are written as one line. -/
def NodeKind.isLine (kind : NodeKind) : Bool :=
  kind.isStatement || kind == .ifGoto || kind == .globalVar

/-- Whether nodes of a kind hold lines, and write something of their own around them. -/
def NodeKind.isGroup : NodeKind → Bool
  | forLoop | whileLoop | doUntil | structDef | block => true
  | _ => false

namespace Node

structure IsLine (node : Node) : Prop where
  kind : node.kind.isLine = true
  leaf : node.children = []

structure IsCase (node : Node) : Prop where
  kind : node.kind = .case
  params : ∃ subject constant, node.params = [subject, constant]
  action : ∃ action, node.children = [action] ∧ action.children = [] ∧
    (action.kind = .goto ∨ action.kind = .exitSwitch)

/-- What a routine may hold. -/
inductive IsItem (node : Node) : Prop where
  | line (h : node.IsLine)
  | group (hkind : node.kind.isGroup = true) (hchildren : ∀ child ∈ node.children, child.IsLine)
  | chain (hkind : node.kind = .nestedIf) (hnonempty : node.children ≠ [])
    (hchildren : ∀ child ∈ node.children, child.IsLine)
  | switch (hkind : node.kind = .switch) (hnonempty : node.children ≠ [])
    (hchildren : ∀ child ∈ node.children, child.IsCase)

structure IsRoutine (node : Node) : Prop where
  kind : node.kind = .function
  items : ∀ child ∈ node.children, child.IsItem

structure IsTree (node : Node) : Prop where
  kind : node.kind = .program
  routines : ∀ child ∈ node.children, child.IsRoutine

/-- A routine that was cut out of repeated code: its lines have no addresses, so that no label is
put on them. -/
structure IsTemplate (node : Node) : Prop where
  kind : node.kind = .function
  unlabelled : node.label = none
  lines : ∀ child ∈ node.children, child.IsLine ∧ child.address = none ∧ child.label = none

theorem IsStatement.isLine {node : Node} (h : node.IsStatement) : node.IsLine :=
  ⟨by rw [NodeKind.isLine, h.kind]; rfl, h.leaf⟩

theorem IsTemplate.isRoutine {node : Node} (h : node.IsTemplate) : node.IsRoutine :=
  ⟨h.kind, fun child hchild => .line (h.lines child hchild).1⟩

/-! ### Names do not matter -/

section Bare

variable {node other : Node}

private theorem kind_of_bare (h : node.bare = other.bare) : node.kind = other.kind := by
  simpa using congrArg kind h

private theorem children_of_bare (h : node.bare = other.bare) :
    node.children.map bare = other.children.map bare := by
  simpa using congrArg children h

private theorem children_ne_nil_of_bare (h : node.bare = other.bare)
    (hnonempty : node.children ≠ []) : other.children ≠ [] := by
  intro hnil
  have hchildren := children_of_bare h
  rw [hnil, List.map_nil, List.map_eq_nil_iff] at hchildren
  exact hnonempty hchildren

private theorem forall_children_of_bare {P : Node → Prop}
    (hP : ∀ {child same : Node}, child.bare = same.bare → P child → P same)
    (h : node.bare = other.bare) (hall : ∀ child ∈ node.children, P child) :
    ∀ child ∈ other.children, P child := by
  intro child hchild
  have hmem : child.bare ∈ node.children.map bare := by
    rw [children_of_bare h]
    exact List.mem_map_of_mem hchild
  obtain ⟨same, hsame, hbare⟩ := List.mem_map.mp hmem
  exact hP hbare (hall same hsame)

theorem IsLine.of_bare (h : node.bare = other.bare) (hnode : node.IsLine) : other.IsLine := by
  refine ⟨kind_of_bare h ▸ hnode.kind, ?_⟩
  simpa [hnode.leaf, eq_comm] using children_of_bare h

theorem IsCase.of_bare (h : node.bare = other.bare) (hnode : node.IsCase) : other.IsCase := by
  obtain ⟨action, hchildren, hleaf, haction⟩ := hnode.action
  have hsame := children_of_bare h
  rw [hchildren, List.map_singleton, eq_comm, List.map_eq_singleton_iff] at hsame
  obtain ⟨child, hchild, hbare⟩ := hsame
  have hparams : node.params = other.params := by simpa using congrArg Node.params h
  refine ⟨kind_of_bare h ▸ hnode.kind, hparams ▸ hnode.params, child, hchild, ?_,
    kind_of_bare hbare ▸ haction⟩
  simpa [hleaf] using children_of_bare hbare

theorem IsItem.of_bare (h : node.bare = other.bare) (hnode : node.IsItem) : other.IsItem := by
  have hkind := kind_of_bare h
  cases hnode with
  | line hline => exact .line (hline.of_bare h)
  | group hgroup hchildren =>
    exact .group (hkind ▸ hgroup) (forall_children_of_bare IsLine.of_bare h hchildren)
  | chain hchain hnonempty hchildren =>
    exact .chain (hkind ▸ hchain) (children_ne_nil_of_bare h hnonempty)
      (forall_children_of_bare IsLine.of_bare h hchildren)
  | switch hswitch hnonempty hchildren =>
    exact .switch (hkind ▸ hswitch) (children_ne_nil_of_bare h hnonempty)
      (forall_children_of_bare IsCase.of_bare h hchildren)

theorem IsRoutine.of_bare (h : node.bare = other.bare) (hnode : node.IsRoutine) : other.IsRoutine :=
  ⟨kind_of_bare h ▸ hnode.kind, forall_children_of_bare IsItem.of_bare h hnode.items⟩

theorem IsTree.of_bare (h : node.bare = other.bare) (hnode : node.IsTree) : other.IsTree :=
  ⟨kind_of_bare h ▸ hnode.kind, forall_children_of_bare IsRoutine.of_bare h hnode.routines⟩

end Bare

/-! ### Nodes without labels -/

theorem labels_append (left right : List Node) :
    labels (left ++ right) = labels left ++ labels right := by
  rw [labels, walkAll_append, List.filterMap_append, labels, labels]

theorem labels_eq_nil {nodes : List Node}
    (h : ∀ node ∈ nodes, node.label = none ∧ labels node.children = []) : labels nodes = [] := by
  induction nodes with
  | nil => exact labels_nil
  | cons node nodes ih =>
    obtain ⟨⟨hlabel, hchildren⟩, hnodes⟩ := List.forall_mem_cons.mp h
    rw [labels_cons, hlabel, hchildren, ih hnodes]
    rfl

theorem labels_of_statements {nodes : List Node} (h : ∀ node ∈ nodes, node.IsStatement) :
    labels nodes = [] := by
  refine labels_eq_nil fun node hnode => ⟨(h node hnode).unlabelled, ?_⟩
  rw [(h node hnode).leaf, labels_nil]

theorem IsTemplate.labels_eq_nil {node : Node} (h : node.IsTemplate) : labels [node] = [] := by
  rw [labels_singleton, h.unlabelled, Node.labels_eq_nil]
  · rfl
  · intro child hchild
    obtain ⟨hline, _, hlabel⟩ := h.lines child hchild
    exact ⟨hlabel, by rw [hline.leaf, labels_nil]⟩

theorem IsTemplate.sites_eq_nil {node : Node} (h : node.IsTemplate) : sites [node] = [] := by
  have hsite : node.site? = none := by rw [site?, h.kind]; rfl
  rw [sites_singleton, hsite, sites_of_leaves fun child hchild => (h.lines child hchild).1.leaf]
  refine List.filterMap_eq_nil_iff.mpr fun child hchild => ?_
  rw [site?, (h.lines child hchild).2.1, ite_self]

/-- What a routine holds before labels are placed. -/
structure IsFresh (node : Node) : Prop where
  item : node.IsItem
  labels : labels [node] = []

theorem IsStatement.isFresh {node : Node} (h : node.IsStatement) : node.IsFresh :=
  ⟨.line h.isLine, labels_of_statements (by simpa using h)⟩

theorem isFresh_group {node : Node} (hkind : node.kind.isGroup = true) (hlabel : node.label = none)
    (hchildren : ∀ child ∈ node.children, child.IsStatement) : node.IsFresh := by
  refine ⟨.group hkind fun child hchild => (hchildren child hchild).isLine, ?_⟩
  rw [labels_singleton, hlabel, labels_of_statements hchildren]
  rfl

theorem labels_of_isFresh {nodes : List Node} (h : ∀ node ∈ nodes, node.IsFresh) :
    labels nodes = [] := by
  refine labels_eq_nil fun node hnode => ?_
  have hlabels := (h node hnode).labels
  rw [labels_singleton, List.append_eq_nil_iff, Option.toList_eq_nil_iff] at hlabels
  exact hlabels

end Node

namespace Routine

variable (symbols : SymbolTable) (found : Match)

/-! ### The nodes of each shape -/

theorem isStatement_of_mem_statements {keep : Instruction → Bool} {node : Node}
    (h : node ∈ statements symbols found keep) : node.IsStatement := by
  obtain ⟨i, _, rfl⟩ := List.mem_map.mp h
  exact Statement.ofInstruction_isStatement symbols i

theorem isFresh_of_mem_statements {keep : Instruction → Bool} {node : Node}
    (h : node ∈ statements symbols found keep) : node.IsFresh :=
  (isStatement_of_mem_statements symbols found h).isFresh

theorem isFresh_of_mem_counted {node : Node} (h : node ∈ counted symbols found) : node.IsFresh := by
  rcases List.mem_append.mp h with hbefore | hloop
  · exact isFresh_of_mem_statements symbols found hbefore
  · obtain rfl := List.mem_singleton.mp hloop
    exact Node.isFresh_group rfl rfl fun child => isStatement_of_mem_statements symbols found

theorem isFresh_of_mem_bottomTested {node : Node} (h : node ∈ bottomTested symbols found) :
    node.IsFresh := by
  rcases List.mem_append.mp h with hbefore | hloop
  · exact isFresh_of_mem_statements symbols found hbefore
  · obtain rfl := List.mem_singleton.mp hloop
    exact Node.isFresh_group rfl rfl fun child => isStatement_of_mem_statements symbols found

theorem isFresh_of_mem_topTested {condition : List String} {node : Node}
    (h : node ∈ topTested symbols found condition) : node.IsFresh := by
  unfold topTested at h
  split at h
  · rcases List.mem_append.mp h with htest | hloop
    · exact isFresh_of_mem_statements symbols found htest
    · obtain rfl := List.mem_singleton.mp hloop
      refine Node.isFresh_group rfl rfl fun child hchild => ?_
      rcases List.mem_append.mp hchild with hbody | htest
      · exact isStatement_of_mem_statements symbols found hbody
      · exact isStatement_of_mem_statements symbols found htest
  · exact isFresh_of_mem_statements symbols found h

theorem mem_conditionals {node : Node} (h : node ∈ conditionals symbols found) :
    node.IsLine ∧ node.label = none ∧ node.children = [] := by
  obtain ⟨block, _, hnode⟩ := List.mem_flatMap.mp h
  rcases List.mem_append.mp hnode with hown | hjump
  · have hstatement := isStatement_of_mem_statements symbols found hown
    exact ⟨hstatement.isLine, hstatement.unlabelled, hstatement.leaf⟩
  · rw [Option.mem_toList, Option.map_eq_some_iff] at hjump
    obtain ⟨test, _, rfl⟩ := hjump
    exact ⟨⟨rfl, rfl⟩, rfl, rfl⟩

theorem isFresh_of_mem_conditionals {node : Node} (h : node ∈ conditionals symbols found) :
    node.IsFresh := by
  obtain ⟨hline, hlabel, hleaf⟩ := mem_conditionals symbols found h
  refine ⟨.line hline, ?_⟩
  rw [Node.labels_singleton, hlabel, hleaf, Node.labels_nil]
  rfl

theorem conditionals_ne_nil {found : Match} (htested : found.Tested)
    (hnonempty : found.blocks ≠ []) : conditionals symbols found ≠ [] := by
  obtain ⟨first, rest, hblocks⟩ := List.exists_cons_of_ne_nil hnonempty
  obtain ⟨test, htest⟩ := htested.tests first (by simp [hblocks])
  simp [conditionals, hblocks, htest]

theorem isCase_dispatchCase (subject : String) (exit : Address) (test : Test) :
    (dispatchCase symbols subject exit test).IsCase := by
  obtain ⟨kind, value, hchildren, hkind⟩ := children_dispatchCase symbols subject exit test
  exact ⟨rfl, ⟨_, _, rfl⟩, _, hchildren, rfl, hkind⟩

theorem labels_dispatchCase (subject : String) (exit : Address) (test : Test) :
    Node.labels (dispatchCase symbols subject exit test).children = [] := by
  obtain ⟨kind, value, hchildren, -⟩ := children_dispatchCase symbols subject exit test
  rw [hchildren, Node.labels, Node.walkAll_of_leaves (List.forall_mem_singleton.mpr rfl)]
  rfl

theorem isFresh_of_mem_dispatch {found : Match} (htested : found.Tested) {node : Node}
    (h : node ∈ dispatch symbols found) : node.IsFresh := by
  unfold dispatch at h
  split at h
  · rename_i first last hfirst _
    rcases List.mem_append.mp h with hown | hswitch
    · exact isFresh_of_mem_statements symbols found hown
    · obtain rfl := List.mem_singleton.mp hswitch
      obtain ⟨rest, hblocks⟩ := List.head?_eq_some_iff.mp hfirst
      obtain ⟨test, htest⟩ := htested.tests first (by simp [hblocks])
      refine ⟨.switch rfl (by simp [hblocks, htest]) ?_, ?_⟩
      · intro child hchild
        obtain ⟨test, _, rfl⟩ := List.mem_map.mp hchild
        exact isCase_dispatchCase symbols _ _ test
      · rw [Node.labels_singleton, Node.labels_eq_nil]
        · rfl
        · intro child hchild
          obtain ⟨test, _, rfl⟩ := List.mem_map.mp hchild
          exact ⟨rfl, labels_dispatchCase symbols _ _ test⟩
  · cases h

theorem isStatement_of_mem_terminator {block : Block} {node : Node}
    (h : node ∈ (block.terminator?.map (Statement.ofInstruction symbols)).toList) :
    node.IsStatement := by
  rw [Option.mem_toList, Option.map_eq_some_iff] at h
  obtain ⟨i, _, rfl⟩ := h
  exact Statement.ofInstruction_isStatement symbols i

theorem isFresh_of_mem_record {node : Node} (h : node ∈ record symbols found) : node.IsFresh := by
  unfold record at h
  split at h
  · rcases List.mem_cons.mp h with rfl | hterminator
    · refine Node.isFresh_group rfl rfl fun child hchild => ?_
      obtain ⟨i, _, rfl⟩ := List.mem_map.mp hchild
      exact recordStatement_isStatement symbols _ i
    · exact (isStatement_of_mem_terminator symbols hterminator).isFresh
  · cases h
  · exact isFresh_of_mem_statements symbols found h

/-- Each statement of an unrolled loop comes from an instruction of the first of the repeated
blocks. -/
theorem exists_unrolledBody_cons (varying : List Variation) (usage : Usage)
    (instruction : Instruction) (position : Nat) (rest : List (Instruction × Nat)) :
    ∃ (usage' : Usage) (statement : Node), statement.IsStatement ∧
      statement.address = some instruction.address ∧
      usage'.templates = usage.templates ∧
      unrolledBody symbols varying usage ((instruction, position) :: rest)
        = ((unrolledBody symbols varying usage' rest).1,
          statement :: (unrolledBody symbols varying usage' rest).2) := by
  have hstatement := Statement.ofInstruction_isStatement symbols instruction
  rw [unrolledBody]
  cases varying.find? (·.position == position) with
  | none => exact ⟨usage, _, hstatement, rfl, rfl, rfl⟩
  | some variation =>
    refine ⟨(folded symbols usage variation).1, _, ?_, rfl, ?_, rfl⟩
    · exact ⟨hstatement.kind, hstatement.leaf, hstatement.unlabelled⟩
    · unfold folded
      split <;> rfl

theorem unrolledBody_isStatement (varying : List Variation) (usage : Usage)
    (pairs : List (Instruction × Nat)) :
    (∀ node ∈ (unrolledBody symbols varying usage pairs).2, node.IsStatement) ∧
      (unrolledBody symbols varying usage pairs).1.templates = usage.templates := by
  induction pairs generalizing usage with
  | nil => exact ⟨fun node hnode => absurd hnode List.not_mem_nil, rfl⟩
  | cons pair rest ih =>
    obtain ⟨usage', statement, hstatement, _, htemplates, hbody⟩ :=
      exists_unrolledBody_cons symbols varying usage pair.1 pair.2 rest
    rw [hbody]
    exact ⟨List.forall_mem_cons.mpr ⟨hstatement, (ih usage').1⟩, (ih usage').2.trans htemplates⟩

theorem isFresh_of_mem_unrolled {usage : Usage} {node : Node}
    (h : node ∈ (unrolled symbols usage found).2) : node.IsFresh := by
  unfold unrolled at h
  split at h
  · cases h
  · obtain rfl := List.mem_singleton.mp h
    exact Node.isFresh_group rfl rfl (unrolledBody_isStatement symbols _ _ _).1

theorem isFresh_of_mem_template {usage : Usage} {node : Node}
    (h : node ∈ (template symbols usage found).2) : node.IsFresh := by
  unfold template at h
  split at h
  · cases h
  · obtain ⟨⟨block, position⟩, _, hcall⟩ := List.mem_flatMap.mp h
    rcases List.mem_cons.mp hcall with rfl | hterminator
    · exact Node.IsStatement.isFresh ⟨rfl, rfl, rfl⟩
    · exact (isStatement_of_mem_terminator symbols hterminator).isFresh

theorem announce_fresh (usage : Usage) (instructions : List Instruction) :
    (∀ node ∈ (announce symbols usage instructions).2, node.IsFresh) ∧
      (announce symbols usage instructions).1.templates = usage.templates := by
  obtain ⟨⟨announced, husage⟩, hnodes⟩ := announce_spec symbols usage instructions
  constructor
  · intro node hnode
    obtain ⟨_, _, rfl⟩ := hnodes node hnode
    exact ⟨.line ⟨rfl, rfl⟩, rfl⟩
  · rw [husage]

/-- Whatever the shape is, its nodes are what a routine may hold. -/
theorem isFresh_of_mem_structured {found : Match} (hsound : found.Sound)
    (hnonempty : found.blocks ≠ []) {usage : Usage} {node : Node}
    (h : node ∈ (structured symbols usage found).2) : node.IsFresh := by
  rw [structured] at h
  cases hshape : found.shape <;> simp only [hshape, Match.Sound] at hsound h
  case countUp | countDown => exact isFresh_of_mem_counted symbols found h
  case whileLoop => exact isFresh_of_mem_topTested symbols found h
  case untilLoop =>
    unfold untilLoop at h
    split at h
    · exact isFresh_of_mem_topTested symbols found h
    · exact isFresh_of_mem_bottomTested symbols found h
  case conditional => exact isFresh_of_mem_conditionals symbols found h
  case conditionalChain =>
    obtain rfl := List.mem_singleton.mp h
    refine ⟨.chain rfl (conditionals_ne_nil symbols hsound hnonempty) fun child hchild =>
      (mem_conditionals symbols found hchild).1, ?_⟩
    rw [Node.labels_singleton, Node.labels_of_isFresh fun child =>
      isFresh_of_mem_conditionals symbols found]
    rfl
  case dispatch => exact isFresh_of_mem_dispatch symbols hsound.1 h
  case record => exact isFresh_of_mem_record symbols found h
  case unrolled => exact isFresh_of_mem_unrolled symbols found h
  case template => exact isFresh_of_mem_template symbols found h
  case globalVariable =>
    rcases List.mem_append.mp h with hannounced | hown
    · exact (announce_fresh symbols _ _).1 node hannounced
    · exact isFresh_of_mem_statements symbols found hown
  case bitField | pointer | timer | inputHandler | interrupt =>
    obtain rfl := List.mem_singleton.mp h
    exact Node.isFresh_group rfl rfl fun child => isStatement_of_mem_statements symbols found
  case call | jump | plain => exact isFresh_of_mem_statements symbols found h

/-! ### Templates -/

theorem isTemplate_template (varying : List Variation) (name : String) (params : List String)
    (body : List Instruction) :
    Node.IsTemplate
      { kind := .function, value := name, params,
        children := body.zipIdx.map fun (instruction, position) =>
          templateStatement symbols varying instruction position } := by
  refine ⟨rfl, rfl, fun child hchild => ?_⟩
  obtain ⟨⟨instruction, position⟩, _, rfl⟩ := List.mem_map.mp hchild
  have hstatement := Statement.ofInstruction_isStatement symbols instruction
  have hkind := hstatement.isLine.kind
  unfold templateStatement
  simp only
  split
  · exact ⟨⟨hkind, hstatement.leaf⟩, rfl, hstatement.unlabelled⟩
  · exact ⟨⟨hkind, hstatement.leaf⟩, rfl, hstatement.unlabelled⟩

theorem templates_foldl_note (usage : Usage) (instructions : List Instruction) :
    (instructions.foldl (Usage.note symbols) usage).templates = usage.templates := by
  have hnote (usage : Usage) (instruction : Instruction) :
      (usage.note symbols instruction).templates = usage.templates := by
    unfold Usage.note Usage.noteCall Usage.touch
    grind
  induction instructions generalizing usage with
  | nil => rfl
  | cons instruction rest ih => rw [List.foldl_cons, ih, hnote]

/-- Beside the templates that were known before there may be one more. -/
theorem isTemplate_of_mem_structured {usage : Usage}
    (husage : ∀ node ∈ usage.templates, node.IsTemplate) :
    ∀ node ∈ (structured symbols usage found).1.templates, node.IsTemplate := by
  rw [structured]
  split
  case h_9 =>
    unfold unrolled
    split
    · exact husage
    · intro node hnode
      exact husage node ((unrolledBody_isStatement symbols _ usage _).2 ▸ hnode)
  case h_10 =>
    unfold template
    split
    · exact husage
    · intro node hnode
      rcases List.mem_append.mp hnode with hknown | hnew
      · exact husage node hknown
      · obtain rfl := List.mem_singleton.mp hnew
        exact isTemplate_template symbols _ _ _ _
  case h_11 =>
    intro node hnode
    exact husage node ((announce_fresh symbols usage _).2 ▸ hnode)
  all_goals exact husage

end Routine

end Lift6502
