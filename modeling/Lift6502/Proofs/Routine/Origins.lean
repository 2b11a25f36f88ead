import Lift6502.Proofs.Routine.Programs

/-!
# Where the nodes of a shape come from

A node of a shape is made by the shape, such as a loop or a jump, or it is the statement of an
instruction. What holds of both therefore holds of the whole tree. Only records and repeated code
have statements with other texts.
-/

namespace Lift6502

namespace NodeKind

/-- Whether shapes make nodes of a kind by themselves. -/
def isMade : NodeKind → Bool
  | forLoop | whileLoop | doUntil | ifGoto | nestedIf | switch | case | goto | exitSwitch
  | globalVar | block => true
  | _ => false

end NodeKind

namespace Node

/-- Whether everything in some trees has a property. -/
def Each (P : Node → Prop) (nodes : List Node) : Prop := ∀ node ∈ walkAll nodes, P node

namespace Each

variable {P : Node → Prop}

theorem nil : Each P [] := by
  intro node hnode
  rw [walkAll_nil] at hnode
  cases hnode

theorem append {left right : List Node} (hleft : Each P left) (hright : Each P right) :
    Each P (left ++ right) := by
  intro node hnode
  rw [walkAll_append, List.mem_append] at hnode
  rcases hnode with hnode | hnode
  · exact hleft node hnode
  · exact hright node hnode

theorem flatMap {α : Type} {elements : List α} {nodes : α → List Node}
    (h : ∀ element ∈ elements, Each P (nodes element)) : Each P (elements.flatMap nodes) := by
  intro node hnode
  rw [walkAll_eq_flatMap, List.flatMap_assoc, List.mem_flatMap] at hnode
  obtain ⟨element, helement, hnode⟩ := hnode
  rw [← walkAll_eq_flatMap] at hnode
  exact h element helement node hnode

theorem of_each {nodes : List Node} (h : ∀ node ∈ nodes, Each P [node]) : Each P nodes := by
  rw [← List.flatMap_singleton' nodes]
  exact flatMap h

theorem group {node : Node} (hnode : P node) (h : Each P node.children) : Each P [node] := by
  intro part hpart
  rw [walkAll_cons, walkAll_nil, List.append_nil, walk_eq] at hpart
  rcases List.mem_cons.mp hpart with rfl | hbelow
  · exact hnode
  · exact h part hbelow

theorem cons {node : Node} {nodes : List Node} (hnode : Each P [node]) (hnodes : Each P nodes) :
    Each P (node :: nodes) :=
  hnode.append hnodes

theorem of_leaves {nodes : List Node} (hleaf : ∀ node ∈ nodes, node.children = [])
    (h : ∀ node ∈ nodes, P node) : Each P nodes := by
  intro node hnode
  rw [walkAll_of_leaves hleaf] at hnode
  exact h node hnode

theorem self {nodes : List Node} (h : Each P nodes) {node : Node} (hnode : node ∈ nodes) : P node :=
  h node (mem_walkAll.mpr ⟨node, hnode, mem_walk_self node⟩)

theorem child {nodes : List Node} (h : Each P nodes) {node child : Node}
    (hnode : node ∈ walkAll nodes) (hchild : child ∈ node.children) : P child := by
  obtain ⟨root, hroot, hnode⟩ := mem_walkAll.mp hnode
  exact h child (mem_walkAll.mpr ⟨root, hroot, mem_walk_of_mem_children hnode hchild⟩)

theorem map_ofInstruction {symbols : SymbolTable} {part : List Instruction}
    (h : ∀ i ∈ part, P (Statement.ofInstruction symbols i)) :
    Each P (part.map (Statement.ofInstruction symbols)) := by
  refine of_leaves (fun node hnode => ?_) (fun node hnode => ?_)
  · obtain ⟨i, _, rfl⟩ := List.mem_map.mp hnode
    exact (Statement.ofInstruction_isStatement symbols i).leaf
  · obtain ⟨i, hi, rfl⟩ := List.mem_map.mp hnode
    exact h i hi

end Each

end Node

theorem Match.mem_instructions_of_mem_body {found : Match} {block : Block}
    (hblock : block ∈ found.blocks) {i : Instruction} (hi : i ∈ block.body) :
    i ∈ found.instructions := by
  refine Block.mem_instructionsOf.mpr ⟨block, hblock, ?_⟩
  rw [← block.body_append_terminator?]
  exact List.mem_append_left _ hi

namespace Routine

open Node (Each)

section Structured

variable {symbols : SymbolTable} {found : Match} {P : Node → Prop}
  (hmade : ∀ node : Node, node.kind.isMade = true → P node)
  (hown : ∀ i ∈ found.instructions, P (Statement.ofInstruction symbols i))

include hown

theorem each_statements (keep : Instruction → Bool) : Each P (statements symbols found keep) :=
  Each.map_ofInstruction fun i hi => hown i (List.filter_sublist.subset hi)

theorem each_terminator {block : Block} (h : block ∈ found.blocks) :
    Each P (block.terminator?.map (Statement.ofInstruction symbols)).toList := by
  cases hlast : block.terminator? with
  | none => exact Each.nil
  | some last =>
    change Each P ([last].map (Statement.ofInstruction symbols))
    refine Each.map_ofInstruction (List.forall_mem_singleton.mpr (hown last ?_))
    exact Block.mem_instructionsOf.mpr ⟨block, h, Block.terminator?_mem hlast⟩

theorem each_record (hdefinition : ∀ node : Node, node.kind = .structDef → P node)
    (hassign : ∀ node : Node, node.kind = .assign → P node) : Each P (record symbols found) := by
  unfold record
  split
  · rename_i base block _ hblock
    have hmem : block ∈ found.blocks := List.mem_of_mem_head? hblock
    refine Each.cons (Each.group (hdefinition _ rfl) (Each.of_leaves ?_ ?_))
      (each_terminator hown hmem)
    · exact List.forall_mem_map.mpr fun i _ => (recordStatement_isStatement symbols base i).leaf
    · refine List.forall_mem_map.mpr fun i hi => ?_
      unfold recordStatement
      split
      · exact hassign _ rfl
      · exact hown i (Match.mem_instructions_of_mem_body hmem hi)
  · exact Each.nil
  · exact each_statements hown _

theorem each_unrolledBody
    (hfolded : ∀ i ∈ found.instructions, ∀ usage variation,
      P (substitute (valueText symbols i.operand) (folded symbols usage variation).2
        (Statement.ofInstruction symbols i)))
    (varying : List Variation) (usage : Usage) {pairs : List (Instruction × Nat)}
    (hpairs : ∀ pair ∈ pairs, pair.1 ∈ found.instructions) :
    ∀ node ∈ (unrolledBody symbols varying usage pairs).2, P node := by
  induction pairs generalizing usage with
  | nil => exact List.forall_mem_nil _
  | cons pair rest ih =>
    obtain ⟨hpair, hrest⟩ := List.forall_mem_cons.mp hpairs
    rw [unrolledBody]
    cases varying.find? (·.position == pair.2) with
    | none => exact List.forall_mem_cons.mpr ⟨hown _ hpair, ih usage hrest⟩
    | some variation => exact List.forall_mem_cons.mpr ⟨hfolded _ hpair usage variation, ih _ hrest⟩

include hmade

theorem each_unrolled
    (hfolded : ∀ i ∈ found.instructions, ∀ usage variation,
      P (substitute (valueText symbols i.operand) (folded symbols usage variation).2
        (Statement.ofInstruction symbols i)))
    (usage : Usage) : Each P (unrolled symbols usage found).2 := by
  unfold unrolled
  split
  · exact Each.nil
  · rename_i first rest hblocks
    refine Each.group (hmade _ rfl) (Each.of_leaves ?_ ?_)
    · exact fun node hnode => ((unrolledBody_isStatement symbols _ _ _).1 node hnode).leaf
    · refine each_unrolledBody hown hfolded _ usage fun pair hpair => ?_
      exact Block.mem_instructionsOf.mpr
        ⟨first, by simp [hblocks], List.fst_mem_of_mem_zipIdx hpair⟩

theorem each_counted : Each P (counted symbols found) :=
  (each_statements hown _).append (Each.group (hmade _ rfl) (each_statements hown _))

theorem each_bottomTested : Each P (bottomTested symbols found) :=
  (each_statements hown _).append (Each.group (hmade _ rfl) (each_statements hown _))

theorem each_topTested (condition : List String) : Each P (topTested symbols found condition) := by
  unfold topTested
  split
  · refine (each_statements hown _).append (Each.group (hmade _ rfl) ?_)
    exact (each_statements hown _).append (each_statements hown _)
  · exact each_statements hown _

theorem each_conditionals : Each P (conditionals symbols found) := by
  refine Each.flatMap fun block _ => (each_statements hown _).append ?_
  cases block.test? with
  | none => exact Each.nil
  | some test => exact Each.group (hmade _ rfl) Each.nil

omit hown in
theorem each_dispatchCase (subject : String) (exit : Address) (test : Test) :
    Each P [dispatchCase symbols subject exit test] := by
  refine Each.group (hmade _ rfl) ?_
  obtain ⟨kind, value, hchildren, hkind⟩ := children_dispatchCase symbols subject exit test
  rw [hchildren]
  refine Each.group (hmade _ ?_) Each.nil
  rcases hkind with rfl | rfl <;> rfl

theorem each_dispatch : Each P (dispatch symbols found) := by
  unfold dispatch
  split
  · refine (each_statements hown _).append
      (Each.group (hmade _ rfl) (Each.of_each fun child hchild => ?_))
    obtain ⟨test, _, rfl⟩ := List.mem_map.mp hchild
    exact each_dispatchCase hmade _ _ test
  · exact Each.nil

omit hown in
theorem each_announce (usage : Usage) (instructions : List Instruction) :
    Each P (announce symbols usage instructions).2 := by
  refine Each.of_each fun node hnode => ?_
  obtain ⟨_, _, rfl⟩ := (announce_spec symbols usage instructions).2 node hnode
  exact Each.group (hmade _ rfl) Each.nil

omit hmade in
theorem each_template
    (hcall : ∀ start params address,
      P { kind := .subCall, value := templateName start, params, address })
    (usage : Usage) : Each P (template symbols usage found).2 := by
  unfold template
  split
  · exact Each.nil
  · refine Each.flatMap fun pair hpair => Each.cons (Each.group (hcall _ _ _) Each.nil) ?_
    exact each_terminator hown (List.fst_mem_of_mem_zipIdx hpair)

/-- What holds of the nodes that shapes make, of statements and of calls of templates holds of all
nodes of a shape, if it holds of records and of unrolled loops. -/
theorem each_structured
    (hcall : ∀ start params address,
      P { kind := .subCall, value := templateName start, params, address })
    (usage : Usage) (hrecord : found.shape = .record → Each P (record symbols found))
    (hunrolled : found.shape = .unrolled → Each P (unrolled symbols usage found).2) :
    Each P (structured symbols usage found).2 := by
  rw [structured]
  cases hshape : found.shape
  case countUp | countDown => exact each_counted hmade hown
  case whileLoop => exact each_topTested hmade hown _
  case untilLoop =>
    simp only [untilLoop]
    split
    · exact each_topTested hmade hown _
    · exact each_bottomTested hmade hown
  case conditional => exact each_conditionals hmade hown
  case conditionalChain => exact Each.group (hmade _ rfl) (each_conditionals hmade hown)
  case dispatch => exact each_dispatch hmade hown
  case record => exact hrecord hshape
  case unrolled => exact hunrolled hshape
  case template => exact each_template hown hcall usage
  case globalVariable => exact (each_announce hmade usage _).append (each_statements hown _)
  case bitField | pointer | timer | inputHandler | interrupt =>
    exact Each.group (hmade _ rfl) (each_statements hown _)
  case call | jump | plain => exact each_statements hown _

end Structured

end Routine

end Lift6502
