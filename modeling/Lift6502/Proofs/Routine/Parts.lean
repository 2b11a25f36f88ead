import Lift6502.Proofs.Routine.CarriedOver

/-!
# The parts of a program

Each segment of blocks gives a program one routine and perhaps some templates. Here a program is
taken apart again: its tree is made of the routines, one for each segment and in their order, and
behind them of the templates. What its routines call and how they return follows part by part.
-/

namespace Lift6502

namespace Node

theorem endProgram_of_leaf {node : Node} (hleaf : node.children = []) (hkind : node.kind ≠ .leave) :
    node.endProgram = node := by
  obtain ⟨kind, children, value, label, params, address⟩ := node
  cases hleaf
  rw [endProgram_eq]
  simp [show kind ≠ .leave from hkind]

theorem endProgram_alone_of_ne {node : Node} (hkind : node.kind ≠ .leave) :
    node.alone.endProgram = node.alone :=
  endProgram_of_leaf rfl hkind

theorem kind_endProgram (node : Node) : node.endProgram.kind = node.kind := by
  rw [endProgram_eq]

end Node

namespace Program

variable {symbols : SymbolTable}

/-! ### Routines -/

/-- The routine at an entry. -/
def routineNode (symbols : SymbolTable) (entry : Address) (children : List Node) : Node :=
  if symbols.subroutines.contains entry then
    { kind := .function, value := symbols.codeName entry, children, address := some entry }
  else Node.endProgram { kind := .function, value := mainName, children, address := some entry }

theorem kind_routineNode (entry : Address) (children : List Node) :
    (routineNode symbols entry children).kind = .function := by
  unfold routineNode
  split
  · rfl
  · exact Node.kind_endProgram _

/-- What becomes of the statements of the routine at an entry. -/
def finished (symbols : SymbolTable) (entry : Address) (statement : Node) : Node :=
  if symbols.subroutines.contains entry then statement else statement.endProgram

theorem kind_finished (entry : Address) (statement : Node) :
    (finished symbols entry statement).kind = statement.kind := by
  unfold finished
  split
  · rfl
  · exact Node.kind_endProgram statement

theorem finished_alone_of_ne (entry : Address) {node : Node} (hkind : node.kind ≠ .leave) :
    finished symbols entry node.alone = node.alone := by
  unfold finished
  split
  · rfl
  · exact Node.endProgram_alone_of_ne hkind

/-- A return says that it ends the program if nothing calls its routine and no interrupt led to
it. -/
theorem finished_ofInstruction (entry : Address) {instruction : Instruction}
    (h : instruction.leaves = true) :
    finished symbols entry (Statement.ofInstruction symbols instruction)
      = { kind := .leave
          value :=
            if instruction.mnemonic = .rti then "interrupt"
            else if symbols.subroutines.contains entry then "" else "exit"
          address := some instruction.address } := by
  rw [Statement.ofInstruction_of_leaves h, finished, Instruction.leaveValue]
  by_cases hcalled : symbols.subroutines.contains entry = true
    <;> by_cases hrti : instruction.mnemonic = .rti <;>
    simp [hcalled, hrti, Node.endProgram_eq]

theorem map_alone_walk_routineNode (symbols : SymbolTable) (entry : Address)
    (children : List Node) :
    (routineNode symbols entry children).walk.map Node.alone
      = (routineNode symbols entry []) :: ((Node.walkAll children).map Node.alone).map
        (finished symbols entry) := by
  unfold routineNode finished
  split
  · rw [Node.walk_eq, List.map_cons]
    simp only [List.map_id']
    rfl
  · rw [Node.map_alone_walk_endProgram, Node.walk_eq, List.map_cons, List.map_cons]
    rfl

/-- Apart from the routine itself, what it holds is what became of the statements in it. -/
theorem exists_below_of_mem_routineNode {entry : Address} {children : List Node} {node : Node}
    (hnode : node ∈ (routineNode symbols entry children).walk) (hkind : node.kind ≠ .function) :
    ∃ below ∈ Node.walkAll children, below.kind = node.kind ∧
      node.alone = finished symbols entry below.alone := by
  have halone := List.mem_map_of_mem (f := Node.alone) hnode
  rw [map_alone_walk_routineNode, List.map_map] at halone
  rcases List.mem_cons.mp halone with hroutine | hbelow
  · have hfunction : node.alone.kind = .function := by rw [hroutine, kind_routineNode]
    exact absurd hfunction hkind
  · obtain ⟨below, hbelow, heq⟩ := List.mem_map.mp hbelow
    have hsame := congrArg Node.kind heq
    change (finished symbols entry below.alone).kind = node.kind at hsame
    rw [kind_finished] at hsame
    exact ⟨below, hbelow, hsame, heq.symm⟩

theorem exists_mem_routineNode (entry : Address) {children : List Node} {below : Node}
    (h : below ∈ Node.walkAll children) :
    ∃ node ∈ (routineNode symbols entry children).walk, node.alone
      = finished symbols entry below.alone := by
  have halone :
      finished symbols entry below.alone
        ∈ (routineNode symbols entry children).walk.map Node.alone := by
    rw [map_alone_walk_routineNode, List.map_map]
    exact List.mem_cons_of_mem _ (List.mem_map.mpr ⟨below, h, rfl⟩)
  exact List.mem_map.mp halone

/-! ### Parts -/

/-- What one segment of blocks gives a program. -/
structure Part where
  function : Node
  templates : List Node

/-- A part was built from a segment: the routine holds nodes which, with the templates, carry over
its calls and returns. -/
def Part.IsFrom (symbols : SymbolTable) (segment : List Block) (part : Part) : Prop :=
  ∃ first rest children, segment = first :: rest ∧
    part.function = routineNode symbols first.start children ∧
    CarriesOver symbols (Block.instructionsOf segment) children part.templates

/-- Whether routines were built from parts for some segments. -/
def Routines.MadeOf (symbols : SymbolTable) (segments : List (List Block))
    (routines : Routines) : Prop :=
  (∀ segment ∈ segments, segment ≠ [] ∧ Ascending (Block.instructionsOf segment) ∧
    ∀ block ∈ segment, block.Straight) →
    ∃ parts : List Part, List.Forall₂ (Part.IsFrom symbols) segments parts ∧
      routines.functions = parts.map (·.function) ∧
      routines.usage.templates = parts.flatMap (·.templates)

theorem functions_add (routines : Routines) (first : Block) (rest : List Block) :
    (routines.add symbols (first :: rest)).functions
      = routines.functions ++ [routineNode symbols first.start
        (Routine.build symbols routines.usage (first :: rest)).2] := by
  unfold Routines.add routineNode
  simp only
  split <;> rfl

theorem madeOf_add {segments : List (List Block)} {routines : Routines}
    (h : routines.MadeOf symbols segments) (segment : List Block) :
    (routines.add symbols segment).MadeOf symbols (segments ++ [segment]) := by
  intro hall
  obtain ⟨hbefore, hsegment⟩ := List.forall_mem_append.mp hall
  obtain ⟨hnonempty, hascending, hstraight⟩ := hsegment segment (List.mem_singleton_self segment)
  obtain ⟨parts, hparts, hfunctions, htemplates⟩ := h hbefore
  obtain ⟨fresh, hfresh, hcarries⟩ :=
    Routine.carriesOver_build symbols hascending hstraight routines.usage
  obtain ⟨first, rest, rfl⟩ := List.exists_cons_of_ne_nil hnonempty
  let part : Part :=
    { function := routineNode symbols first.start
        (Routine.build symbols routines.usage (first :: rest)).2
      templates := fresh }
  refine ⟨parts ++ [part], ?_, ?_, ?_⟩
  · exact List.rel_append hparts
      (List.Forall₂.cons ⟨first, rest, _, rfl, rfl, hcarries⟩ List.Forall₂.nil)
  · rw [functions_add, hfunctions, List.map_append, List.map_singleton]
  · rw [usage_add, hfresh, htemplates, List.flatMap_append, List.flatMap_singleton]

theorem madeOf_routines (symbols : SymbolTable) (blocks : List Block) :
    (routines symbols blocks).MadeOf symbols (Routine.divide symbols blocks) := by
  have hnone : Routines.MadeOf symbols [] {} := fun _ => ⟨[], List.Forall₂.nil, rfl, rfl⟩
  exact foldl_add_induction (motive := Routines.MadeOf symbols)
    (fun _ _ segment h => madeOf_add h segment) hnone _

section Listing

variable (symbols : SymbolTable) {instructions : List Instruction}
  (hascending : Ascending instructions)

include hascending

/-- The tree of a program in ascending code, taken apart. -/
theorem exists_parts :
    ∃ parts : List Part,
      List.Forall₂ (Part.IsFrom symbols) (Routine.divide symbols
        (Block.partition instructions)) parts ∧
      (routines symbols (Block.partition instructions)).functions = parts.map (·.function) ∧
      (routines symbols (Block.partition instructions)).usage.templates
        = parts.flatMap (·.templates) := by
  have hsegments : ∀ segment ∈ Routine.divide symbols (Block.partition instructions),
      segment ≠ [] ∧ Ascending (Block.instructionsOf segment) ∧
      ∀ block ∈ segment, block.Straight := by
    intro segment hsegment
    have hsublist : segment.Sublist (Block.partition instructions) := by
      rw [← flatten_divide symbols (Block.partition instructions)]
      exact List.sublist_flatten_of_mem hsegment
    refine ⟨?_, ?_, fun block hblock => ?_⟩
    · rintro rfl
      exact List.nil_notMem_splitBy _ _ hsegment
    · refine Block.ascending_instructionsOf_of_sublist ?_ hsublist
      rw [Block.instructionsOf_partition]
      exact hascending
    · exact (Block.isPartition_iff.mpr rfl).straight block (hsublist.subset hblock)
  exact madeOf_routines symbols (Block.partition instructions) hsegments

end Listing

theorem mem_instructions_iff (symbols : SymbolTable) {instructions : List Instruction}
    {instruction : Instruction} :
    instruction ∈ instructions ↔
      ∃ segment ∈ Routine.divide symbols (Block.partition instructions), instruction
        ∈ Block.instructionsOf segment := by
  have hflatten :
      Block.instructionsOf (Routine.divide symbols (Block.partition instructions)).flatten
        = instructions := by
    rw [flatten_divide, Block.instructionsOf_partition]
  nth_rewrite 1 [← hflatten]
  simp only [Block.mem_instructionsOf, List.mem_flatten]
  constructor
  · rintro ⟨block, ⟨segment, hsegment, hblock⟩, hinside⟩
    exact ⟨segment, hsegment, block, hblock, hinside⟩
  · rintro ⟨segment, hsegment, block, hblock, hinside⟩
    exact ⟨block, ⟨segment, hsegment, hblock⟩, hinside⟩

/-- Apart from labels and children, the nodes of a program are those that it had before labels were
placed. -/
theorem map_alone_walk_root (symbols : SymbolTable) (blocks : List Block) :
    (build symbols blocks).root.walk.map Node.alone
      = (unlabelled symbols blocks).walk.map Node.alone := by
  rw [build_root]
  exact Node.map_alone_walk_placeLabels _ _

/-! ### Calls of the ROM -/

/-- Neither ending a program nor leaving out an address changes a call of the ROM. -/
theorem Part.IsFrom.exists_statement {segment : List Block} {part : Part}
    (h : part.IsFrom symbols segment) {node : Node}
    (hnode : node ∈ Node.walkAll (part.function :: part.templates)) (hkind : node.kind = .romCall) :
    ∃ i ∈ Block.instructionsOf segment, ∃ address, node.alone
      = { Statement.ofInstruction symbols i with address } := by
  obtain ⟨first, rest, children, rfl, hfunction, hcarries⟩ := h
  rw [Node.walkAll_cons, List.mem_append] at hnode
  rcases hnode with hnode | hnode
  · rw [hfunction] at hnode
    obtain ⟨below, hbelow, hsame, halone⟩ :=
      exists_below_of_mem_routineNode hnode (by rw [hkind]; decide)
    have hbelowKind : below.kind = .romCall := hsame.trans hkind
    rw [finished_alone_of_ne first.start (by rw [hbelowKind]; decide)] at halone
    obtain ⟨i, hi, hstatement⟩ := hcarries.traced below hbelow (by rw [hbelowKind]; rfl)
    exact ⟨i, hi, _, halone.trans hstatement⟩
  · obtain ⟨_, i, hi, hstatement⟩ := hcarries.cut node hnode (by rw [hkind]; rfl)
    exact ⟨i, hi, _, hstatement⟩

/-- In the part of a segment the ROM is called as the instructions of the segment do. -/
theorem Part.IsFrom.romCall_iff {segment : List Block} {part : Part}
    (h : part.IsFrom symbols segment) {value : String} {params : List String} :
    (∃ node ∈ Node.walkAll (part.function :: part.templates),
        node.kind = .romCall ∧ node.value = value ∧ node.params = params) ↔
      ∃ i ∈ Block.instructionsOf segment, ∃ target, i.callTarget? = some target ∧
        symbols.kind? target = some .kernalCall ∧ value = symbols.codeName target ∧
        params = [Text.decimal target.toNat] := by
  constructor
  · rintro ⟨node, hnode, hkind, rfl, rfl⟩
    obtain ⟨i, hi, address, hstatement⟩ := h.exists_statement hnode hkind
    obtain ⟨target, htarget, hrom, hvalue, hparams⟩ := Statement.romCall_cases
      ((congrArg Node.kind hstatement).symm.trans hkind)
    refine ⟨i, hi, target, htarget, hrom, ?_, ?_⟩
    · exact (congrArg Node.value hstatement).trans hvalue
    · exact (congrArg Node.params hstatement).trans hparams
  · rintro ⟨i, hi, target, htarget, hrom, rfl, rfl⟩
    obtain ⟨first, rest, children, rfl, hfunction, hcarries⟩ := h
    obtain ⟨node, hnode, hkind, hsays⟩ := hcarries.calls i hi target htarget hrom
    rw [Node.walkAll_append, List.mem_append] at hnode
    rw [Node.walkAll_cons]
    rcases hnode with hnode | hnode
    · obtain ⟨call, hcall, halone⟩ := exists_mem_routineNode first.start hnode
      rw [finished_alone_of_ne first.start (by rw [hkind]; decide)] at halone
      obtain ⟨hsameKind, hvalue, hparams, -⟩ := Node.of_alone_eq halone
      refine ⟨call, List.mem_append_left _ (hfunction ▸ hcall), hsameKind.trans hkind, ?_⟩
      rw [hvalue, hparams]
      exact hsays
    · exact ⟨node, List.mem_append_right _ hnode, hkind, hsays⟩

/-- In the tree of ascending code the ROM is called exactly as the code does. -/
theorem romCall_mem_walk_iff (symbols : SymbolTable) {instructions : List Instruction}
    (hascending : Ascending instructions) {value : String} {params : List String} :
    (∃ node ∈ (build symbols (Block.partition instructions)).root.walk,
        node.kind = .romCall ∧ node.value = value ∧ node.params = params) ↔
      ∃ i ∈ instructions, ∃ target, i.callTarget? = some target ∧
      symbols.kind? target = some .kernalCall ∧
        value = symbols.codeName target ∧ params = [Text.decimal target.toNat] := by
  obtain ⟨parts, hparts, hfunctions, htemplates⟩ := exists_parts symbols hascending
  have htree := map_alone_walk_root symbols (Block.partition instructions)
  have hwalk {node : Node} :
      node ∈ Node.walkAll (unlabelled symbols (Block.partition instructions)).children ↔
      ∃ part ∈ parts, node ∈ Node.walkAll (part.function :: part.templates) := by
    rw [unlabelled, hfunctions, htemplates]
    simp only [Node.mem_walkAll, List.mem_append, List.mem_map, List.mem_flatMap, List.mem_cons]
    grind
  constructor
  · rintro ⟨node, hnode, hkind, rfl, rfl⟩
    obtain ⟨own, hown, halone⟩ :=
      List.mem_map.mp (htree ▸ List.mem_map_of_mem (f := Node.alone) hnode)
    obtain ⟨hsameKind, hvalue, hparams, -⟩ := Node.of_alone_eq halone
    rw [Node.walk_eq] at hown
    rcases List.mem_cons.mp hown with rfl | hown
    · rw [hkind] at hsameKind
      cases hsameKind
    · obtain ⟨part, hpart, hown⟩ := hwalk.mp hown
      obtain ⟨segment, hsegment, hfrom⟩ := exists_left_of_forall₂ hparts hpart
      obtain ⟨i, hi, hcall⟩ :=
        hfrom.romCall_iff.mp ⟨own, hown, hsameKind.trans hkind, hvalue, hparams⟩
      exact ⟨i, (mem_instructions_iff symbols).mpr ⟨segment, hsegment, hi⟩, hcall⟩
  · rintro ⟨i, hi, hcall⟩
    obtain ⟨segment, hsegment, hi⟩ := (mem_instructions_iff symbols).mp hi
    obtain ⟨part, hpart, hfrom⟩ := exists_right_of_forall₂ hparts hsegment
    obtain ⟨own, hown, hsays⟩ := hfrom.romCall_iff.mpr ⟨i, hi, hcall⟩
    have hroot : own ∈ (unlabelled symbols (Block.partition instructions)).walk := by
      rw [Node.walk_eq]
      exact List.mem_cons_of_mem _ (hwalk.mpr ⟨part, hpart, hown⟩)
    obtain ⟨node, hnode, halone⟩ :=
      List.mem_map.mp (htree.symm ▸ List.mem_map_of_mem (f := Node.alone) hroot)
    obtain ⟨hkind, hvalue, hparams, -⟩ := Node.of_alone_eq halone
    refine ⟨node, hnode, ?_⟩
    rw [hkind, hvalue, hparams]
    exact hsays

end Program

end Lift6502
