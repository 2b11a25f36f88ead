import Lift6502.Proofs.Routine.Functions
import Lift6502.Proofs.Routine.Parts

/-!
# Routines and the blocks that they span

The routines of a program take up consecutive ranges of its blocks. Here the ranges are counted out,
and every routine of the tree is tied to its range: it is named for the first block of it, and it
returns where the instructions in it do, in the way that suits how it is entered.
-/

namespace Lift6502

/-! ### Ranges -/

theorem getElem?_of_extract_eq_cons {α : Type} {elements rest : List α} {start stop : Nat}
    {first : α} (h : elements.extract start stop = first :: rest) :
    elements[start]? = some first := by
  have hhead := congrArg List.head? h
  rw [List.extract_eq_take_drop, List.head?_take] at hhead
  split at hhead
  · cases hhead
  · rwa [List.head?_drop] at hhead

namespace Routine

/-- The half-open ranges of positions that consecutive groups take up. -/
def spansFrom {α : Type} (start : Nat) : List (List α) → List (Nat × Nat)
  | [] => []
  | group :: groups => (start, start + group.length) :: spansFrom (start + group.length) groups

section Groups

variable {α : Type} {groups : List (List α)} {start : Nat}

theorem lt_of_mem_spansFrom (hnonempty : [] ∉ groups) :
    ∀ span ∈ spansFrom start groups, span.1 < span.2 := by
  induction groups generalizing start with
  | nil => exact List.forall_mem_nil _
  | cons group groups ih =>
    obtain ⟨hgroup, hgroups⟩ := not_or.mp (mt List.mem_cons.mpr hnonempty)
    refine List.forall_mem_cons.mpr ⟨?_, ih hgroups⟩
    have hlength := List.length_pos_iff.mpr (Ne.symm hgroup)
    change start < start + group.length
    omega

theorem isChain_spansFrom (groups : List (List α)) (start : Nat) :
    (spansFrom start groups).IsChain fun span next => span.2 = next.1 := by
  induction groups generalizing start with
  | nil => exact List.IsChain.nil
  | cons group groups ih =>
    refine List.isChain_cons.mpr ⟨fun next hnext => ?_, ih _⟩
    cases groups with
    | nil => cases hnext
    | cons group groups =>
      obtain rfl := Option.some.inj hnext
      rfl

theorem exists_mem_spansFrom_iff {position : Nat} :
    (∃ span ∈ spansFrom start groups, span.1 ≤ position ∧ position < span.2) ↔
      start ≤ position ∧ position < start + groups.flatten.length := by
  induction groups generalizing start with
  | nil => simp [spansFrom]
  | cons group groups ih =>
    rw [spansFrom, List.exists_mem_cons_iff, ih, List.flatten_cons, List.length_append]
    omega

/-- The ranges cut the groups out of their concatenation. -/
theorem map_extract_spansFrom (front : List α) (groups : List (List α)) :
    ((spansFrom front.length groups).map fun span =>
      (front ++ groups.flatten).extract span.1 span.2) = groups := by
  induction groups generalizing front with
  | nil => rfl
  | cons group groups ih =>
    have hgroup :
        (front ++ (group ++ groups.flatten)).extract front.length (front.length + group.length)
          = group := by
      rw [List.extract_eq_take_drop, List.drop_left, Nat.add_sub_cancel_left, List.take_left]
    have hgroups := ih (front ++ group)
    rw [List.length_append, List.append_assoc] at hgroups
    rw [spansFrom, List.map_cons, List.flatten_cons, hgroup, hgroups]

end Groups

/-- The ranges of blocks that the routines of a program span. -/
def spans (symbols : SymbolTable) (blocks : List Block) : List (Nat × Nat) :=
  spansFrom 0 (divide symbols blocks)

variable (symbols : SymbolTable) (blocks : List Block)

theorem map_extract_spans : ((spans symbols blocks).map fun span => blocks.extract span.1 span.2)
    = divide symbols blocks := by
  have h := map_extract_spansFrom [] (divide symbols blocks)
  rwa [List.nil_append, Program.flatten_divide] at h

variable {symbols blocks} {span : Nat × Nat}

theorem lt_of_mem_spans {span : Nat × Nat} (hspan : span ∈ spans symbols blocks) :
    span.1 < span.2 :=
  lt_of_mem_spansFrom (List.nil_notMem_splitBy _ _) span hspan

theorem exists_mem_spans_iff {position : Nat} :
    (∃ span ∈ spans symbols blocks, span.1 ≤ position ∧ position < span.2) ↔
      position < blocks.length := by
  rw [spans, exists_mem_spansFrom_iff, Program.flatten_divide, Nat.zero_add]
  exact and_iff_right (Nat.zero_le position)

theorem le_length_of_mem_spans {span : Nat × Nat} (hspan : span ∈ spans symbols blocks) :
    span.2 ≤ blocks.length := by
  have hlt := lt_of_mem_spans hspan
  have hlast : span.2 - 1 < blocks.length :=
    exists_mem_spans_iff.mp ⟨span, hspan, by omega, by omega⟩
  omega

theorem extract_mem_divide (hspan : span ∈ spans symbols blocks) :
    blocks.extract span.1 span.2 ∈ divide symbols blocks := by
  rw [← map_extract_spans]
  exact List.mem_map_of_mem hspan

theorem eq_zero_or_mem_tail_spans (hspan : span ∈ spans symbols blocks) :
    span.1 = 0 ∨ span ∈ (spans symbols blocks).tail := by
  unfold spans at hspan ⊢
  cases hgroups : divide symbols blocks with
  | nil =>
    rw [hgroups] at hspan
    cases hspan
  | cons group groups =>
    rw [hgroups] at hspan
    rcases List.mem_cons.mp hspan with rfl | hlater
    · exact Or.inl rfl
    · exact Or.inr hlater

/-- Every routine but the first is called. -/
theorem called_of_mem_tail_spans (hspan : span ∈ (spans symbols blocks).tail) {first : Block}
    (hfirst : blocks[span.1]? = some first) : symbols.subroutines.contains first.start = true := by
  have hgroup : blocks.extract span.1 span.2 ∈ (divide symbols blocks).tail := by
    rw [← map_extract_spans, ← List.map_tail]
    exact List.mem_map_of_mem hspan
  obtain ⟨head, tail, heq, hcalled⟩ := exists_cons_of_mem_tail_splitBy hgroup
  rw [getElem?_of_extract_eq_cons heq] at hfirst
  obtain rfl := Option.some.inj hfirst
  exact hcalled

/-- Routines start at the first block and at blocks that are called, and no other block of a routine
is called. -/
theorem start_iff_of_mem_spans (hspan : span ∈ spans symbols blocks) {position : Nat}
    {block : Block} (hfrom : span.1 ≤ position) (hto : position < span.2)
    (hblock : blocks[position]? = some block) :
    position = span.1 ↔ position = 0 ∨ symbols.subroutines.contains block.start = true := by
  constructor
  · rintro rfl
    exact (eq_zero_or_mem_tail_spans hspan).imp_right fun hlater =>
      called_of_mem_tail_spans hlater hblock
  · intro hstart
    obtain ⟨head, tail, heq, hfree⟩ := exists_cons_of_mem_splitBy (extract_mem_divide hspan)
    by_contra hother
    obtain ⟨offset, hoffset⟩ : ∃ offset, position - span.1 = offset + 1 :=
      ⟨position - span.1 - 1, by omega⟩
    have hinside : (blocks.extract span.1 span.2)[position - span.1]? = some block := by
      rw [List.extract_eq_take_drop, List.getElem?_take_of_lt (by omega), List.getElem?_drop,
        Nat.add_sub_cancel' hfrom, hblock]
    rw [heq, hoffset, List.getElem?_cons_succ] at hinside
    have hcalled := hfree block (List.mem_of_getElem? hinside)
    rcases hstart with hzero | hstart
    · omega
    · rw [hstart] at hcalled
      cases hcalled

end Routine

/-! ### Returns -/

namespace Node

theorem alone_eq_of_walk {node other : Node} (h : node.walk.map alone = other.walk.map alone) :
    node.alone = other.alone := by
  rw [walk_eq, walk_eq other, List.map_cons, List.map_cons] at h
  exact (List.cons.inj h).1

theorem map_heading_of_walks {nodes others : List Node}
    (h : (nodes.map fun node => node.walk.map alone) = others.map fun node => node.walk.map alone) :
    nodes.map heading = others.map heading := by
  have hheading (nodes : List Node) :
      (nodes.map heading).map some
        = (nodes.map fun node => node.walk.map alone).map fun walk => walk.head?.map heading := by
    rw [List.map_map, List.map_map]
    refine List.map_congr_left fun node _ => ?_
    rw [Function.comp_apply, Function.comp_apply, walk_eq]
    rfl
  refine List.map_injective_iff.mpr (Option.some_injective _) ?_
  rw [hheading, hheading, h]

/-- How and where a tree returns. -/
def returns (node : Node) : List (String × Option Address) :=
  (node.walk.filter (·.kind == .leave)).map fun part => (part.value, part.address)

theorem mem_returns {node : Node} {value : String} {address : Option Address} :
    (value, address) ∈ node.returns ↔ ∃ part ∈ node.walk, part.kind = .leave ∧ part.value = value ∧
      part.address = address := by
  simp [returns, and_assoc]

theorem returns_eq_of_alone {node other : Node} (h : node.walk.map alone = other.walk.map alone) :
    node.returns = other.returns := by
  have hreturns (node : Node) :
      node.returns = ((node.walk.map alone).filter (·.kind == .leave)).map fun part =>
        (part.value, part.address) := by
    rw [List.filter_map, List.map_map]
    rfl
  rw [hreturns node, hreturns other, h]

end Node

namespace Program

variable {symbols : SymbolTable}

/-- How a return in the routine at an entry says what it does. -/
def returnValue (symbols : SymbolTable) (entry : Address) (instruction : Instruction) : String :=
  if instruction.mnemonic = .rti then "interrupt"
  else if symbols.subroutines.contains entry then ""
  else "exit"

theorem returnValue_eq_interrupt {entry : Address} {instruction : Instruction} :
    returnValue symbols entry instruction = "interrupt" ↔ instruction.mnemonic = .rti := by
  unfold returnValue
  by_cases hrti : instruction.mnemonic = .rti
  · simp [hrti]
  · rw [if_neg hrti]
    split <;> simp [hrti]

theorem returnValue_eq_exit {entry : Address} {instruction : Instruction} :
    returnValue symbols entry instruction = "exit" ↔
      instruction.mnemonic ≠ .rti ∧ symbols.subroutines.contains entry = false := by
  unfold returnValue
  by_cases hrti : instruction.mnemonic = .rti
  · simp [hrti]
  · cases symbols.subroutines.contains entry <;> simp [hrti]

/-- The routine of a segment returns where its instructions do. -/
theorem Part.IsFrom.mem_returns_iff {first : Block} {rest : List Block} {part : Part}
    (h : part.IsFrom symbols (first :: rest)) {value : String} {address : Option Address} :
    (value, address) ∈ part.function.returns ↔
      ∃ i ∈ Block.instructionsOf (first :: rest), i.leaves = true ∧
      value = returnValue symbols first.start i ∧
        address = some i.address := by
  obtain ⟨_, _, children, heq, hfunction, hcarries⟩ := h
  cases heq
  rw [Node.mem_returns, hfunction]
  constructor
  · rintro ⟨node, hnode, hkind, rfl, rfl⟩
    obtain ⟨below, hbelow, hsame, halone⟩ :=
      exists_below_of_mem_routineNode hnode (by rw [hkind]; decide)
    have hbelowKind : below.kind = .leave := hsame.trans hkind
    obtain ⟨i, hi, hstatement⟩ := hcarries.traced below hbelow (by rw [hbelowKind]; rfl)
    have hleaveKind : (Statement.ofInstruction symbols i).kind = .leave := by
      rw [← hstatement]
      exact hbelowKind
    have hleaves := Statement.leave_cases hleaveKind
    rw [hstatement, finished_ofInstruction first.start hleaves] at halone
    exact ⟨i, hi, hleaves, congrArg Node.value halone, congrArg Node.address halone⟩
  · rintro ⟨i, hi, hleaves, rfl, rfl⟩
    obtain ⟨node, hnode, halone⟩ :=
      exists_mem_routineNode first.start (hcarries.leaves i hi hleaves)
    rw [Statement.alone_ofInstruction, finished_ofInstruction first.start hleaves] at halone
    exact ⟨node, hnode, congrArg Node.kind halone, congrArg Node.value halone,
      congrArg Node.address halone⟩

theorem Part.IsFrom.returns_template {segment : List Block} {part : Part}
    (h : part.IsFrom symbols segment) : ∀ template ∈ part.templates, template.returns = [] := by
  obtain ⟨_, _, _, _, _, hcarries⟩ := h
  intro template htemplate
  refine List.map_eq_nil_iff.mpr (List.filter_eq_nil_iff.mpr fun node hnode hleave => ?_)
  have hkind : node.kind = .leave := by simpa using hleave
  obtain ⟨hcall, -⟩ := hcarries.cut node (Node.mem_walkAll.mpr ⟨template, htemplate, hnode⟩)
    (by rw [hkind]; rfl)
  rw [hkind] at hcall
  cases hcall

/-! ### Routines of spans -/

/-- A routine is that of a span of blocks: the first block says where it starts and what it is
called, and it returns where the instructions in the span do. -/
def IsRoutineOf (symbols : SymbolTable) (blocks : List Block) (span : Nat × Nat)
    (function : Node) : Prop :=
  ∃ first, blocks[span.1]? = some first ∧ function.kind = .function ∧ function.params = [] ∧
    function.heading = Routine.routineHeading symbols first.start ∧
    ∀ value address, (value, address) ∈ function.returns ↔
      ∃ i ∈ Block.instructionsOf (blocks.extract span.1 span.2), i.leaves = true ∧
        value = returnValue symbols first.start i ∧ address = some i.address

theorem params_routineNode (entry : Address) (children : List Node) :
    (routineNode symbols entry children).params = [] := by
  unfold routineNode
  split
  · rfl
  · rw [Node.endProgram_eq]

theorem heading_routineNode (entry : Address) (children : List Node) :
    (routineNode symbols entry children).heading = Routine.routineHeading symbols entry := by
  unfold routineNode Routine.routineHeading
  split
  · rfl
  · rw [Node.heading_endProgram rfl]
    rfl

theorem isRoutineOf_of_isFrom {blocks : List Block} {span : Nat × Nat} {part : Part}
    {function : Node} (h : part.IsFrom symbols (blocks.extract span.1 span.2))
    (hsame : part.function.walk.map Node.alone = function.walk.map Node.alone) :
    IsRoutineOf symbols blocks span function := by
  obtain ⟨first, rest, children, hsegment, hfunction, hcarries⟩ := h
  obtain ⟨hkind, hvalue, hparams, haddress⟩ := Node.of_alone_eq (Node.alone_eq_of_walk hsame)
  refine ⟨first, getElem?_of_extract_eq_cons hsegment, ?_, ?_, ?_, fun value address => ?_⟩
  · rw [← hkind, hfunction, kind_routineNode]
  · rw [← hparams, hfunction, params_routineNode]
  · rw [← heading_routineNode first.start children, ← hfunction, Node.heading, Node.heading, hvalue,
      haddress]
  · rw [hsegment] at hcarries ⊢
    rw [← Node.returns_eq_of_alone hsame]
    exact Part.IsFrom.mem_returns_iff ⟨first, rest, children, rfl, hfunction, hcarries⟩

/-- Placing labels leaves the routines of a program what they are. -/
theorem map_walk_children (symbols : SymbolTable) (blocks : List Block) :
    ((build symbols blocks).root.children.map fun child => child.walk.map Node.alone)
      = (unlabelled symbols blocks).children.map fun child => child.walk.map Node.alone := by
  rw [build_root, Node.placeLabels_eq]
  exact Node.map_walk_placeLabelsAll
    (fun node _ pending => Node.map_alone_walk_placeLabels pending node) _

/-- The tree of ascending code holds one routine for each span, in their order, and behind them the
templates. -/
theorem exists_routines (symbols : SymbolTable) {instructions : List Instruction}
    (hascending : Ascending instructions) :
    ∃ functions templates,
      (build symbols (Block.partition instructions)).root.children = functions ++ templates ∧
      List.Forall₂ (IsRoutineOf symbols (Block.partition instructions))
        (Routine.spans symbols (Block.partition instructions)) functions ∧
      templates.map Node.heading
        = (templateStarts symbols (Block.partition instructions)).map Routine.templateHeading ∧
      ∀ template ∈ templates, template.kind = .function ∧ template.returns = [] := by
  obtain ⟨parts, hparts, hfunctions, htemplates⟩ := exists_parts symbols hascending
  have hwalks := map_walk_children symbols (Block.partition instructions)
  rw [unlabelled, List.map_append] at hwalks
  obtain ⟨functions, templates, hchildren, hfunctionWalks, htemplateWalks⟩ :=
    List.map_eq_append_iff.mp hwalks
  refine ⟨functions, templates, hchildren, ?_, ?_, fun template htemplate => ⟨?_, ?_⟩⟩
  · have hwalked : List.Forall₂
        (fun span walk => ∃ part : Part,
          part.IsFrom symbols ((Block.partition instructions).extract span.1 span.2) ∧
          part.function.walk.map Node.alone = walk)
        (Routine.spans symbols (Block.partition instructions))
        (parts.map fun part => part.function.walk.map Node.alone) := by
      rw [← Routine.map_extract_spans, List.forall₂_map_left_iff] at hparts
      exact List.forall₂_map_right_iff.mpr (hparts.imp fun span part hfrom => ⟨part, hfrom, rfl⟩)
    rw [hfunctions, List.map_map] at hfunctionWalks
    change functions.map _ = parts.map fun part => part.function.walk.map Node.alone
        at hfunctionWalks
    rw [← hfunctionWalks, List.forall₂_map_right_iff] at hwalked
    refine hwalked.imp fun span function hpart => ?_
    obtain ⟨part, hfrom, hsame⟩ := hpart
    exact isRoutineOf_of_isFrom hfrom hsame
  · exact (Node.map_heading_of_walks htemplateWalks).trans (headed_routines symbols _).templates
  · refine ((isTree_build symbols (Block.partition instructions)).routines template ?_).kind
    rw [hchildren]
    exact List.mem_append_right functions htemplate
  · have hmem := List.mem_map_of_mem (f := fun child : Node => child.walk.map Node.alone) htemplate
    rw [htemplateWalks, htemplates] at hmem
    obtain ⟨own, hown, hsame⟩ := List.mem_map.mp hmem
    obtain ⟨part, hpart, hown⟩ := List.mem_flatMap.mp hown
    obtain ⟨segment, hsegment, hfrom⟩ := exists_left_of_forall₂ hparts hpart
    rw [← Node.returns_eq_of_alone hsame]
    exact hfrom.returns_template own hown

/-! ### Subroutines -/

/-- Whether the subroutines among some routines are the called ones among the segments that they
were built from. -/
def Routines.Entered (symbols : SymbolTable) (segments : List (List Block))
    (routines : Routines) : Prop :=
  ∀ target name, routines.subroutines[target]? = some name ↔
    target ∈ (segments.filterMap List.head?).map (·.start) ∧
    symbols.subroutines.contains target = true ∧
      name = symbols.codeName target

theorem entered_add {segments : List (List Block)} {routines : Routines}
    (h : routines.Entered symbols segments) (segment : List Block) :
    (routines.add symbols segment).Entered symbols (segments ++ [segment]) := by
  intro target name
  cases segment with
  | nil =>
    rw [List.filterMap_append]
    simpa [Routines.add] using h target name
  | cons first rest =>
    rw [List.filterMap_append, List.filterMap_cons_some List.head?_cons, List.filterMap_nil,
      List.map_append, List.mem_append, List.map_singleton, List.mem_singleton]
    unfold Routines.add
    simp only
    split
    · rename_i hcalled
      rw [Std.ExtTreeMap.getElem?_insert]
      by_cases htarget : first.start = target
      · subst htarget
        rw [if_pos Std.ReflCmp.compare_self]
        simp [hcalled, eq_comm]
      · rw [if_neg fun heq => htarget (Std.LawfulEqCmp.eq_of_compare heq), h target name]
        simp [Ne.symm htarget]
    · rename_i hfree
      rw [h target name]
      refine and_congr_left fun hcalled => (or_iff_left ?_).symm
      rintro rfl
      exact hfree hcalled.1

/-- A program has a subroutine for each block that is called. -/
theorem subroutines_build (symbols : SymbolTable) (blocks : List Block) (target : Address)
    (name : String) :
    (build symbols blocks).subroutines[target]? = some name ↔
      symbols.subroutines.contains target = true ∧ (∃ block ∈ blocks, block.start = target) ∧
        name = symbols.codeName target := by
  have hnone : Routines.Entered symbols [] {} := fun target name => by simp
  have hentered : (routines symbols blocks).Entered symbols (Routine.divide symbols blocks) :=
    foldl_add_induction (motive := Routines.Entered symbols)
      (fun _ _ segment h => entered_add h segment) hnone _
  refine (hentered target name).trans ?_
  rw [← Routine.entries_eq_divide, Routine.mem_entries]
  constructor
  · rintro ⟨⟨-, hstart⟩, hcalled, hname⟩
    exact ⟨hcalled, hstart, hname⟩
  · rintro ⟨hcalled, hstart, hname⟩
    exact ⟨⟨Or.inr hcalled, hstart⟩, hcalled, hname⟩

/-! ### Ends of the program and of interrupts -/

theorem IsRoutineOf.exists_first {blocks : List Block} {span : Nat × Nat} {function : Node}
    (h : IsRoutineOf symbols blocks span function) :
    ∃ first, blocks[span.1]? = some first ∧ function.address = some first.start := by
  obtain ⟨first, hfirst, -, -, hheading, -⟩ := h
  exact ⟨first, hfirst, congrArg Prod.snd hheading⟩

theorem IsRoutineOf.exit_not_mem {blocks : List Block} {span : Nat × Nat} {function : Node}
    (h : IsRoutineOf symbols blocks span function) {entry : Address}
    (hentry : function.address = some entry) (hcalled : symbols.subroutines.contains entry = true)
    (address : Option Address) : ("exit", address) ∉ function.returns := by
  obtain ⟨first, -, -, -, hheading, hreturns⟩ := h
  obtain rfl : first.start = entry :=
    Option.some.inj ((congrArg Prod.snd hheading).symm.trans hentry)
  intro hexit
  obtain ⟨i, -, -, hvalue, -⟩ := (hreturns _ _).mp hexit
  have hfree := (returnValue_eq_exit.mp hvalue.symm).2
  rw [hcalled] at hfree
  cases hfree

theorem IsRoutineOf.exit_or_interrupt {blocks : List Block} {span : Nat × Nat} {function : Node}
    (h : IsRoutineOf symbols blocks span function) {entry : Address}
    (hentry : function.address = some entry) (hfree : symbols.subroutines.contains entry = false)
    {value : String} {address : Option Address} (hmem : (value, address) ∈ function.returns) :
    value = "exit" ∨ value = "interrupt" := by
  obtain ⟨first, -, -, -, hheading, hreturns⟩ := h
  obtain rfl : first.start = entry :=
    Option.some.inj ((congrArg Prod.snd hheading).symm.trans hentry)
  obtain ⟨i, -, -, rfl, -⟩ := (hreturns _ _).mp hmem
  by_cases hrti : i.mnemonic = .rti
  · exact Or.inr (returnValue_eq_interrupt.mpr hrti)
  · exact Or.inl (returnValue_eq_exit.mpr ⟨hrti, hfree⟩)

theorem mem_returns_root (symbols : SymbolTable) (blocks : List Block) {value : String}
    {address : Option Address} :
    (value, address) ∈ (build symbols blocks).root.returns ↔
      ∃ function ∈ (build symbols blocks).root.children, (value, address) ∈ function.returns := by
  simp only [Node.mem_returns]
  rw [Node.walk_eq]
  constructor
  · rintro ⟨part, hpart, hkind, hsays⟩
    rcases List.mem_cons.mp hpart with rfl | hbelow
    · rw [(isTree_build symbols blocks).kind] at hkind
      cases hkind
    · obtain ⟨function, hfunction, hpart⟩ := Node.mem_walkAll.mp hbelow
      exact ⟨function, hfunction, part, hpart, hkind, hsays⟩
  · rintro ⟨function, hfunction, part, hpart, hsays⟩
    exact ⟨part, List.mem_cons_of_mem _ (Node.mem_walkAll.mpr ⟨function, hfunction, hpart⟩), hsays⟩

/-- Where routines are those of spans, returns from interrupts are those of the code. -/
theorem interrupt_mem_returns_iff (symbols : SymbolTable) {instructions : List Instruction}
    (hascending : Ascending instructions) (address : Option Address) :
    ("interrupt", address) ∈ (build symbols (Block.partition instructions)).root.returns ↔
      ∃ i ∈ instructions, i.mnemonic = .rti ∧ i.operand = .implied ∧ address = some i.address := by
  obtain ⟨functions, templates, hchildren, hroutines, -, htemplates⟩ :=
    exists_routines symbols hascending
  have hleaves {i : Instruction} (hrti : i.mnemonic = .rti) : i.leaves = true ↔
      i.operand = .implied := by
    simp [Instruction.leaves, hrti, Mnemonic.isReturn]
  rw [mem_returns_root, hchildren]
  constructor
  · rintro ⟨function, hfunction, hreturn⟩
    rcases List.mem_append.mp hfunction with hfunction | htemplate
    · obtain ⟨span, hspan, first, -, -, -, -, hreturns⟩ :=
        exists_left_of_forall₂ hroutines hfunction
      obtain ⟨i, hi, hleave, hvalue, haddress⟩ := (hreturns _ _).mp hreturn
      have hrti := returnValue_eq_interrupt.mp hvalue.symm
      refine ⟨i, (mem_instructions_iff symbols).mpr ⟨_, ?_, hi⟩, hrti, (hleaves hrti).mp hleave,
        haddress⟩
      exact Routine.extract_mem_divide hspan
    · rw [(htemplates function htemplate).2] at hreturn
      cases hreturn
  · rintro ⟨i, hi, hrti, hoperand, rfl⟩
    obtain ⟨segment, hsegment, hi⟩ := (mem_instructions_iff symbols).mp hi
    rw [← Routine.map_extract_spans] at hsegment
    obtain ⟨span, hspan, rfl⟩ := List.mem_map.mp hsegment
    obtain ⟨function, hfunction, first, -, -, -, -, hreturns⟩ :=
      exists_right_of_forall₂ hroutines hspan
    refine ⟨function, List.mem_append_left _ hfunction,
      (hreturns _ _).mpr ⟨i, hi, (hleaves hrti).mpr hoperand, ?_, rfl⟩⟩
    exact (returnValue_eq_interrupt.mpr hrti).symm

/-- Only the first routine of a program can end it, and it does so unless it is called. -/
theorem exits_of_children (symbols : SymbolTable) {instructions : List Instruction}
    (hascending : Ascending instructions) {main : Node} {others : List Node} {entry : Address}
    (hchildren : (build symbols (Block.partition instructions)).root.children = main :: others)
    (hentry : main.address = some entry) :
    (symbols.subroutines.contains entry = false →
      ∀ value address, (value, address) ∈ main.returns → value = "exit" ∨ value = "interrupt") ∧
    (symbols.subroutines.contains entry = true → ∀ address, ("exit", address) ∉ main.returns) ∧
    ∀ function ∈ others, ∀ address, ("exit", address) ∉ function.returns := by
  obtain ⟨functions, templates, hsplit, hroutines, -, htemplates⟩ :=
    exists_routines symbols hascending
  have hstill : ∀ template ∈ templates, ∀ back, back ∉ template.returns := by
    intro template htemplate back hback
    rw [(htemplates template htemplate).2] at hback
    cases hback
  rw [hsplit] at hchildren
  generalize hspans : Routine.spans symbols (Block.partition instructions) = spans at hroutines
  cases hroutines with
  | nil =>
    rw [List.nil_append] at hchildren
    rw [hchildren] at hstill
    obtain ⟨hmain, hothers⟩ := List.forall_mem_cons.mp hstill
    exact ⟨fun _ value address hmem => absurd hmem (hmain _), fun _ address => hmain _,
      fun function hfunction address => hothers function hfunction _⟩
  | cons hmain hlater =>
    obtain ⟨rfl, rfl⟩ := List.cons.inj hchildren
    refine ⟨fun hfree value address hmem => hmain.exit_or_interrupt hentry hfree hmem,
      fun hcalled address => hmain.exit_not_mem hentry hcalled address,
      fun function hfunction address => ?_⟩
    rcases List.mem_append.mp hfunction with hfunction | htemplate
    · obtain ⟨span, hspan, hroutine⟩ := exists_left_of_forall₂ hlater hfunction
      obtain ⟨first, hfirst, haddress⟩ := hroutine.exists_first
      refine hroutine.exit_not_mem haddress (Routine.called_of_mem_tail_spans ?_ hfirst) address
      rw [hspans]
      exact hspan
    · exact hstill function htemplate _

/-- The routines of the program for a listing. They span all blocks, one behind the other; each
starts at the first block or at one that is called, and no other block in it is called. The tree
holds one routine for each span, and behind them the templates; and the subroutines are the blocks
that are called. The routine in front of the first subroutine ends the program where it returns, and
no other routine does; and a return says that it ends an interrupt where the listing does. -/
theorem routines_span_blocks (text : String) (sources : Sources) :
    let instructions := (Listing.read text).instructions
    let blocks := Block.partition instructions
    let symbols := SymbolTable.resolve (Listing.read text).candidates sources
    let program := ofListing symbols text
    let called (target : Address) := ∃ call ∈ instructions, call.callTarget? = some target
    (∀ span ∈ Routine.spans symbols blocks, span.1 < span.2) ∧
    (Routine.spans symbols blocks).IsChain (fun span next => span.2 = next.1) ∧
    (∀ position, position < blocks.length ↔
      ∃ span ∈ Routine.spans symbols blocks, span.1 ≤ position ∧ position < span.2) ∧
    (∀ span ∈ Routine.spans symbols blocks, ∀ position block, span.1 ≤ position →
      position < span.2 →
      blocks[position]? = some block → (position = span.1 ↔ position = 0 ∨ called block.start)) ∧
    (∃ functions templates, program.root.children = functions ++ templates ∧
      List.Forall₂ (IsRoutineOf symbols blocks) (Routine.spans symbols blocks) functions ∧
      templates.map Node.heading = (templateStarts symbols blocks).map Routine.templateHeading ∧
      ∀ template ∈ templates, template.kind = .function ∧ template.returns = []) ∧
    (∀ target name, program.subroutines[target]? = some name ↔
      called target ∧ (∃ block ∈ blocks, block.start = target) ∧ name = symbols.codeName target) ∧
    (∀ main others entry, program.root.children = main :: others → main.address = some entry →
      (¬ called entry → ∀ value address, (value, address) ∈ main.returns →
        value = "exit" ∨ value = "interrupt") ∧
      (called entry → ∀ address, ("exit", address) ∉ main.returns) ∧
      ∀ function ∈ others, ∀ address, ("exit", address) ∉ function.returns) ∧
    ∀ address, ("interrupt", address) ∈ program.root.returns ↔
      ∃ i ∈ instructions, i.mnemonic = .rti ∧ i.operand = .implied ∧ address = some i.address := by
  intro instructions blocks symbols program called
  have hascending : Ascending instructions := Listing.ascending_read text
  have hcalled {target : Address} : symbols.subroutines.contains target = true ↔ called target :=
    contains_subroutines_resolve
  have hblocks : blocks = Block.partition instructions := rfl
  have hprogram : program = build symbols blocks := rfl
  -- Nothing below depends on where the instructions and names come from, apart from their order and
  -- what is called.
  clear_value program symbols blocks instructions
  subst hprogram hblocks
  refine ⟨fun span => Routine.lt_of_mem_spans, Routine.isChain_spansFrom _ 0,
    fun position => Routine.exists_mem_spans_iff.symm, ?_,
    exists_routines symbols hascending, ?_, ?_, interrupt_mem_returns_iff symbols hascending⟩
  · intro span hspan position block hfrom hto hblock
    rw [← hcalled]
    exact Routine.start_iff_of_mem_spans hspan hfrom hto hblock
  · intro target name
    rw [← hcalled]
    exact subroutines_build symbols _ target name
  · intro main others entry hchildren hentry
    rw [← hcalled, Bool.not_eq_true]
    exact exits_of_children symbols hascending hchildren hentry

end Program

end Lift6502
