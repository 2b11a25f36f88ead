import Lift6502.Proofs.Routine.CounterTexts
import Lift6502.Proofs.Routine.Declarations
import Lift6502.Proofs.Routine.FunctionNames
import Lift6502.Proofs.Routine.Pieces
import Lift6502.Proofs.Shape.Records
import Lift6502.Proofs.Tree.OperandTexts

/-!
# Records in the tree

A field is written as two names with a dot between them, and no other text that is assigned to has
this form: names and numbers have no dot, and all else begins with a bracket. So whatever is
assigned to a field is the statement of a store in a block that was recognised as a record, and
stands below the node that defines the record and lists the field. The records of a program are
those of its matches, in order, one for each match.
-/

namespace Lift6502

/-! ### Names of records and fields -/

namespace Routine

/-- The text of a field of the record at an address. -/
def fieldText (base : Address) (number : Nat) : String := recordName base ++ "." ++ fieldName number

theorem isName_recordName (base : Address) : Text.IsName (recordName base) :=
  Text.IsName.append ⟨by decide, List.all_eq_true.mp (by decide)⟩ Text.isNameChar_of_mem_hex4

theorem isName_fieldName (number : Nat) : Text.IsName (fieldName number) :=
  Text.IsName.append ⟨by decide, List.all_eq_true.mp (by decide)⟩ Text.isNameChar_of_mem_decimal

theorem recordName_injective : Function.Injective recordName := by
  intro left right h
  exact (SymbolTable.qualify_inj
    (show SymbolTable.qualify "STRUCT" left = SymbolTable.qualify "STRUCT" right from h)).2

theorem fieldName_injective : Function.Injective fieldName := by
  intro left right h
  exact Text.decimal_injective (String.append_right_inj _ |>.mp h)

theorem fieldText_inj {base other : Address} {number number' : Nat}
    (h : fieldText base number = fieldText other number') : base = other ∧ number = number' := by
  have htext (base : Address) (number : Nat) :
      (fieldText base number).toList
        = (recordName base).toList ++ '.' :: (fieldName number).toList := by
    simp [fieldText]
  have hchars := congrArg String.toList h
  rw [htext, htext, List.append_cons_inj_of_notMem (isName_recordName base).dot_not_mem
    (isName_fieldName number).dot_not_mem]
    at hchars
  exact ⟨recordName_injective (String.toList_inj.mp hchars.1),
    fieldName_injective (String.toList_inj.mp hchars.2.2)⟩

theorem dot_mem_fieldText (base : Address) (number : Nat) :
    '.' ∈ (fieldText base number).toList := by
  simp [fieldText]

end Routine

/-! ### Texts without dots -/

theorem Text.dot_not_mem_decimal (number : Nat) : '.' ∉ (decimal number).toList := by
  intro hdot
  exact absurd (isNameChar_of_mem_decimal '.' hdot) (by decide)

namespace Operand

variable {symbols : SymbolTable} {operand : Operand} {text : String}

theorem dot_not_mem_of_value? (hlegible : operand.IsLegible)
    (hnames : ∀ address, Text.IsName (symbols.dataName address))
    (h : operand.value? symbols = some text) : '.' ∉ text.toList := by
  cases operand with
  | implied => cases h
  | indirect address => cases h
  | accumulator =>
    obtain rfl := Option.some.inj h
    decide
  | immediate value =>
    obtain rfl := Option.some.inj h
    exact Text.dot_not_mem_decimal _
  | absolute address =>
    obtain rfl := Option.some.inj h
    exact (hnames address).dot_not_mem
  | indexed base index =>
    obtain rfl := Option.some.inj h
    have hindex : '.' ∉ index.text.toList := by cases index <;> decide
    simp [Text.toList_memoryText, (hnames base).dot_not_mem, hindex]
  | indirectIndexed pointer index =>
    cases index with
    | x =>
      obtain rfl := Option.some.inj h
      simp [Text.toList_pointerText, (hnames pointer.toUInt16).dot_not_mem]
    | y =>
      obtain rfl := Option.some.inj h
      simp [Text.toList_pointerText, (hnames pointer.toUInt16).dot_not_mem]
  | symbolic label =>
    obtain rfl := Option.some.inj h
    exact (isName_of_isLegible hlegible).dot_not_mem

theorem value?_of_argument? (h : operand.argument? symbols = some text) :
    operand.value? symbols = some text := by
  cases operand <;> first | exact h | cases h

theorem value?_of_place? (h : operand.place? symbols = some text) :
    operand.value? symbols = some text := by
  cases operand <;> first | exact h | cases h

theorem cases_of_shifted? (h : operand.shifted? symbols = some text) :
    text = "A" ∨ operand.value? symbols = some text := by
  cases operand
  case implied | accumulator => exact Or.inl (Option.some.inj h).symm
  all_goals exact Or.inr (value?_of_place? h)

end Operand

namespace Statement

variable {symbols : SymbolTable} {operation : Operation} {node : Node}

theorem dot_not_mem_of_operator? {mnemonic : Mnemonic} {operator : String}
    (h : mnemonic.operator? = some operator) : '.' ∉ operator.toList := by
  cases mnemonic <;> cases h <;> decide

theorem dot_not_mem_of_implied? {mnemonic : Mnemonic} (h : implied? mnemonic = some node) :
    ∀ text ∈ node.params, '.' ∉ text.toList := by
  cases mnemonic <;> cases h
    <;> first | exact List.forall_mem_nil _ | exact List.forall_mem_cons.mpr (by decide)

/-- A call is one of the ROM, or of a routine by the text of the operand. -/
theorem call?_cases {operand : Operand} (h : call? symbols operand = some node) :
    node.kind = .romCall ∨ node.kind = .subCall ∧ operand.codeLabel? symbols = some node.value := by
  have hplain
      (h : (operand.codeLabel? symbols).map
        (fun name => ({ kind := .subCall, value := name } : Node)) = some node) :
      node.kind = .subCall ∧ operand.codeLabel? symbols = some node.value := by
    obtain ⟨name, hname, rfl⟩ := Option.map_eq_some_iff.mp h
    exact ⟨rfl, hname⟩
  unfold call? at h
  split at h
  · split at h
    · obtain rfl := Option.some.inj h
      exact Or.inl rfl
    · exact Or.inr (hplain h)
  · exact Or.inr (hplain h)

/-- No statement of an operation assigns to or from a text with a dot, if its operand has no such
text. -/
theorem dot_not_mem_of_rule?
    (hvalue : ∀ text, operation.operand.value? symbols = some text → '.' ∉ text.toList)
    (h : rule? symbols operation = some node) (hkind : node.kind = .assign) :
    ∀ text ∈ node.params, '.' ∉ text.toList := by
  have hmap {operand : Option String} {make : String → Node}
      (hoperand : ∀ text, operand = some text → '.' ∉ text.toList)
      (hmake : ∀ text, '.' ∉ text.toList → ∀ param ∈ (make text).params, '.' ∉ param.toList)
        (h : operand.map make = some node) :
      ∀ text ∈ node.params, '.' ∉ text.toList := by
    obtain ⟨text, htext, rfl⟩ := Option.map_eq_some_iff.mp h
    exact hmake text (hoperand text htext)
  have hargument : ∀ text, operation.operand.argument? symbols = some text → '.' ∉ text.toList :=
    fun text htext => hvalue text (Operand.value?_of_argument? htext)
  have hplace : ∀ text, operation.operand.place? symbols = some text → '.' ∉ text.toList :=
    fun text htext => hvalue text (Operand.value?_of_place? htext)
  have hshifted : ∀ text, operation.operand.shifted? symbols = some text → '.' ∉ text.toList := by
    intro text htext
    rcases Operand.cases_of_shifted? htext with rfl | htext
    · decide
    · exact hvalue text htext
  simp only [rule?] at h
  split at h
  case h_1 | h_2 | h_3 => exact hmap hargument (fun text htext => by simp [copy, htext]) h
  case h_4 | h_5 | h_6 => exact hmap hplace (fun text htext => by simp [copy, htext]) h
  case h_7 | h_8 => exact hmap hplace (fun text htext => by simp [update, htext]) h
  case h_9 | h_10 | h_11 | h_12 => exact hmap hshifted (fun text htext => by simp [update, htext]) h
  case h_19 =>
    split at h
    · rename_i operator hoperator
      have hdot := dot_not_mem_of_operator? hoperator
      exact hmap hargument (fun text htext => by simp [update, htext, hdot]) h
    · obtain ⟨label, _, rfl⟩ := Option.map_eq_some_iff.mp h
      cases hkind
    · split at h
      · exact dot_not_mem_of_implied? h
      · cases h
  case h_17 => rcases call?_cases h with hcall | ⟨hcall, -⟩ <;> rw [hcall] at hkind <;> cases hkind
  all_goals
    obtain ⟨text, _, rfl⟩ := Option.map_eq_some_iff.mp h
    cases hkind

end Statement

/-! ### Nodes that have nothing to do with records -/

namespace Routine

/-- Whether a text is the text of a field. -/
def IsField (text : String) : Prop := ∃ base number, text = fieldText base number

theorem not_isField_of_dot_not_mem {text : String} (h : '.' ∉ text.toList) : ¬ IsField text := by
  rintro ⟨base, number, rfl⟩
  exact h (dot_mem_fieldText base number)

theorem not_isField_of_head? {text : String} (h : text.toList.head? = some '[') :
    ¬ IsField text := by
  rintro ⟨base, number, rfl⟩
  simp [fieldText, recordName] at h

theorem not_isField_memoryText (base index : String) :
    ¬ IsField (Reference.memoryText base index) :=
  not_isField_of_head? (by rw [Text.toList_memoryText, List.head?_cons])

theorem not_isField_pointerText (base index : String) :
    ¬ IsField (Reference.pointerText base index) :=
  not_isField_of_head? (by rw [Text.toList_pointerText, List.head?_cons])

theorem dot_not_mem_scaledCounter (variation : Variation) :
    '.' ∉ (scaledCounter variation).toList := by
  have hstride : '.' ∉ (Text.decimalInt (variation.stride.getD 1)).toList := by
    intro hdot
    exact absurd (Text.isNumeral_of_mem_decimalInt '.' hdot) (by decide)
  unfold scaledCounter
  split
  · decide
  · simp [unrollCounter, hstride]

theorem not_isField_folded (symbols : SymbolTable) (usage : Usage) (variation : Variation) :
    ¬ IsField (folded symbols usage variation).2 := by
  have hcounter := dot_not_mem_scaledCounter variation
  unfold folded
  split
  · refine not_isField_of_dot_not_mem ?_
    split
    · exact hcounter
    · simp [Text.dot_not_mem_decimal, hcounter]
  · exact not_isField_memoryText _ _
  · exact not_isField_of_dot_not_mem hcounter

theorem not_isField_parameterText (operand : Operand) (slot : Nat) :
    ¬ IsField (parameterText operand slot) := by
  cases operand
  case immediate => exact not_isField_of_dot_not_mem (isName_parameterName slot).dot_not_mem
  all_goals exact not_isField_pointerText _ _

end Routine

namespace Node

theorem IsStatement.ne_structDef {node : Node} (h : node.IsStatement) : node.kind ≠ .structDef := by
  intro hkind
  have hstatement := h.kind
  rw [hkind] at hstatement
  cases hstatement

/-- A node that defines no record and does not assign to a field. -/
structure Plain (node : Node) : Prop where
  kind : node.kind ≠ .structDef
  params : node.kind = .assign → ∀ text ∈ node.params, ¬ Routine.IsField text

theorem Plain.of_kind {node : Node} (hrecord : node.kind ≠ .structDef)
    (hassign : node.kind ≠ .assign) : node.Plain :=
  ⟨hrecord, fun h => absurd h hassign⟩

theorem plain_of_isMade (node : Node) (h : node.kind.isMade = true) : node.Plain := by
  refine Plain.of_kind (fun hkind => ?_) fun hkind => ?_ <;> rw [hkind] at h <;> cases h

theorem Plain.substitute {node : Node} (h : node.Plain) {new : String}
    (hnew : ¬ Routine.IsField new) (old : String) : (Routine.substitute old new node).Plain := by
  refine ⟨h.kind, fun hkind text htext => ?_⟩
  obtain ⟨param, hparam, rfl⟩ := List.mem_map.mp htext
  split
  · exact hnew
  · exact h.params hkind param hparam

end Node

namespace Routine

open Node (Each)

variable {symbols : SymbolTable} {found : Match}

theorem plain_ofInstruction (hnames : ∀ address, Text.IsName (symbols.dataName address))
    {i : Instruction} (hlegible : i.operand.IsLegible) :
    (Statement.ofInstruction symbols i).Plain := by
  refine ⟨(Statement.ofInstruction_isStatement symbols i).ne_structDef, ?_⟩
  cases hrule : Statement.rule? symbols i.toOperation with
  | none => simp [Statement.ofInstruction, hrule]
  | some node =>
    simp only [Statement.ofInstruction, hrule, Option.getD_some]
    intro hkind text htext
    refine not_isField_of_dot_not_mem
      (Statement.dot_not_mem_of_rule? (fun value hvalue => ?_) hrule hkind text htext)
    exact Operand.dot_not_mem_of_value? hlegible hnames hvalue

section Plain

variable (hown : ∀ i ∈ found.instructions, (Statement.ofInstruction symbols i).Plain)

include hown

theorem plain_cutOut {first : Block} {rest : List Block} (hblocks : found.blocks = first :: rest) :
    Each Node.Plain [cutOut symbols first rest] := by
  have hstatement : ∀ i ∈ first.body, Node.Plain { Statement.ofInstruction symbols i with
      address := none } := by
    intro i hi
    have hplain := hown i (Match.mem_instructions_of_mem_body (by simp [hblocks]) hi)
    exact ⟨hplain.kind, hplain.params⟩
  exact each_cutOut (Node.Plain.of_kind (by rintro ⟨⟩) (by rintro ⟨⟩)) hstatement fun i hi slot =>
    (hstatement i hi).substitute (not_isField_parameterText i.operand slot) _

theorem plain_structured (usage : Usage) (hshape : found.shape ≠ .record) :
    Each Node.Plain (structured symbols usage found).2 :=
  each_structured Node.plain_of_isMade hown
    (fun _ _ _ => Node.Plain.of_kind (by rintro ⟨⟩) (by rintro ⟨⟩)) usage
    (fun h => absurd h hshape) fun _ => each_unrolled Node.plain_of_isMade hown
      (fun i hi usage variation => (hown i hi).substitute
        (not_isField_folded symbols usage variation) _) usage

end Plain

/-! ### Fields of records -/

/-- The node that defines a record, and what closes its block. -/
theorem record_of_fills {base : Address} {block : Block} (h : found.Fills base block) :
    record symbols found
      = { kind := .structDef
          value := recordName base
          params := (List.range found.operands.length).map fieldName
          children := block.body.map (recordStatement symbols base)
          address := some block.start } ::
            (block.terminator?.map (Statement.ofInstruction symbols)).toList := by
  rw [record, h.subject, h.blocks]
  rfl

end Routine

namespace Node

/-- Whether what is assigned to a field right below a node is a store of one of some instructions to
the place of the field, and the node defines the record and lists the field. -/
def DeclaresFields (instructions : List Instruction) (node : Node) : Prop :=
  ∀ child ∈ node.children, child.kind = .assign → ∀ base number,
    child.params.head? = some (Routine.fieldText base number) →
    (node.kind = .structDef ∧ node.value = Routine.recordName base ∧
      Routine.fieldName number ∈ node.params) ∧
      ∃ i ∈ instructions, ∃ place, child.address = some i.address ∧ i.mnemonic = .sta ∧
      i.operand = .absolute place ∧
        place.toNat = base.toNat + number

variable {instructions : List Instruction} {node other : Node}

theorem DeclaresFields.of_resembles (h : other.DeclaresFields instructions)
    (hresembles : node.Resembles other) : node.DeclaresFields instructions := by
  intro child hchild hkind base number hparams
  obtain ⟨child', hchild', hbare⟩ := hresembles.exists_child hchild
  have hkind' : child'.kind = .assign := by rw [← bare_kind, ← hbare, bare_kind, hkind]
  have hparams' : child'.params.head? = some (Routine.fieldText base number) := by
    rw [← bare_params, ← hbare, bare_params, hparams]
  have haddress : child.address = child'.address := by rw [← bare_address, hbare, bare_address]
  obtain ⟨⟨hrecord, hvalue, hfield⟩, hstore⟩ := h child' hchild' hkind' base number hparams'
  rw [haddress]
  refine ⟨⟨hresembles.kind.trans hrecord, ?_, hresembles.params ▸ hfield⟩, hstore⟩
  refine (hresembles.value fun hleave => ?_).trans hvalue
  rw [hresembles.kind, hrecord] at hleave
  cases hleave

theorem DeclaresFields.mono {all : List Instruction} (h : node.DeclaresFields instructions)
    (hall : instructions ⊆ all) : node.DeclaresFields all := by
  intro child hchild hkind base number hparams
  obtain ⟨hrecord, i, hi, hstore⟩ := h child hchild hkind base number hparams
  exact ⟨hrecord, i, hall hi, hstore⟩

theorem declaresFields_of_plain (h : ∀ child ∈ node.children, child.kind = .assign → child.Plain) :
    node.DeclaresFields instructions := by
  intro child hchild hkind base number hparams
  exact absurd ⟨base, number, rfl⟩
    ((h child hchild hkind).params hkind _ (List.mem_of_head? hparams))

end Node

namespace Routine

open Node (Each)

variable {symbols : SymbolTable} {found : Match} {base : Address} {block : Block}

variable (hown : ∀ i ∈ found.instructions, (Statement.ofInstruction symbols i).Plain)

include hown

theorem declaresFields_record (h : found.Fills base block) (address : Option Address) :
    Node.DeclaresFields found.instructions
      { kind := .structDef
        value := recordName base
        params := (List.range found.operands.length).map fieldName
        children := block.body.map (recordStatement symbols base)
        address } := by
  intro child hchild hkind base' number hparams
  obtain ⟨i, hi, rfl⟩ := List.mem_map.mp hchild
  have hinside : i ∈ found.instructions :=
    Match.mem_instructions_of_mem_body (by simp [h.blocks]) hi
  cases hplace : Shape.storedPlace? i with
  | some place =>
    have hstatement : recordStatement symbols base i
        = { kind := .assign, params := [fieldText base (place - base).toNat, "A"],
            address := some i.address } := by
      simp only [recordStatement, hplace, fieldText]
    rw [hstatement] at hparams ⊢
    obtain ⟨hlow, hhigh⟩ := h.field i hi place hplace
    obtain ⟨rfl, hnumber⟩ := fieldText_inj (Option.some.inj hparams)
    rw [UInt16.toNat_sub_of_le _ _ hlow] at hnumber
    obtain rfl := hnumber
    obtain ⟨hmnemonic, hoperand⟩ := Shape.storedPlace?_eq_some.mp hplace
    have hle := UInt16.le_iff_toNat_le.mp hlow
    refine ⟨⟨rfl, rfl, List.mem_map.mpr ⟨_, List.mem_range.mpr hhigh, rfl⟩⟩, i, hinside, place, rfl,
      hmnemonic, hoperand, ?_⟩
    omega
  | none =>
    have hstatement : recordStatement symbols base i = Statement.ofInstruction symbols i := by
      simp only [recordStatement, hplace]
    rw [hstatement] at hkind hparams
    exact absurd ⟨base', number, rfl⟩ ((hown i hinside).params hkind _ (List.mem_of_head? hparams))

theorem declaresFields_structured (usage : Usage)
    (hfills : found.shape = .record → ∃ base block, found.Fills base block) :
    Each (Node.DeclaresFields found.instructions) (structured symbols usage found).2 := by
  by_cases hshape : found.shape = .record
  · obtain ⟨base, block, hfills⟩ := hfills hshape
    have hleaf {node : Node} (hstatement : node.IsStatement) :
        node.DeclaresFields found.instructions := by
      refine Node.declaresFields_of_plain ?_
      rw [hstatement.leaf]
      exact List.forall_mem_nil _
    rw [structured, hshape]
    simp only [record_of_fills hfills]
    refine Each.cons (Each.group (declaresFields_record hown hfills _) (Each.of_leaves ?_ ?_))
      (Each.of_leaves ?_ ?_)
    · exact List.forall_mem_map.mpr fun i _ => (recordStatement_isStatement symbols base i).leaf
    · exact List.forall_mem_map.mpr fun i _ => hleaf (recordStatement_isStatement symbols base i)
    · exact fun node hnode => (isStatement_of_mem_terminator symbols hnode).leaf
    · exact fun node hnode => hleaf (isStatement_of_mem_terminator symbols hnode)
  · intro node hnode
    exact Node.declaresFields_of_plain fun child hchild _ =>
      (plain_structured hown usage hshape).child hnode hchild

/-- Outside of records nothing is assigned to fields. -/
theorem plain_of_mem_structured (usage : Usage)
    (hfills : found.shape = .record → ∃ base block, found.Fills base block) {node : Node}
    (hnode : node ∈ (structured symbols usage found).2) (hkind : node.kind = .assign) :
    node.Plain := by
  by_cases hshape : found.shape = .record
  · obtain ⟨base, block, hfills⟩ := hfills hshape
    rw [structured, hshape] at hnode
    simp only [record_of_fills hfills] at hnode
    rcases List.mem_cons.mp hnode with rfl | hterminator
    · cases hkind
    · have hblock : block ∈ found.blocks := by simp [hfills.blocks]
      exact (each_terminator hown hblock).self hterminator
  · exact (plain_structured hown usage hshape).self hnode

end Routine

namespace Program

variable {symbols : SymbolTable} {blocks : List Block} {node : Node}

theorem instructions_subset_of_mem_shapes {found : Match} (h : found ∈ shapes symbols blocks) :
    found.instructions ⊆ Block.instructionsOf blocks := by
  rw [← instructions_shapes symbols blocks]
  exact fun i hi => List.mem_flatMap.mpr ⟨found, h, hi⟩

theorem fills_of_mem_shapes {found : Match} (h : found ∈ shapes symbols blocks)
    (hshape : found.shape = .record) : ∃ base block, found.Fills base block := by
  obtain ⟨segment, _, hfound⟩ := List.mem_flatMap.mp h
  exact Routine.fills_of_mem_shapes hfound hshape

variable (hown : ∀ i ∈ Block.instructionsOf blocks, (Statement.ofInstruction symbols i).Plain)

include hown

theorem Origin.declaresFields (h : Origin symbols blocks node) :
    node.DeclaresFields (Block.instructionsOf blocks) := by
  have hmatch {found : Match} (hfound : found ∈ shapes symbols blocks) :
      ∀ i ∈ found.instructions, (Statement.ofInstruction symbols i).Plain :=
    fun i hi => hown i (instructions_subset_of_mem_shapes hfound hi)
  cases h with
  | root =>
    have hbuilt := built_routines symbols blocks
    refine Node.declaresFields_of_plain fun child hchild hkind => ?_
    have hfunction : child.kind = .function := by
      rcases List.mem_append.mp hchild with hroutine | htemplate
      · exact (hbuilt.functions child hroutine).kind
      · exact (hbuilt.templates child htemplate).isRoutine.kind
    rw [hfunction] at hkind
    cases hkind
  | routine usage name start hmatched =>
    refine Node.declaresFields_of_plain fun child hchild hkind => ?_
    obtain ⟨found, hfound, usage, hchild⟩ := Routine.exists_structured_of_mem_codeFor hchild
    have hfound := hmatched hfound
    exact Routine.plain_of_mem_structured (hmatch hfound) usage
      (fills_of_mem_shapes hfound) hchild hkind
  | code hfound hnode =>
    have hdeclares := Routine.declaresFields_structured (hmatch hfound) _
      (fills_of_mem_shapes hfound) node hnode
    exact hdeclares.mono (instructions_subset_of_mem_shapes hfound)
  | template hfound hblocks hnode =>
    refine Node.declaresFields_of_plain fun child hchild _ => ?_
    have hcut := Routine.plain_cutOut (hmatch hfound) hblocks
    exact hcut.child (Node.mem_walkAll.mpr ⟨_, List.mem_singleton_self _, hnode⟩) hchild

theorem declaresFields_of_mem_walk (h : node ∈ (build symbols blocks).root.walk) :
    node.DeclaresFields (Block.instructionsOf blocks) := by
  obtain ⟨other, horigin, hresembles⟩ := exists_origin h
  exact (horigin.declaresFields hown).of_resembles hresembles

end Program

/-! ### All records -/

/-- The lowest address and the number of fields of the record that a match was recognised as. -/
def Match.record? (found : Match) : Option (Address × Nat) :=
  match found.shape, found.subject with
  | .record, some (.absolute base) => some (base, found.operands.length)
  | _, _ => none

theorem Match.record?_of_ne {found : Match} (h : found.shape ≠ .record) : found.record? = none := by
  unfold record?
  split
  · exact absurd ‹_› h
  · rfl

namespace Node

/-- The name and the fields of the record that a node defines. -/
def record? (node : Node) : Option (String × List String) :=
  if node.kind = .structDef then some (node.value, node.params) else none

theorem record?_of_ne {node : Node} (h : node.kind ≠ .structDef) : node.record? = none := if_neg h

theorem filterMap_record?_of_ne {nodes : List Node} (h : ∀ node ∈ nodes, node.kind ≠ .structDef) :
    nodes.filterMap record? = [] :=
  List.filterMap_eq_nil_iff.mpr fun node hnode => record?_of_ne (h node hnode)

theorem filterMap_record?_alone (nodes : List Node) :
    (nodes.map alone).filterMap record? = nodes.filterMap record? := by
  rw [List.filterMap_map]
  rfl

end Node

namespace Routine

/-- The name and the fields of a record. -/
def recordHeading (record : Address × Nat) : String × List String :=
  (recordName record.1, (List.range record.2).map fieldName)

variable {symbols : SymbolTable}

theorem records_structured {found : Match}
    (hown : ∀ i ∈ found.instructions, (Statement.ofInstruction symbols i).Plain)
    (hfills : found.shape = .record → ∃ base block, found.Fills base block) (usage : Usage) :
    (Node.walkAll (structured symbols usage found).2).filterMap Node.record?
      = found.record?.toList.map recordHeading := by
  by_cases hshape : found.shape = .record
  · obtain ⟨base, block, hfills⟩ := hfills hshape
    have hfields := List.forall_mem_map.mpr fun i (_ : i ∈ block.body) =>
      recordStatement_isStatement symbols base i
    have hbelow := Node.filterMap_record?_of_ne fun node hnode => (hfields node hnode).ne_structDef
    have hlast :
        (block.terminator?.map (Statement.ofInstruction symbols)).toList.filterMap Node.record?
          = [] :=
      Node.filterMap_record?_of_ne fun node hnode =>
        (isStatement_of_mem_terminator symbols hnode).ne_structDef
    rw [structured, hshape]
    simp only [record_of_fills hfills]
    rw [Node.walkAll_cons, Node.walk_eq, Node.walkAll_of_leaves fun node hnode =>
      (hfields node hnode).leaf, Node.walkAll_of_leaves fun node hnode =>
        (isStatement_of_mem_terminator symbols hnode).leaf, List.filterMap_append, hlast,
      List.append_nil, List.filterMap_cons, hbelow]
    simp only [Match.record?, hshape, hfills.subject]
    rfl
  · have hplain := plain_structured hown usage hshape
    rw [Match.record?_of_ne hshape, Node.filterMap_record?_of_ne fun node hnode =>
      (hplain node hnode).kind]
    rfl

theorem records_codeFor {matched : List Match}
    (hown : ∀ found ∈ matched, ∀ i ∈ found.instructions, (Statement.ofInstruction symbols i).Plain)
    (hfills : ∀ found ∈ matched, found.shape = .record → ∃ base block, found.Fills base block)
    (usage : Usage) :
    (Node.walkAll (codeFor symbols usage matched).2).filterMap Node.record?
      = (matched.filterMap Match.record?).map recordHeading := by
  induction matched generalizing usage with
  | nil => rfl
  | cons found others ih =>
    obtain ⟨hfound, hothers⟩ := List.forall_mem_cons.mp hown
    obtain ⟨hfills, hrest⟩ := List.forall_mem_cons.mp hfills
    rw [filterMap_cons_toList, List.map_append, ← records_structured hfound hfills,
      ← ih hothers hrest, ← List.filterMap_append, ← Node.walkAll_append]
    rfl

end Routine

namespace Program

/-- The lowest addresses and the numbers of fields of the records among the matches of a program, in
order. -/
def recordsOf (symbols : SymbolTable) (blocks : List Block) : List (Address × Nat) :=
  (shapes symbols blocks).filterMap Match.record?

variable {symbols : SymbolTable} {blocks : List Block}

theorem record?_finished (start : Address) (node : Node) :
    (finished symbols start node).record? = node.record? := by
  unfold finished
  split
  · rfl
  · rw [Node.record?, Node.record?, Node.kind_endProgram, Node.endProgram_eq]
    by_cases hkind : node.kind = .structDef <;> simp [hkind]

variable (hown : ∀ i ∈ Block.instructionsOf blocks, (Statement.ofInstruction symbols i).Plain)

include hown

theorem records_routine {segment : List Block} {function : Node}
    (hsegment : segment ∈ Routine.divide symbols blocks)
    (h : IsBuiltFrom symbols segment function) :
    function.walk.filterMap Node.record?
      = ((Routine.shapes symbols segment).filterMap Match.record?).map Routine.recordHeading := by
  obtain ⟨first, rest, usage, rfl, rfl⟩ := h
  have hshapes : Routine.shapes symbols (first :: rest) ⊆ shapes symbols blocks :=
    fun found hfound => List.mem_flatMap.mpr ⟨_, hsegment, hfound⟩
  have hroutine : (routineNode symbols first.start []).record? = none :=
    Node.record?_of_ne (by rw [kind_routineNode]; rintro ⟨⟩)
  have hfinished : Node.record? ∘ finished symbols first.start = Node.record? :=
    funext (record?_finished first.start)
  rw [← Node.filterMap_record?_alone, map_alone_walk_routineNode, List.filterMap_cons, hroutine,
    List.filterMap_map, hfinished, Node.filterMap_record?_alone]
  exact Routine.records_codeFor
    (fun found hfound i hi => hown i (instructions_subset_of_mem_shapes (hshapes hfound) hi))
    (fun found hfound => fills_of_mem_shapes (hshapes hfound)) usage

theorem records_functions {segments : List (List Block)} {functions : List Node}
    (h : List.Forall₂ (IsBuiltFrom symbols) segments functions)
    (hsegments : segments ⊆ Routine.divide symbols blocks) :
    (Node.walkAll functions).filterMap Node.record?
      = ((segments.flatMap (Routine.shapes symbols)).filterMap Match.record?).map
        Routine.recordHeading := by
  induction h with
  | nil => rfl
  | cons hfunction _ ih =>
    obtain ⟨hsegment, hsegments⟩ := List.cons_subset.mp hsegments
    rw [Node.walkAll_cons, List.filterMap_append, records_routine hown hsegment hfunction,
      ih hsegments, List.flatMap_cons, List.filterMap_append, List.map_append]

theorem records_templates :
    (Node.walkAll (routines symbols blocks).usage.templates).filterMap Node.record? = [] := by
  refine Node.filterMap_record?_of_ne fun node hnode => ?_
  obtain ⟨template, htemplate, hnode⟩ := Node.mem_walkAll.mp hnode
  obtain ⟨found, hfound, first, rest, hblocks, rfl⟩ :=
    (composed_routines symbols blocks).templates template htemplate
  have hplain :=
    Routine.plain_cutOut (fun i hi => hown i (instructions_subset_of_mem_shapes hfound hi)) hblocks
  exact (hplain node (Node.mem_walkAll.mpr ⟨_, List.mem_singleton_self _, hnode⟩)).kind

/-- The records of a program are those of its matches, with all their fields. -/
theorem records_build :
    (build symbols blocks).records.map (fun node => (node.value, node.params))
      = (recordsOf symbols blocks).map Routine.recordHeading := by
  have hrecords : (build symbols blocks).records.map (fun node => (node.value, node.params))
      = (build symbols blocks).root.walk.filterMap Node.record? := by
    rw [records, ← List.filterMap_eq_map, List.filterMap_filter]
    exact List.filterMap_congr fun node _ => by simp [Node.record?]
  rw [hrecords, ← Node.filterMap_record?_alone, map_alone_walk_root, Node.filterMap_record?_alone,
    Node.walk_eq, List.filterMap_cons, unlabelled, Node.walkAll_append, List.filterMap_append,
    records_templates hown, List.append_nil,
    records_functions hown (composed_routines symbols blocks).functions (List.Subset.refl _)]
  rfl

end Program

end Lift6502
