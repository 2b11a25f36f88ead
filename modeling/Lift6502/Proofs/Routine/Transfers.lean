import Lift6502.Proofs.Machine.CodeAddresses
import Lift6502.Proofs.Routine.Origins
import Lift6502.Proofs.Shape.Transfers

/-!
# Calls and returns in the tree

A node that calls the ROM or returns is the statement of an instruction, whatever shape the
instruction became part of. In repeated code, too, such statements stay as they are: an operand that
varies names no code, and a return has no operand.
-/

namespace Lift6502

theorem exists_left_of_forall₂ {α β : Type} {R : α → β → Prop} {left : List α} {right : List β}
    (h : List.Forall₂ R left right) {element : β} (hmem : element ∈ right) :
    ∃ other ∈ left, R other element := by
  induction h with
  | nil => cases hmem
  | cons hfirst _ ih =>
    rcases List.mem_cons.mp hmem with rfl | hrest
    · exact ⟨_, List.mem_cons_self, hfirst⟩
    · obtain ⟨other, hother, hrel⟩ := ih hrest
      exact ⟨other, List.mem_cons_of_mem _ hother, hrel⟩

theorem exists_right_of_forall₂ {α β : Type} {R : α → β → Prop} {left : List α} {right : List β}
    (h : List.Forall₂ R left right) {element : α} (hmem : element ∈ left) :
    ∃ other ∈ right, R element other :=
  exists_left_of_forall₂ (List.Forall₂.flip h) hmem

/-- Whether nodes of a kind call the ROM or return. -/
def NodeKind.isTransfer : NodeKind → Bool
  | romCall | leave => true
  | _ => false

theorem Mnemonic.isReturn_eq_true {mnemonic : Mnemonic} :
    mnemonic.isReturn = true ↔ mnemonic = .rts ∨ mnemonic = .rti := by
  cases mnemonic <;> simp [isReturn]

namespace Instruction

/-- Whether an instruction is a return with a statement of its own. -/
def leaves (instruction : Instruction) : Bool :=
  instruction.mnemonic.isReturn && instruction.operand == .implied

/-- What the statement of a return says. -/
def leaveValue (instruction : Instruction) : String := if instruction.mnemonic = .rti
    then "interrupt" else ""

end Instruction

/-! ### Statements -/

namespace Statement

variable {symbols : SymbolTable} {instruction : Instruction}

/-- The statement of a call. -/
def callNode (symbols : SymbolTable) (target address : Address) : Node :=
  if symbols.kind? target = some .kernalCall then
    { kind := .romCall, value := symbols.codeName target, params := [Text.decimal target.toNat],
      address := some address }
  else { kind := .subCall, value := symbols.codeName target, address := some address }

theorem ofInstruction_of_callTarget? {target : Address}
    (h : instruction.callTarget? = some target) :
    ofInstruction symbols instruction = callNode symbols target instruction.address := by
  obtain ⟨hmnemonic, hoperand⟩ := Instruction.callTarget?_eq_some.mp h
  unfold ofInstruction callNode
  simp only [rule?, hmnemonic, hoperand, call?]
  split <;> rfl

theorem ofInstruction_of_leaves (h : instruction.leaves = true) :
    ofInstruction symbols instruction
      = { kind := .leave, value := instruction.leaveValue,
          address := some instruction.address } := by
  simp only [Instruction.leaves, Bool.and_eq_true, beq_iff_eq] at h
  obtain ⟨hreturn, hoperand⟩ := h
  unfold ofInstruction Instruction.leaveValue
  rcases Mnemonic.isReturn_eq_true.mp hreturn with hmnemonic | hmnemonic
  · simp [rule?, hmnemonic, hoperand, Mnemonic.operator?, Mnemonic.condition?, implied?]
  · simp [rule?, hmnemonic, hoperand, Mnemonic.operator?, Mnemonic.condition?, implied?]

/-- Most statements are assignments, tests and jumps; the others call a subroutine or have no
operand. -/
theorem rule?_cases {operation : Operation} {node : Node}
    (h : rule? symbols operation = some node) :
    (node.kind = .assign ∨ node.kind = .expr ∨ node.kind = .goto) ∨
      operation.mnemonic = .jsr ∧ call? symbols operation.operand = some node ∨
      operation.operand = .implied ∧ implied? operation.mnemonic = some node := by
  have hmap {α : Type} {operand : Option α} {make : α → Node}
      (hmake : ∀ text, (make text).kind = .assign ∨ (make text).kind = .expr ∨
        (make text).kind = .goto)
      (h : operand.map make = some node) : node.kind = .assign ∨ node.kind = .expr ∨
        node.kind = .goto := by
    obtain ⟨text, _, rfl⟩ := Option.map_eq_some_iff.mp h
    exact hmake text
  simp only [rule?] at h
  split at h
  case h_17 hmnemonic => exact Or.inr (Or.inl ⟨hmnemonic, h⟩)
  case h_19 =>
    split at h
    · exact Or.inl (hmap (fun _ => Or.inl rfl) h)
    · exact Or.inl (hmap (fun _ => Or.inr (Or.inr rfl)) h)
    · split at h
      · exact Or.inr (Or.inr ⟨‹_›, h⟩)
      · cases h
  case h_13 | h_14 | h_15 | h_16 => exact Or.inl (hmap (fun _ => Or.inr (Or.inl rfl)) h)
  case h_18 => exact Or.inl (hmap (fun _ => Or.inr (Or.inr rfl)) h)
  all_goals exact Or.inl (hmap (fun _ => Or.inl rfl) h)

theorem implied?_cases {mnemonic : Mnemonic} {node : Node} (h : implied? mnemonic = some node) :
    node.kind = .assign ∨ mnemonic.isReturn = true := by
  unfold implied? at h
  split at h
  · exact Or.inr rfl
  · exact Or.inr rfl
  · refine Or.inl ?_
    split at h
    · obtain rfl := Option.some.inj h
      rfl
    · obtain rfl := Option.some.inj h
      rfl
    · cases h

/-- Only calls and returns have statements that call the ROM or return. -/
theorem transfer_cases (h : (ofInstruction symbols instruction).kind.isTransfer = true) :
    (∃ target, instruction.callTarget? = some target ∧ symbols.kind? target = some .kernalCall) ∨
      instruction.leaves = true := by
  unfold ofInstruction at h
  simp only at h
  cases hrule : rule? symbols instruction.toOperation with
  | none =>
    rw [hrule] at h
    cases h
  | some node =>
    rw [hrule, Option.getD_some] at h
    rcases rule?_cases hrule with
      (hkind | hkind | hkind) | ⟨hmnemonic, hcall⟩ | ⟨hoperand, himplied⟩
    · rw [hkind] at h
      cases h
    · rw [hkind] at h
      cases h
    · rw [hkind] at h
      cases h
    · refine Or.inl ?_
      unfold call? at hcall
      split at hcall
      · rename_i target hoperand
        split at hcall
        · rename_i hkind
          exact ⟨target, Instruction.callTarget?_eq_some.mpr ⟨hmnemonic, hoperand⟩, hkind⟩
        · obtain ⟨name, _, rfl⟩ := Option.map_eq_some_iff.mp hcall
          cases h
      · obtain ⟨name, _, rfl⟩ := Option.map_eq_some_iff.mp hcall
        cases h
    · rcases implied?_cases himplied with hkind | hreturn
      · rw [hkind] at h
        cases h
      · refine Or.inr ?_
        rw [Instruction.leaves, hreturn, hoperand]
        rfl

theorem romCall_of_callTarget? {target : Address} (htarget : instruction.callTarget? = some target)
    (hrom : symbols.kind? target = some .kernalCall) :
    (ofInstruction symbols instruction).kind = .romCall ∧
      (ofInstruction symbols instruction).value = symbols.codeName target ∧
      (ofInstruction symbols instruction).params = [Text.decimal target.toNat] := by
  rw [ofInstruction_of_callTarget? htarget, callNode, if_pos hrom]
  exact ⟨rfl, rfl, rfl⟩

/-- What the statement of a call of the ROM says. -/
theorem romCall_cases (h : (ofInstruction symbols instruction).kind = .romCall) :
    ∃ target, instruction.callTarget? = some target ∧ symbols.kind? target = some .kernalCall ∧
      (ofInstruction symbols instruction).value = symbols.codeName target ∧
      (ofInstruction symbols instruction).params = [Text.decimal target.toNat] := by
  rcases transfer_cases (by rw [h]; rfl) with ⟨target, htarget, hkind⟩ | hleaves
  · exact ⟨target, htarget, hkind, (romCall_of_callTarget? htarget hkind).2⟩
  · rw [ofInstruction_of_leaves hleaves] at h
    cases h

theorem leave_cases (h : (ofInstruction symbols instruction).kind = .leave) :
    instruction.leaves = true := by
  rcases transfer_cases (by rw [h]; rfl) with ⟨target, htarget, hkind⟩ | hleaves
  · rw [(romCall_of_callTarget? htarget hkind).1] at h
    cases h
  · exact hleaves

theorem alone_ofInstruction (symbols : SymbolTable) (instruction : Instruction) :
    (ofInstruction symbols instruction).alone = ofInstruction symbols instruction :=
  Node.alone_eq_self (ofInstruction_isStatement symbols instruction).leaf
    (ofInstruction_isStatement symbols instruction).unlabelled

end Statement

/-! ### Where nodes come from -/

namespace Node

/-- Whether what calls the ROM or returns in some trees is the statement of one of some
instructions. -/
def Traced (symbols : SymbolTable) (instructions : List Instruction) (nodes : List Node) : Prop :=
  ∀ node ∈ walkAll nodes, node.kind.isTransfer = true → ∃ i ∈ instructions, node.alone
    = Statement.ofInstruction symbols i

namespace Traced

variable {symbols : SymbolTable} {instructions : List Instruction}

theorem nil : Traced symbols instructions [] := Each.nil

theorem append {left right : List Node} (hleft : Traced symbols instructions left)
    (hright : Traced symbols instructions right) : Traced symbols instructions (left ++ right) :=
  Each.append hleft hright

/-- Nodes of other kinds have nothing to be traced to. -/
theorem of_kind {node : Node} (h : node.kind.isTransfer = false) :
    node.kind.isTransfer = true → ∃ i ∈ instructions, node.alone
      = Statement.ofInstruction symbols i := by
  intro htransfer
  rw [h] at htransfer
  cases htransfer

end Traced

end Node

namespace Routine

open Node (Each Traced)

variable (symbols : SymbolTable) (found : Match)

theorem traced_ofInstruction :
    ∀ i ∈ found.instructions, (Statement.ofInstruction symbols i).kind.isTransfer = true →
    ∃ origin ∈ found.instructions, (Statement.ofInstruction symbols i).alone
      = Statement.ofInstruction symbols origin :=
  fun i hi _ => ⟨i, hi, Statement.alone_ofInstruction symbols i⟩

theorem traced_record : Traced symbols found.instructions (record symbols found) := by
  refine each_record (traced_ofInstruction symbols found) (fun node hkind => ?_)
    fun node hkind => ?_ <;>
    exact Traced.of_kind (by rw [hkind]; rfl)

/-! ### Repeated code -/

/-- A node of the kind of an instruction's statement, and that statement if it calls the ROM or
returns. -/
structure Keeps (symbols : SymbolTable) (instruction : Instruction) (node : Node) : Prop where
  kind : node.kind = (Statement.ofInstruction symbols instruction).kind
  transfer : node.kind.isTransfer = true → node = Statement.ofInstruction symbols instruction

theorem keeps_ofInstruction (instruction : Instruction) :
    Keeps symbols instruction (Statement.ofInstruction symbols instruction) :=
  ⟨rfl, fun _ => rfl⟩

theorem Keeps.romCall {symbols : SymbolTable} {instruction : Instruction} {node : Node}
    (h : Keeps symbols instruction node) {target : Address}
    (htarget : instruction.callTarget? = some target)
    (hrom : symbols.kind? target = some .kernalCall) :
    node.kind = .romCall ∧ node.value = symbols.codeName target ∧
      node.params = [Text.decimal target.toNat] := by
  have hcall := Statement.romCall_of_callTarget? htarget hrom
  have hkind : node.kind.isTransfer = true := by
    rw [h.kind, hcall.1]
    rfl
  rw [h.transfer hkind]
  exact hcall

/-- What is put in the place of an operand that varies changes neither a call of the ROM nor a
return. -/
theorem keeps_substitute {instruction : Instruction}
    (hflow : instruction.mnemonic.isControlFlow = false) (old new : String) :
    Keeps symbols instruction
      (substitute old new (Statement.ofInstruction symbols instruction)) := by
  refine ⟨rfl, fun htransfer => ?_⟩
  rcases Statement.transfer_cases htransfer with ⟨target, htarget, _⟩ | hleaves
  · rw [(Instruction.callTarget?_eq_some.mp htarget).1] at hflow
    cases hflow
  · rw [Statement.ofInstruction_of_leaves hleaves]
    rfl

theorem not_isControlFlow_of_find? {first : Block} {rest : List Block} {pair : Instruction × Nat}
    (hpair : pair ∈ first.instructions.zipIdx) {variation : Variation}
    (h : ((Block.variations? (first :: rest)).getD []).find? (·.position == pair.2)
      = some variation) :
    pair.1.mnemonic.isControlFlow = false := by
  cases hflow : pair.1.mnemonic.isControlFlow with
  | false => rfl
  | true =>
    rw [Block.find?_variations_of_isControlFlow hpair hflow] at h
    cases h

/-- Each instruction of the first of unrolled blocks has its node, and there are no others. -/
theorem unrolledBody_keeps (first : Block) (rest : List Block) (usage : Usage)
    {pairs : List (Instruction × Nat)} (h : pairs ⊆ first.instructions.zipIdx) :
    List.Forall₂ (fun pair node => Keeps symbols pair.1 node) pairs
      (unrolledBody symbols ((Block.variations? (first :: rest)).getD []) usage pairs).2 := by
  induction pairs generalizing usage with
  | nil => exact List.Forall₂.nil
  | cons pair pairs ih =>
    obtain ⟨instruction, position⟩ := pair
    obtain ⟨hpair, hpairs⟩ := List.cons_subset.mp h
    rw [unrolledBody]
    cases hfound : ((Block.variations? (first :: rest)).getD []).find? (·.position == position) with
    | none => exact List.Forall₂.cons (keeps_ofInstruction symbols instruction) (ih usage hpairs)
    | some variation =>
      refine List.Forall₂.cons ?_ (ih (folded symbols usage variation).1 hpairs)
      exact keeps_substitute symbols (not_isControlFlow_of_find? hpair hfound) _ _

theorem templateStatement_keeps (first : Block) (rest : List Block) {pair : Instruction × Nat}
    (hpair : pair ∈ first.instructions.zipIdx) :
    ∃ node, Keeps symbols pair.1 node ∧
      templateStatement symbols ((Block.variations? (first :: rest)).getD []) pair.1 pair.2
        = { node with address := none } := by
  unfold templateStatement
  simp only
  split
  · rename_i slot hslot
    have hfound : ∃ variation,
        ((Block.variations? (first :: rest)).getD []).find? (·.position == pair.2)
          = some variation := by
      obtain ⟨hlt, hposition, _⟩ := List.findIdx?_eq_some_iff_getElem.mp hslot
      exact Option.isSome_iff_exists.mp (List.find?_isSome.mpr ⟨_, List.getElem_mem hlt, hposition⟩)
    obtain ⟨variation, hvariation⟩ := hfound
    exact ⟨_, keeps_substitute symbols (not_isControlFlow_of_find? hpair hvariation) _ _, rfl⟩
  · exact ⟨_, keeps_ofInstruction symbols pair.1, rfl⟩

theorem traced_unrolled (usage : Usage) :
    Traced symbols found.instructions (unrolled symbols usage found).2 := by
  unfold unrolled
  split
  · exact Each.nil
  · rename_i first rest hblocks
    refine Each.group (Traced.of_kind rfl) (Each.of_leaves ?_ ?_)
    · exact fun node hnode => ((unrolledBody_isStatement symbols _ _ _).1 node hnode).leaf
    · intro node hnode htransfer
      rw [hblocks] at hnode
      obtain ⟨pair, hpair, hkeeps⟩ := exists_left_of_forall₂
        (unrolledBody_keeps symbols first rest usage (List.Subset.refl _)) hnode
      refine ⟨pair.1, ?_, ?_⟩
      · have hinside := List.fst_mem_of_mem_zipIdx hpair
        exact Block.mem_instructionsOf.mpr ⟨first, by simp [hblocks], hinside⟩
      · rw [hkeeps.transfer htransfer, Statement.alone_ofInstruction]

/-- Whatever the shape is, what calls the ROM or returns in its nodes is the statement of one of its
instructions. -/
theorem traced_structured (usage : Usage) :
    Traced symbols found.instructions (structured symbols usage found).2 := by
  refine each_structured ?_ (traced_ofInstruction symbols found)
    (fun _ _ _ => Traced.of_kind rfl) usage
    (fun _ => traced_record symbols found) (fun _ => traced_unrolled symbols found usage)
  intro node hmade
  refine Traced.of_kind ?_
  cases hkind : node.kind <;> rw [hkind] at hmade
  all_goals first | rfl | cases hmade

end Routine

end Lift6502
