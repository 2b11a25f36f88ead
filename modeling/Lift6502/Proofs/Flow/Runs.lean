import Lift6502.Proofs.Flow.Cuts

/-!
# Running code

What instructions do to a machine is left open here: an interpretation says how each of them changes
the state, and when a conditional branch is taken. Where control goes is not open. It moves from
address to address through the code, and stops where the code has no instruction.
-/

namespace Lift6502

/-- What instructions do to the states of a machine. A call counts as one instruction, together with
the routine it calls. -/
structure Interpretation (State : Type) where
  effect : Instruction → State → State
  taken : Instruction → State → Bool

namespace Interpretation

variable {State : Type} (machine : Interpretation State)

/-- Where control goes after an instruction, if the code says so. -/
def follow? (instruction : Instruction) (state : State) : Option Address :=
  if instruction.mnemonic.isReturn then none
  else if instruction.mnemonic = .jmp then instruction.target?
  else if instruction.mnemonic.isConditionalBranch && machine.taken instruction state
    then instruction.target?
  else some instruction.nextAddress

/-- Carries out the instruction at an address. Jumps, branches and returns change nothing but the
address. -/
def advance (code : List Instruction) (place : Address × State) : Option (Address × State) := do
  let instruction ← code.find? (·.address == place.1)
  let next ← machine.follow? instruction place.2
  return (next, if instruction.endsBlock then place.2 else machine.effect instruction place.2)

/-- Control goes from one place to another in one or more steps, and is at no watched address on the
way. -/
inductive Leads (code : List Instruction) (watched : Address → Prop) : Address × State →
    Address × State → Prop where
  | step {place next : Address × State} (h : machine.advance code place = some next) :
    Leads code watched place next
  | onward {place next goal : Address × State} (h : machine.advance code place = some next)
    (hfree : ¬ watched next.1)
      (hrest : Leads code watched next goal) : Leads code watched place goal

/-- What some instructions do to a state, one after the other. -/
def perform (instructions : List Instruction) (state : State) : State :=
  instructions.foldl (fun state instruction => machine.effect instruction state) state

theorem perform_nil (state : State) : machine.perform [] state = state :=
  rfl

theorem perform_cons (instruction : Instruction) (rest : List Instruction) (state : State) :
    machine.perform (instruction :: rest) state
      = machine.perform rest (machine.effect instruction state) :=
  rfl

theorem perform_append (front back : List Instruction) (state : State) :
    machine.perform (front ++ back) state = machine.perform back (machine.perform front state) :=
  List.foldl_append

variable {machine} {code : List Instruction} {watched : Address → Prop}

theorem Leads.trans {place middle goal : Address × State}
    (h : machine.Leads code watched place middle) (hfree : ¬ watched middle.1)
    (hrest : machine.Leads code watched middle goal) : machine.Leads code watched place goal := by
  induction h with
  | step hstep => exact .onward hstep hfree hrest
  | onward hstep hnext _ ih => exact .onward hstep hnext (ih hfree hrest)

theorem find?_address (hascending : Ascending code) {instruction : Instruction}
    (hmem : instruction ∈ code) :
    code.find? (·.address == instruction.address) = some instruction := by
  obtain ⟨found, hfound⟩ : ∃ found, code.find? (·.address == instruction.address) = some found := by
    rw [← Option.isSome_iff_exists, List.find?_isSome]
    exact ⟨instruction, hmem, beq_self_eq_true _⟩
  -- In ascending code an address names one instruction.
  have haddress : found.address = instruction.address := by simpa using List.find?_some hfound
  rw [hfound, hascending.eq_of_address_eq (List.mem_of_find?_eq_some hfound) hmem haddress]

theorem advance_plain (hascending : Ascending code) {instruction : Instruction}
    (hmem : instruction ∈ code) (hplain : instruction.endsBlock = false) (state : State) :
    machine.advance code (instruction.address, state)
      = some (instruction.nextAddress, machine.effect instruction state) := by
  have hkinds :
      (instruction.mnemonic.isConditionalBranch = false ∧ instruction.mnemonic.isReturn = false) ∧
      instruction.mnemonic ≠ .jmp := by
    simpa [Operation.endsBlock, Mnemonic.endsBlock] using hplain
  simp [advance, find?_address hascending hmem, follow?, hkinds, hplain]

theorem advance_branch (hascending : Ascending code) {instruction : Instruction}
    (hmem : instruction ∈ code) (hbranch : instruction.mnemonic.isConditionalBranch = true)
    (state : State) :
    machine.advance code (instruction.address, state)
      = (if machine.taken instruction state then instruction.target?
        else some instruction.nextAddress).map (·, state) := by
  have hends : instruction.endsBlock = true := by
    rw [Operation.endsBlock, Mnemonic.endsBlock, hbranch]
    rfl
  have hkinds : instruction.mnemonic.isReturn = false ∧ instruction.mnemonic ≠ .jmp := by
    generalize instruction.mnemonic = mnemonic at hbranch
    cases mnemonic <;> simp_all [Mnemonic.isConditionalBranch, Mnemonic.isReturn]
  have hfollow : machine.follow? instruction state
      = if machine.taken instruction state then instruction.target?
        else some instruction.nextAddress := by
    simp [follow?, hkinds, hbranch]
  rw [← hfollow, Option.map_eq_bind, advance, find?_address hascending hmem]
  show ((machine.follow? instruction state).bind fun next =>
    some (next, if instruction.endsBlock then state else machine.effect instruction state)) = _
  rw [hends]
  rfl

theorem advance_jump (hascending : Ascending code) {instruction : Instruction}
    (hmem : instruction ∈ code) (hjump : instruction.mnemonic = .jmp) {target : Address}
    (htarget : instruction.target? = some target) (state : State) :
    machine.advance code (instruction.address, state) = some (target, state) := by
  have hreturn : Mnemonic.jmp.isReturn = false := rfl
  have hends : instruction.endsBlock = true := by rw [Operation.endsBlock, hjump]; rfl
  simp [advance, find?_address hascending hmem, follow?, hreturn, hjump, htarget, hends]

/-- Control runs straight through instructions that follow one another and end no block. -/
theorem leads_straight (hascending : Ascending code) {first next : Instruction}
    {rest : List Instruction} (hmem : ∀ i ∈ first :: rest, i ∈ code)
    (hplain : ∀ i ∈ first :: rest, i.endsBlock = false)
    (hchain : (first :: (rest ++ [next])).IsChain fun i after => after.address = i.nextAddress)
    (hfree : ∀ i ∈ rest, ¬ watched i.address) (state : State) :
    machine.Leads code watched (first.address, state)
      (next.address, machine.perform (first :: rest) state) := by
  induction rest generalizing first state with
  | nil =>
    obtain ⟨hnext, _⟩ := List.isChain_cons_cons.mp hchain
    rw [hnext]
    exact .step (advance_plain hascending (hmem first List.mem_cons_self)
      (hplain first List.mem_cons_self) state)
  | cons second rest ih =>
    obtain ⟨hnext, hchain⟩ := List.isChain_cons_cons.mp hchain
    obtain ⟨hfirst, hmem⟩ := List.forall_mem_cons.mp hmem
    obtain ⟨hstraight, hplain⟩ := List.forall_mem_cons.mp hplain
    obtain ⟨hsecond, hfree⟩ := List.forall_mem_cons.mp hfree
    have hstep : machine.advance code (first.address, state)
        = some (second.address, machine.effect first state) := by
      rw [hnext]
      exact advance_plain hascending hfirst hstraight state
    exact .onward hstep hsecond (ih hmem hplain hchain hfree (machine.effect first state))

/-- Inside a block control runs from each instruction to every later one. -/
theorem leads_within (hascending : Ascending code) {block : Block}
    (hblock : block ∈ Block.partition code) {front rest after : List Instruction}
    {first next : Instruction}
    (hparts : block.instructions = front ++ first :: (rest ++ next :: after))
    (hfree : ∀ i ∈ rest, ¬ watched i.address) (state : State) :
    machine.Leads code watched (first.address, state)
      (next.address, machine.perform (first :: rest) state) := by
  have hpartition : Block.IsPartition code (Block.partition code) := Block.isPartition_iff.mpr rfl
  apply leads_straight hascending ?_ ?_ ?_ hfree
  · intro i hi
    apply (Block.sublist_of_mem_partition hblock).subset
    rw [hparts, ← List.cons_append]
    exact List.mem_append_right _ (List.mem_append_left _ hi)
  · intro i hi
    apply hpartition.straight block hblock
    rw [hparts, ← List.cons_append, ← List.append_assoc,
      List.dropLast_append_of_ne_nil (List.cons_ne_nil next after)]
    exact List.mem_append_left _ (List.mem_append_right _ hi)
  · apply List.IsChain.infix (hpartition.consecutive block hblock)
    exact ⟨front, after, by simp [hparts]⟩

end Interpretation

end Lift6502
