import Lift6502.Proofs.Flow.Cuts
import Lift6502.Proofs.Routine.Functions
import Lift6502.Proofs.Symbol.Targets

/-!
# Which calls reach a routine

Routines start at blocks, and blocks are cut behind jumps and at gaps only. So a call into the
listing finds a routine unless control runs into the place from the instruction in front of it. Then
the place is inside a block, no routine is opened there, and the name that is called counts as one
from outside the listing.
-/

namespace Lift6502

namespace Block

/-- Whether the instruction in front of an address runs on into it. -/
def RunsInto (instructions : List Instruction) (target : Address) : Prop :=
  ∃ before previous entry after, instructions = before ++ previous :: entry :: after ∧
    entry.address = target ∧
    previous.nextAddress = target ∧ previous.endsBlock = false

theorem isPartition_partition (instructions : List Instruction) :
    IsPartition instructions (partition instructions) :=
  isPartition_iff.mpr rfl

theorem instructionsOf_cons (block : Block) (blocks : List Block) :
    instructionsOf (block :: blocks) = block.instructions ++ instructionsOf blocks :=
  List.flatMap_cons

theorem instructionsOf_middle (front : List Block) (block : Block) (back : List Block) :
    instructionsOf (front ++ block :: back)
      = instructionsOf front ++ block.first :: (block.instructions.tail
        ++ instructionsOf back) := by
  rw [instructionsOf_append, instructionsOf_cons, ← List.cons_append]
  exact congrArg (fun part => instructionsOf front ++ (part ++ instructionsOf back))
    (List.cons_head_tail block.nonempty).symm

theorem getLast?_instructionsOf_concat (front : List Block) (block : Block) :
    (instructionsOf (front ++ [block])).getLast? = some block.last := by
  have hsingle : instructionsOf [block] = block.instructions := List.flatMap_singleton ..
  rw [instructionsOf_append, hsingle, List.getLast?_append_of_ne_nil _ block.nonempty]
  exact List.getLast?_eq_some_getLast block.nonempty

/-- Inside a block control runs into every instruction but the first. -/
theorem runsInto_of_mem_partition {instructions : List Instruction} {block : Block}
    (hblock : block ∈ partition instructions) {i : Instruction} (hi : i ∈ block.instructions)
    (hinside : i.address ≠ block.start) : RunsInto instructions i.address := by
  have hpartition := isPartition_partition instructions
  have hchain :=
    isChain_continues.mpr ⟨hpartition.straight block hblock, hpartition.consecutive block hblock⟩
  obtain ⟨front, back, hblocks⟩ := List.append_of_mem hblock
  obtain ⟨before, after, hsplit⟩ := List.append_of_mem hi
  rcases List.eq_nil_or_concat' before with rfl | ⟨before, previous, rfl⟩
  · have hfirst : block.first = i := by
      rw [first]
      simp only [hsplit, List.nil_append, List.head_cons]
    exact absurd (congrArg (·.address) hfirst).symm hinside
  · have hcontinues : continues previous i = true := by
      rw [hsplit, List.append_assoc] at hchain
      exact (List.isChain_append_cons_cons.mp hchain).2.1
    rw [continues, Bool.and_eq_true, Bool.not_eq_true', beq_iff_eq] at hcontinues
    refine ⟨instructionsOf front ++ before, previous, i, after ++ instructionsOf back, ?_, rfl,
      hcontinues.2, hcontinues.1⟩
    rw [← hpartition.glue, hblocks, instructionsOf_append, instructionsOf_cons, hsplit]
    simp

/-- Control does not run into the first instruction of a block. -/
theorem not_runsInto_start {instructions : List Instruction} (hascending : Ascending instructions)
    {block : Block} (hblock : block ∈ partition instructions) :
    ¬ RunsInto instructions block.start := by
  rintro ⟨before, previous, entry, after, hsplit, hentry, hnext, hruns⟩
  have hpartition := isPartition_partition instructions
  have hnodup := hascending.nodup_addresses.of_map
  obtain ⟨front, back, hblocks⟩ := List.append_of_mem hblock
  have hglue := hpartition.glue
  rw [hblocks, instructionsOf_middle] at hglue
  have hfirst : block.first = entry := by
    refine hascending.eq_of_address_eq ?_ ?_ hentry.symm
    · rw [← hglue]
      exact List.mem_append_right _ List.mem_cons_self
    · rw [hsplit]
      simp
  -- The instruction in front of the block is the last one of the block before it.
  have hfront : instructionsOf front = before ++ [previous] := by
    rw [← hglue, List.nodup_append, List.nodup_cons] at hnodup
    obtain ⟨-, ⟨hbehind, -⟩, hdisjoint⟩ := hnodup
    have hbefore : block.first ∉ instructionsOf front :=
      fun hmem => hdisjoint _ hmem _ List.mem_cons_self rfl
    rw [hsplit, ← hfirst, List.append_cons before] at hglue
    exact ((List.append_cons_inj_of_notMem hbefore hbehind).mp hglue).1
  rcases List.eq_nil_or_concat' front with rfl | ⟨front, neighbour, rfl⟩
  · simp [instructionsOf] at hfront
  · have hlast : neighbour.last = previous := by
      have hends := congrArg List.getLast? hfront
      rw [getLast?_instructionsOf_concat, List.getLast?_concat] at hends
      exact Option.some.inj hends
    have hmaximal := hpartition.maximal
    rw [hblocks, List.append_assoc] at hmaximal
    rcases (List.isChain_append_cons_cons.mp hmaximal).2.1 with hends | hgap
    · rw [hlast, hruns] at hends
      cases hends
    · rw [nextAddress, hlast] at hgap
      exact hgap hnext

/-- A block starts at an instruction exactly if control does not run into it. -/
theorem exists_start_iff {instructions : List Instruction} (hascending : Ascending instructions)
    {target : Address} (hlisted : ∃ i ∈ instructions, i.address = target) :
    (∃ block ∈ partition instructions, block.start = target) ↔ ¬ RunsInto instructions target := by
  constructor
  · rintro ⟨block, hblock, rfl⟩
    exact not_runsInto_start hascending hblock
  · intro hfree
    obtain ⟨i, hi, rfl⟩ := hlisted
    rw [← instructionsOf_partition instructions] at hi
    obtain ⟨block, hblock, hi⟩ := mem_instructionsOf.mp hi
    refine ⟨block, hblock, ?_⟩
    by_contra hstart
    exact hfree (runsInto_of_mem_partition hblock hi (Ne.symm hstart))

end Block

namespace Program

variable {symbols : SymbolTable} {blocks : List Block}

theorem entry_of_address {function : Node} (hfunction : function ∈ (build symbols blocks).root.walk)
    (hkind : function.kind = .function) {entry : Address} (hentry : function.address = some entry) :
    entry ∈ Routine.entries symbols blocks := by
  have hheading := heading_mem_functions.mp ⟨function, hfunction, hkind, rfl⟩
  rw [hentry] at hheading
  rcases List.mem_append.mp hheading with hroutine | htemplate
  · obtain ⟨address, haddress, heq⟩ := List.mem_map.mp hroutine
    obtain rfl := Option.some.inj (congrArg Prod.snd heq)
    exact haddress
  · obtain ⟨address, -, heq⟩ := List.mem_map.mp htemplate
    cases congrArg Prod.snd heq

/-- What a routine is called does not count as outside the listing. -/
theorem not_mem_externalCalls {name : String} {address : Option Address}
    (h : ∃ function ∈ (build symbols blocks).root.walk, function.kind = .function ∧
      function.heading = (name, address)) :
    name ∉ (build symbols blocks).externalCalls := by
  obtain ⟨function, hfunction, hkind, hheading⟩ := h
  obtain rfl : function.value = name := congrArg Prod.fst hheading
  have hchild : function ∈ (build symbols blocks).root.children := by
    rw [← (isTree_build symbols blocks).filter_function, List.mem_filter]
    exact ⟨hfunction, by simp [hkind]⟩
  rw [externalCalls, Std.ExtTreeSet.mem_ofList, List.contains_iff_mem, List.mem_map]
  rintro ⟨call, hcall, hname⟩
  have hfree := (Bool.and_eq_true _ _ |>.mp (List.mem_filter.mp hcall).2).2
  rw [hname, Bool.not_eq_true', ← Bool.not_eq_true, List.contains_iff_mem] at hfree
  exact hfree (List.mem_map_of_mem hchild)

/-- A routine of its name starts at a called address exactly if a block does. -/
theorem heading_mem_functions_iff_start {target : Address}
    (hcalled : symbols.subroutines.contains target = true) :
    (∃ function ∈ (build symbols blocks).root.walk, function.kind = .function ∧
        function.heading = (symbols.codeName target, some target)) ↔
      ∃ block ∈ blocks, block.start = target := by
  constructor
  · rintro ⟨function, hfunction, hkind, hheading⟩
    exact (Routine.mem_entries.mp (entry_of_address hfunction hkind (congrArg Prod.snd hheading))).2
  · intro hstart
    have hentry := Routine.mem_entries.mpr ⟨Or.inr hcalled, hstart⟩
    refine heading_mem_functions.mpr
      (List.mem_append_left _ (List.mem_map.mpr ⟨target, hentry, ?_⟩))
    rw [Routine.routineHeading, if_pos hcalled]

/-- A call into a listing reaches a routine of its name exactly if control does not run into the
called place from the instruction in front of it. If it does, nothing starts there; if not, the
routine does not count as outside the listing. -/
theorem called_routine_has_body_iff (text : String) (sources : Sources) {target : Address}
    (hcalled : ∃ call ∈ (Listing.read text).instructions, call.callTarget? = some target)
    (hlisted : ∃ i ∈ (Listing.read text).instructions, i.address = target) :
    let symbols := SymbolTable.resolve (Listing.read text).candidates sources
    let program := ofListing symbols text
    ((∃ function ∈ program.root.walk, function.kind = .function ∧
      function.heading = (symbols.codeName target, some target)) ↔
      ¬ Block.RunsInto (Listing.read text).instructions target) ∧
    (Block.RunsInto (Listing.read text).instructions target →
      ∀ function ∈ program.root.walk, function.kind = .function → function.address ≠ some target) ∧
    (¬ Block.RunsInto (Listing.read text).instructions target →
      symbols.codeName target ∉ program.externalCalls) := by
  intro symbols program
  have hcontains : symbols.subroutines.contains target = true :=
    contains_subroutines_resolve.mpr hcalled
  have hstart := Block.exists_start_iff (Listing.ascending_read text) hlisted
  have hbody := (heading_mem_functions_iff_start hcontains).trans hstart
  refine ⟨hbody, ?_, fun hfree => ?_⟩
  · intro hruns function hfunction hkind hentry
    exact hstart.mp (Routine.mem_entries.mp (entry_of_address hfunction hkind hentry)).2 hruns
  · exact not_mem_externalCalls (hbody.mpr hfree)

/-- A call of the return behind a return. -/
def calledReturn : String := "$C000: JSR $C004\n$C003: RTS\n$C004: RTS\n"

theorem calledReturn_has_body :
    let symbols := SymbolTable.resolve (Listing.read calledReturn).candidates Sources.empty
    (∃ call ∈ (Listing.read calledReturn).instructions, call.callTarget? = some 0xC004) ∧
    (∃ i ∈ (Listing.read calledReturn).instructions, i.address = 0xC004) ∧
    ¬ Block.RunsInto (Listing.read calledReturn).instructions 0xC004 ∧
    symbols.codeName 0xC004 ∉ (ofListing symbols calledReturn).externalCalls := by
  intro symbols
  have hcalled : ∃ call ∈ (Listing.read calledReturn).instructions, call.callTarget?
      = some 0xC004 := by decide +kernel
  have hlisted : ∃ i ∈ (Listing.read calledReturn).instructions, i.address = 0xC004 := by
    decide +kernel
  have hbody : ∃ function ∈ (ofListing symbols calledReturn).root.walk, function.kind = .function ∧
      function.heading = (symbols.codeName 0xC004, some 0xC004) := by decide +kernel
  obtain ⟨hfree, -, hinside⟩ :=
    called_routine_has_body_iff calledReturn Sources.empty hcalled hlisted
  exact ⟨hcalled, hlisted, hfree.mp hbody, hinside (hfree.mp hbody)⟩

/-- A call of the return behind an instruction that runs on into it. -/
def enteredReturn : String := "$C000: JSR $C004\n$C003: NOP\n$C004: RTS\n"

/-- The listing holds the return that is called, but no routine starts there, and its name counts as
one from outside. -/
theorem enteredReturn_has_no_body :
    let symbols := SymbolTable.resolve (Listing.read enteredReturn).candidates Sources.empty
    let program := ofListing symbols enteredReturn
    (∃ call ∈ (Listing.read enteredReturn).instructions, call.callTarget? = some 0xC004) ∧
    (∃ i ∈ (Listing.read enteredReturn).instructions, i.address = 0xC004) ∧
    (¬ ∃ function ∈ program.root.walk, function.kind = .function ∧ function.address = some 0xC004) ∧
    symbols.codeName 0xC004 ∈ program.externalCalls := by
  decide +kernel

end Program

end Lift6502
