import Lift6502.Listing.Candidates
import Lift6502.Proofs.Machine.CodeAddresses
import Mathlib.Order.Bounds.Defs

/-!
# Which addresses want a name

The sets that are gathered from a listing are those that their descriptions name: what is called,
what is jumped to, and what is read or written, told apart by where it lies. A routine calls itself
if one of its calls goes to its own entry. Which routine a call stands in is settled by all calls of
the listing at once, whether they lead into the listing or out of it.
-/

namespace Lift6502

namespace Candidates

variable {instructions : List Instruction} {sourceLabels : AddressMap String} {address : Address}

theorem mem_setOf {addresses : List Address} : address ∈ setOf addresses ↔ address ∈ addresses := by
  rw [setOf, Std.ExtTreeSet.mem_ofList, List.contains_iff_mem]

theorem mem_subroutines_collect :
    address ∈ (collect instructions sourceLabels).subroutines ↔
      ∃ i ∈ instructions, i.mnemonic = .jsr ∧ i.operand = .absolute address := by
  simp only [collect, mem_setOf, List.mem_filterMap, Instruction.callTarget?_eq_some]

theorem mem_jumpLabels_collect :
    address ∈ (collect instructions sourceLabels).jumpLabels ↔
      ∃ i ∈ instructions, (i.mnemonic = .jmp ∨ i.mnemonic.isConditionalBranch = true) ∧
      i.operand = .absolute address := by
  simp only [collect, mem_setOf, List.mem_filterMap, Instruction.jumpTarget?_eq_some]

/-! ### Data -/

/-- Whether some instruction reads or writes an address. -/
def UsesData (instructions : List Instruction) (address : Address) : Prop :=
  ∃ i ∈ instructions, i.dataAddress? = some address

theorem mem_data_collect {keep : Address → Bool} :
    address ∈ setOf ((instructions.filterMap fun i => i.dataAddress?).filter keep) ↔
      UsesData instructions address ∧ keep address = true := by
  rw [mem_setOf, List.mem_filter, List.mem_filterMap, UsesData]

theorem mem_zeroPage_collect :
    address ∈ (collect instructions sourceLabels).zeroPage ↔ UsesData instructions address ∧
      address ≤ 0x00FF := by
  refine mem_data_collect.trans ?_
  rw [decide_eq_true_iff, Address.zeroPageEnd]

theorem mem_hardware_collect :
    address ∈ (collect instructions sourceLabels).hardware ↔ UsesData instructions address ∧
      0xD000 ≤ address := by
  refine mem_data_collect.trans ?_
  rw [decide_eq_true_iff, Address.ioStart]

theorem mem_memory_collect :
    address ∈ (collect instructions sourceLabels).memory ↔
      UsesData instructions address ∧ 0x00FF < address ∧ address < 0xD000 := by
  refine mem_data_collect.trans ?_
  rw [Bool.and_eq_true, decide_eq_true_iff, decide_eq_true_iff, Address.zeroPageEnd,
    Address.ioStart]

/-! ### Routines that call themselves -/

/-- Whether a routine is entered at an address: code starts there, or it is called. -/
def IsEntry (instructions : List Instruction) (address : Address) : Prop :=
  instructions.head?.map (·.address) = some address ∨
    ∃ i ∈ instructions, i.mnemonic = .jsr ∧ i.operand = .absolute address

theorem enclosingEntry?_eq_some_iff {entries : List Address} {entry : Address} :
    enclosingEntry? entries address = some entry ↔
      IsGreatest {other | other ∈ entries ∧ other ≤ address} entry := by
  have hmax (left right : Address) : max left right = if left ≤ right then right else left := rfl
  have hlawful : Std.LawfulOrderMax Address :=
    { max_eq_or := fun left right => by
        rw [hmax]
        split
        · exact Or.inr rfl
        · exact Or.inl rfl
      max_le_iff := fun left right bound => by
        rw [hmax]
        grind }
  unfold enclosingEntry?
  rw [List.max?_eq_some_iff]
  simp only [List.mem_filter, decide_eq_true_iff]
  rfl

/-- Entries are looked for among the calls and the start of the code. -/
theorem mem_recursive_collect {target : Address} :
    target ∈ (collect instructions sourceLabels).recursive ↔
      ∃ call ∈ instructions, call.mnemonic = .jsr ∧ call.operand = .absolute target ∧
        IsGreatest {entry | IsEntry instructions entry ∧ entry ≤ call.address} target := by
  have hentries (entry : Address) :
      entry ∈ (instructions.head?.map (·.address)).toList
        ++ (collect instructions sourceLabels).subroutines.toList ↔
        IsEntry instructions entry := by
    rw [List.mem_append, Option.mem_toList, Std.ExtTreeSet.mem_toList,
      mem_subroutines_collect, IsEntry]
  have hset : (collect instructions sourceLabels).recursive = setOf (instructions.filterMap fun i =>
      i.callTarget?.filter fun target => enclosingEntry?
        ((instructions.head?.map (·.address)).toList
          ++ (collect instructions sourceLabels).subroutines.toList) i.address
          == some target) := rfl
  rw [hset, mem_setOf, List.mem_filterMap]
  refine exists_congr fun call => and_congr_right fun _ => ?_
  rw [Option.filter_eq_some_iff, Instruction.callTarget?_eq_some, beq_iff_eq,
    enclosingEntry?_eq_some_iff, and_assoc]
  simp only [hentries]

/-- Everything that a listing uses is gathered where it belongs, and nothing else is. An address is
a subroutine if a call names it, and a label if a jump or a branch does. Data is told apart by where
it lies, so that no address is in two of the three sets. A routine calls itself if a call names it
and it is the nearest entry at or below that call. -/
theorem candidates_exact (instructions : List Instruction) (sourceLabels : AddressMap String) :
    let candidates := collect instructions sourceLabels
    (∀ address, address ∈ candidates.subroutines ↔
      ∃ i ∈ instructions, i.mnemonic = .jsr ∧ i.operand = .absolute address) ∧
    (∀ address, address ∈ candidates.jumpLabels ↔
      ∃ i ∈ instructions, (i.mnemonic = .jmp ∨ i.mnemonic.isConditionalBranch = true) ∧
      i.operand = .absolute address) ∧
    (∀ address, address ∈ candidates.zeroPage ↔ UsesData instructions address ∧ address ≤ 0x00FF) ∧
    (∀ address, address ∈ candidates.hardware ↔ UsesData instructions address ∧ 0xD000 ≤ address) ∧
    (∀ address, address ∈ candidates.memory ↔ UsesData instructions address ∧ 0x00FF < address ∧
      address < 0xD000) ∧
    (∀ address, ¬ (address ∈ candidates.zeroPage ∧ address ∈ candidates.hardware) ∧
      ¬ (address ∈ candidates.zeroPage ∧ address ∈ candidates.memory) ∧
      ¬ (address ∈ candidates.hardware ∧ address ∈ candidates.memory)) ∧
    ∀ target, target ∈ candidates.recursive ↔
      ∃ call ∈ instructions, call.mnemonic = .jsr ∧ call.operand = .absolute target ∧
        IsGreatest {entry | IsEntry instructions entry ∧ entry ≤ call.address} target := by
  refine ⟨fun _ => mem_subroutines_collect, fun _ => mem_jumpLabels_collect,
    fun _ => mem_zeroPage_collect, fun _ => mem_hardware_collect, fun _ => mem_memory_collect,
    fun address => ?_, fun _ => mem_recursive_collect⟩
  rw [mem_zeroPage_collect, mem_hardware_collect, mem_memory_collect]
  have hareas : (0x00FF : Address) < 0xD000 := by decide
  refine ⟨?_, ?_, ?_⟩
  · rintro ⟨⟨-, hlow⟩, -, hhigh⟩
    exact UInt16.not_lt.mpr (UInt16.le_trans hhigh hlow) hareas
  · rintro ⟨⟨-, hlow⟩, -, hbetween, -⟩
    exact UInt16.not_lt.mpr hlow hbetween
  · rintro ⟨⟨-, hhigh⟩, -, -, hbetween⟩
    exact UInt16.not_lt.mpr hhigh hbetween

end Candidates

end Lift6502
