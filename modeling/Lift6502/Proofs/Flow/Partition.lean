import Lift6502.Flow.Block
import Mathlib.Data.List.Nodup
import Mathlib.Data.List.SplitBy

/-!
# Basic blocks hold every instruction once

Cutting a listing into blocks loses nothing, so a run of neighbouring blocks has the addresses of a
run of neighbouring instructions. In ascending order an address then names one instruction, and the
instructions of several blocks that a block contains are exactly its own.
-/

namespace Lift6502

/-- Instructions in strictly ascending order of their addresses. -/
def Ascending (instructions : List Instruction) : Prop :=
  instructions.Pairwise fun left right => left.address < right.address

instance (instructions : List Instruction) : Decidable (Ascending instructions) :=
  inferInstanceAs (Decidable (instructions.Pairwise fun left right => left.address < right.address))

namespace Ascending

theorem sublist {instructions part : List Instruction} (h : Ascending instructions)
    (hpart : part.Sublist instructions) : Ascending part :=
  List.Pairwise.sublist hpart h

theorem filter {instructions : List Instruction} (h : Ascending instructions)
    (keep : Instruction → Bool) : Ascending (instructions.filter keep) :=
  h.sublist List.filter_sublist

theorem nodup_addresses {instructions : List Instruction} (h : Ascending instructions) :
    (instructions.map (·.address)).Nodup := by
  rw [List.Nodup, List.pairwise_map]
  refine List.Pairwise.imp ?_ h
  intro left right hlt heq
  exact UInt16.ne_of_lt hlt heq

theorem eq_of_address_eq {instructions : List Instruction} (h : Ascending instructions)
    {left right : Instruction} (hleft : left ∈ instructions) (hright : right ∈ instructions)
    (haddress : left.address = right.address) : left = right :=
  List.inj_on_of_nodup_map h.nodup_addresses hleft hright haddress

/-- Ascending instructions are determined by which they are. -/
theorem ext {left right : List Instruction} (hleft : Ascending left) (hright : Ascending right)
    (hmem : ∀ i, i ∈ left ↔ i ∈ right) : left = right := by
  have hperm :=
    (List.perm_ext_iff_of_nodup hleft.nodup_addresses.of_map hright.nodup_addresses.of_map).mpr hmem
  refine hperm.eq_of_pairwise ?_ hleft hright
  intro i j _ _ hlt hgt
  exact absurd hlt (UInt16.lt_asymm hgt)

/-- A bound cuts ascending instructions into those in front of it and those from it on. -/
theorem filter_lt_append_filter_le {instructions : List Instruction} (h : Ascending instructions)
    (top : Address) :
    instructions.filter (fun i => i.address < top) ++ instructions.filter (fun i => top ≤ i.address)
      = instructions := by
  induction instructions with
  | nil => rfl
  | cons first rest ih =>
    obtain ⟨hfirst, hrest⟩ := List.pairwise_cons.mp h
    by_cases hlt : first.address < top
    · have hle : ¬ top ≤ first.address := UInt16.not_le.mpr hlt
      simp [hlt, hle, ih hrest]
    · have hle : top ≤ first.address := UInt16.not_lt.mp hlt
      have hnone : rest.filter (fun i => i.address < top) = [] := by
        rw [List.filter_eq_nil_iff]
        intro i hi
        have : first.address < i.address := hfirst i hi
        simpa using UInt16.le_trans hle (UInt16.le_of_lt this)
      have hall : rest.filter (fun i => top ≤ i.address) = rest := by
        rw [← ih hrest, hnone]
        simp
      simp [hlt, hle, hnone, hall]

end Ascending

namespace Block

theorem instructionsOf_append (left right : List Block) :
    instructionsOf (left ++ right) = instructionsOf left ++ instructionsOf right :=
  List.flatMap_append

theorem mem_instructionsOf {blocks : List Block} {instruction : Instruction} :
    instruction ∈ instructionsOf blocks ↔ ∃ block ∈ blocks, instruction ∈ block.instructions :=
  List.mem_flatMap

theorem instructionsOf_filterMap_ofInstructions? {groups : List (List Instruction)}
    (hgroups : [] ∉ groups) :
    instructionsOf (groups.filterMap ofInstructions?) = groups.flatten := by
  induction groups with
  | nil => rfl
  | cons group groups ih =>
    obtain ⟨hgroup, hrest⟩ := not_or.mp (mt List.mem_cons.mpr hgroups)
    cases group with
    | nil => exact absurd rfl hgroup
    | cons first rest =>
      simp only [List.filterMap_cons, ofInstructions?, List.flatten_cons]
      rw [← ih hrest]
      rfl

/-- Cutting into blocks loses no instruction and keeps their order. -/
theorem instructionsOf_partition (instructions : List Instruction) :
    instructionsOf (partition instructions) = instructions := by
  rw [partition, instructionsOf_filterMap_ofInstructions? (List.nil_notMem_splitBy _ _),
    List.flatten_splitBy]

theorem ascending_instructionsOf_of_sublist {blocks part : List Block}
    (h : Ascending (instructionsOf blocks)) (hpart : part.Sublist blocks) :
    Ascending (instructionsOf part) :=
  h.sublist (hpart.flatMap _)

theorem ascending_of_infix_partition {instructions : List Instruction} {segment : List Block}
    (h : Ascending instructions) (hsegment : segment <:+: partition instructions) :
    Ascending (instructionsOf segment) := by
  rw [← instructionsOf_partition instructions] at h
  exact ascending_instructionsOf_of_sublist h hsegment.sublist

theorem sublist_of_mem_partition {instructions : List Instruction} {block : Block}
    (h : block ∈ partition instructions) : block.instructions.Sublist instructions := by
  have hsublist : block.instructions.Sublist (instructionsOf (partition instructions)) :=
    List.sublist_flatten_of_mem (List.mem_map_of_mem h)
  rwa [instructionsOf_partition] at hsublist

theorem contains_eq_true {block : Block} {address : Address} :
    block.contains address = true ↔ ∃ i ∈ block.instructions, i.address = address := by
  simp [contains]

theorem contains_of_mem {block : Block} {instruction : Instruction}
    (h : instruction ∈ block.instructions) : block.contains instruction.address = true :=
  contains_eq_true.mpr ⟨instruction, h, rfl⟩

/-- Of ascending instructions a block contains the addresses of its own and of no other. -/
theorem filter_contains_eq {blocks : List Block} (h : Ascending (instructionsOf blocks))
    {block : Block} (hblock : block ∈ blocks) :
    (instructionsOf blocks).filter (fun i => block.contains i.address) = block.instructions := by
  obtain ⟨before, after, rfl⟩ := List.append_of_mem hblock
  have hall : block.instructions.filter (fun i => block.contains i.address)
      = block.instructions := by
    rw [List.filter_eq_self]
    intro i hi
    exact contains_of_mem hi
  have hsplit : instructionsOf (before ++ block :: after)
      = instructionsOf before ++ (block.instructions ++ instructionsOf after) := by
    rw [instructionsOf_append]
    rfl
  rw [hsplit] at h
  obtain ⟨_, hlater, hbefore⟩ := List.pairwise_append.mp h
  obtain ⟨_, _, hafter⟩ := List.pairwise_append.mp hlater
  have hfront : (instructionsOf before).filter (fun i => block.contains i.address) = [] := by
    rw [List.filter_eq_nil_iff]
    intro i hi hcontains
    obtain ⟨own, hown, haddress⟩ := contains_eq_true.mp hcontains
    exact UInt16.ne_of_lt (hbefore i hi own (List.mem_append_left _ hown)) haddress.symm
  have hback : (instructionsOf after).filter (fun i => block.contains i.address) = [] := by
    rw [List.filter_eq_nil_iff]
    intro i hi hcontains
    obtain ⟨own, hown, haddress⟩ := contains_eq_true.mp hcontains
    exact UInt16.ne_of_lt (hafter own hown i hi) haddress
  rw [hsplit, List.filter_append, List.filter_append, hfront, hall, hback]
  simp

end Block

end Lift6502
