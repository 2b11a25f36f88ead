import Lift6502.Machine.Address

/-!
# Entries of maps

A map that is made from a list of entries holds one entry for each key in the list. Where keys are
repeated, the last entry for the key is the one that is found. An entry for a new key joins those
that a map has, and one that is only put in if it is new moves none of them.
-/

namespace Lift6502

variable {α β : Type} [Ord α] [Std.TransOrd α]

theorem exists_getElem?_ofList [BEq α] [LawfulBEq α] [Std.LawfulBEqOrd α] {entries : List (α × β)}
    {key : α} {value : β} (h : (key, value) ∈ entries) :
    ∃ found, (Std.ExtTreeMap.ofList entries)[key]? = some found := by
  rw [← Option.isSome_iff_exists, Std.ExtTreeMap.isSome_getElem?_iff_mem, Std.ExtTreeMap.mem_ofList,
    List.contains_iff_mem]
  exact List.mem_map_of_mem h

theorem not_mem_of_getElem?_ofList [BEq α] [LawfulBEq α] [Std.LawfulBEqOrd α]
    {entries : List (α × β)} {key : α} (h : (Std.ExtTreeMap.ofList entries)[key]? = none)
    (value : β) : (key, value) ∉ entries := by
  intro hentry
  obtain ⟨found, hfound⟩ := exists_getElem?_ofList hentry
  rw [h] at hfound
  cases hfound

variable [Std.LawfulEqOrd α]

/-- The last entry for a key is the one that is found, and what the map had before only if there is
none. -/
theorem getElem?_insertMany_eq_some_iff {entries : List (α × β)} {map : Std.ExtTreeMap α β}
    {key : α} {value : β} :
    (map.insertMany entries)[key]? = some value ↔
      (∃ before after, entries = before ++ (key, value) :: after ∧ ∀ entry ∈ after, entry.1 ≠ key) ∨
        (∀ entry ∈ entries, entry.1 ≠ key) ∧ map[key]? = some value := by
  induction entries generalizing map with
  | nil => simp
  | cons entry rest ih =>
    rw [Std.ExtTreeMap.insertMany_cons, ih, Std.ExtTreeMap.getElem?_insert]
    by_cases hkey : entry.1 = key
    · subst hkey
      rw [if_pos Std.ReflCmp.compare_self, Option.some.injEq]
      constructor
      · rintro (⟨before, after, rfl, hafter⟩ | ⟨hrest, rfl⟩)
        · exact Or.inl ⟨entry :: before, after, rfl, hafter⟩
        · exact Or.inl ⟨[], rest, rfl, hrest⟩
      · rintro (⟨before, after, hentries, hafter⟩ | ⟨hnone, -⟩)
        · cases before with
          | nil =>
            obtain ⟨hentry, rfl⟩ := List.cons.inj hentries
            exact Or.inr ⟨hafter, congrArg Prod.snd hentry⟩
          | cons first before => exact Or.inl ⟨before, after, (List.cons.inj hentries).2, hafter⟩
        · exact absurd rfl (hnone entry List.mem_cons_self)
    · rw [if_neg fun heq => hkey (Std.LawfulEqCmp.eq_of_compare heq)]
      refine or_congr ?_ (and_congr_left' ?_)
      · constructor
        · rintro ⟨before, after, rfl, hafter⟩
          exact ⟨entry :: before, after, rfl, hafter⟩
        · rintro ⟨before, after, hentries, hafter⟩
          cases before with
          | nil => exact absurd (congrArg Prod.fst (List.cons.inj hentries).1) hkey
          | cons first before => exact ⟨before, after, (List.cons.inj hentries).2, hafter⟩
      · rw [List.forall_mem_cons]
        exact (and_iff_right hkey).symm

theorem getElem?_ofList_eq_some_iff {entries : List (α × β)} {key : α} {value : β} :
    (Std.ExtTreeMap.ofList entries)[key]? = some value ↔
      ∃ before after, entries = before ++ (key, value) :: after ∧
      ∀ entry ∈ after, entry.1 ≠ key := by
  rw [Std.ExtTreeMap.ofList_eq_insertMany_empty, getElem?_insertMany_eq_some_iff,
    Std.ExtTreeMap.getElem?_empty]
  simp

theorem mem_of_getElem?_ofList {entries : List (α × β)} {key : α} {value : β}
    (h : (Std.ExtTreeMap.ofList entries)[key]? = some value) : (key, value) ∈ entries := by
  obtain ⟨before, after, rfl, -⟩ := getElem?_ofList_eq_some_iff.mp h
  exact List.mem_append_right before List.mem_cons_self

/-- In a map whose entries all follow from their keys, every listed key is found with its value. -/
theorem getElem?_ofList_map [BEq α] [LawfulBEq α] [Std.LawfulBEqOrd α] {keys : List α}
    {value : α → β} {key : α} {found : β} :
    (Std.ExtTreeMap.ofList (keys.map fun key => (key, value key)))[key]? = some found ↔
      key ∈ keys ∧ found = value key := by
  constructor
  · intro h
    obtain ⟨same, hsame, heq⟩ := List.mem_map.mp (mem_of_getElem?_ofList h)
    obtain ⟨rfl, rfl⟩ := Prod.mk.injEq .. ▸ heq
    exact ⟨hsame, rfl⟩
  · rintro ⟨hkey, rfl⟩
    obtain ⟨found, hfound⟩ :=
      exists_getElem?_ofList (List.mem_map_of_mem (f := fun key => (key, value key)) hkey)
    obtain ⟨same, _, heq⟩ := List.mem_map.mp (mem_of_getElem?_ofList hfound)
    obtain ⟨rfl, rfl⟩ := Prod.mk.injEq .. ▸ heq
    exact hfound

/-- A map is made again from its entries. -/
theorem ofList_toList (map : Std.ExtTreeMap α β) : Std.ExtTreeMap.ofList map.toList = map := by
  apply Std.ExtTreeMap.ext_getElem?
  intro key
  apply Option.ext
  intro value
  rw [← Std.ExtTreeMap.mem_toList_iff_getElem?_eq_some (t := map)]
  constructor
  · exact mem_of_getElem?_ofList
  · exact Std.ExtTreeMap.getElem?_ofList_of_mem Std.ReflCmp.compare_self
      Std.ExtTreeMap.distinct_keys_toList

/-! ### New entries -/

theorem getElem?_insertIfNew_of_some {map : Std.ExtTreeMap α β} {key : α} {value : β}
    (h : map[key]? = some value) (other : α) (new : β) :
    (map.insertIfNew other new)[key]? = some value := by
  rw [Std.ExtTreeMap.getElem?_insertIfNew, if_neg, h]
  intro hnew
  obtain rfl := Std.LawfulEqCmp.eq_of_compare hnew.1
  apply hnew.2
  rw [← Std.ExtTreeMap.isSome_getElem?_iff_mem, h]
  rfl

theorem getElem?_insert_eq_some_iff {map : Std.ExtTreeMap α β} {key : α} (hnew : map[key]? = none)
    (value : β) (other : α) (found : β) : (map.insert key value)[other]? = some found ↔
      map[other]? = some found ∨ key = other ∧ value = found := by
  rw [Std.ExtTreeMap.getElem?_insert]
  by_cases hkey : key = other
  · subst hkey
    simp [hnew]
  · rw [if_neg (fun heq => hkey (Std.LawfulEqCmp.eq_of_compare heq))]
    simp [hkey]

theorem insertIfNew_eq_insert {map : Std.ExtTreeMap α β} {key : α} (hnew : map[key]? = none)
    (value : β) : map.insertIfNew key value = map.insert key value := by
  have hmem : key ∉ map := by
    intro hmem
    rw [← Std.ExtTreeMap.isSome_getElem?_iff_mem, hnew] at hmem
    cases hmem
  apply Std.ExtTreeMap.ext_getElem?
  intro other
  rw [Std.ExtTreeMap.getElem?_insertIfNew, Std.ExtTreeMap.getElem?_insert]
  simp only [hmem, not_false_eq_true, and_true]

theorem getElem?_insertIfNew_eq_or [DecidableEq α] (map : Std.ExtTreeMap α β) (key : α) (value : β)
    (other : α) :
    (map.insertIfNew key value)[other]?
      = (map[other]?).or (if key = other then some value else none) := by
  cases hfound : map[other]? with
  | some found => exact getElem?_insertIfNew_of_some hfound key value
  | none =>
    by_cases hkey : key = other
    · subst hkey
      rw [insertIfNew_eq_insert hfound]
      simp
    · rw [Std.ExtTreeMap.getElem?_insertIfNew, if_neg fun hsame =>
        hkey (Std.LawfulEqCmp.eq_of_compare hsame.1), hfound]
      simp [hkey]

end Lift6502
