import Lift6502.Proofs.Machine.Maps
import Lift6502.Proofs.Symbol.TableKeys
import Lift6502.Proofs.Text.ByteOrder

/-!
# Reading a table of names

The members of an object compete where their keys spell one address. The entry of an address comes
from the greatest key, byte by byte, among those that spell the address and have a value that can be
used. Members that cannot be used are as good as not there, wherever they stand.
-/

namespace Lift6502

/-! ### Members of an object -/

/-- Of several members of one name the last one counts. -/
theorem Json.member?_object_eq_some_iff {name : String} {members : List (String × Json)}
    {value : Json} :
    member? name (.object members) = some value ↔
      ∃ before after, members = before ++ (name, value) :: after ∧
        ∀ member ∈ after, member.1 ≠ name := by
  constructor
  · intro h
    obtain ⟨member, hlast, rfl⟩ := Option.map_eq_some_iff.mp h
    obtain ⟨others, hfilter⟩ := List.getLast?_eq_some_iff.mp hlast
    obtain ⟨front, back, rfl, -, hback⟩ := List.filter_eq_append_iff.mp hfilter
    obtain ⟨between, after, rfl, -, hname, hafter⟩ := List.filter_eq_cons_iff.mp hback
    refine ⟨front ++ between, after, ?_, fun member hmember => ?_⟩
    · rw [← eq_of_beq hname, List.append_assoc]
    · simpa using List.filter_eq_nil_iff.mp hafter member hmember
  · rintro ⟨before, after, rfl, hafter⟩
    have hnone : after.filter (·.1 == name) = [] :=
      List.filter_eq_nil_iff.mpr (by simpa using hafter)
    rw [member?, List.filter_append, List.filter_cons_of_pos (by simp), hnone, List.getLast?_concat]
    rfl

namespace EntryTable

theorem getElem?_ofList_members (members : List (String × Json)) (key : String) :
    (Std.ExtTreeMap.ofList members : NameMap Json)[key]? = Json.member? key (.object members) :=
  Option.ext fun _ => getElem?_ofList_eq_some_iff.trans Json.member?_object_eq_some_iff.symm

/-! ### Values -/

/-- The two names that a description may have, each with the one that it rules out. -/
def descriptionNames :
    List (String × String) := [("description", "comment"), ("comment", "description")]

/-- The values that can be used: a name, or an object with a name and at most one description or
comment, which may be null. -/
inductive IsEntry : Json → Entry → Prop where
  | name (name : String) : IsEntry (.string name) { name }
  | undescribed {members : List (String × Json)} {name : String}
      (hname : Json.member? "name" (.object members) = some (.string name))
      (hdescription : Json.member? "description" (.object members) = none)
      (hcomment : Json.member? "comment" (.object members) = none) :
      IsEntry (.object members) { name }
  | described {members : List (String × Json)} {name field other : String} {value : Json}
    {description : Option String}
      (hname : Json.member? "name" (.object members) = some (.string name))
      (hfields : (field, other) ∈ descriptionNames)
      (hfield : Json.member? field (.object members) = some value)
      (hother : Json.member? other (.object members) = none)
      (hvalue : value = .null ∧ description = none ∨
        ∃ text, value = .string text ∧ description = some text) :
      IsEntry (.object members) { name, description }

theorem description?_eq_some_iff {value : Json} {description : Option String} :
    description? value = some description ↔
      value = .null ∧ description = none ∨ ∃ text, value = .string text ∧
      description = some text := by
  cases value <;> simp [description?, eq_comm]

theorem entry?_eq_some_iff {value : Json} {entry : Entry} :
    entry? value = some entry ↔ IsEntry value entry := by
  constructor
  · intro h
    unfold entry? at h
    split at h
    · cases h
      exact .name _
    · split at h
      · rename_i hname hdescription hcomment
        cases h
        exact .undescribed hname hdescription hcomment
      · rename_i hname hfield hother
        obtain ⟨description, hvalue, rfl⟩ := Option.map_eq_some_iff.mp h
        exact .described hname (by decide) hfield hother (description?_eq_some_iff.mp hvalue)
      · rename_i hname hother hfield
        obtain ⟨description, hvalue, rfl⟩ := Option.map_eq_some_iff.mp h
        exact .described hname (by decide) hfield hother (description?_eq_some_iff.mp hvalue)
      · cases h
    · cases h
  · intro h
    cases h with
    | name name => rfl
    | undescribed hname hdescription hcomment => simp only [ entry?, hname, hdescription, hcomment]
    | described hname hfields hfield hother hvalue =>
      rw [← description?_eq_some_iff] at hvalue
      simp only [descriptionNames, List.mem_cons, Prod.mk.injEq, List.not_mem_nil, or_false]
        at hfields
      rcases hfields with ⟨rfl, rfl⟩ | ⟨rfl, rfl⟩
      · simp only [ entry?, hname, hfield, hother, hvalue, Option.map_some]
      · simp only [ entry?, hname, hfield, hother, hvalue, Option.map_some]

/-! ### Offers -/

/-- Whether a member offers an entry for an address: its key spells the address, and its value, the
last one under that key, can be used. -/
structure Offers (members : List (String × Json)) (key : String) (address : Address)
    (entry : Entry) : Prop where
  spells : ∃ form : Grammar.KeyForm, form.text = key.toList ∧ form.address = address
  gives : ∃ value, Json.member? key (.object members) = some value ∧ IsEntry value entry

/-- Whether a key spells no address or has a value that cannot be used. -/
def Malformed (members : List (String × Json)) (key : String) : Prop :=
  (¬ ∃ form : Grammar.KeyForm, form.text = key.toList) ∨
    ∀ value, Json.member? key (.object members) = some value → ∀ entry, ¬ IsEntry value entry

variable {members : List (String × Json)} {key : String} {address : Address} {entry : Entry}

theorem row?_eq_some_iff {value : Json} :
    row? (key, value) = some (address, entry) ↔ address? key = some address ∧
      entry? value = some entry := by
  simp [row?, Option.bind_eq_some_iff]

/-- The members of an object that count, in the order of their keys. -/
def sorted (members : List (String × Json)) : List (String × Json) :=
  (Std.ExtTreeMap.ofList members : NameMap Json).toList

theorem mem_sorted_iff {value : Json} :
    (key, value) ∈ sorted members ↔ Json.member? key (.object members) = some value := by
  rw [sorted, Std.ExtTreeMap.mem_toList_iff_getElem?_eq_some, getElem?_ofList_members]

theorem pairwise_sorted (members : List (String × Json)) :
    (sorted members).Pairwise fun left right => Text.bytes left.1 < Text.bytes right.1 := by
  refine List.Pairwise.imp ?_
    (Std.ExtTreeMap.ordered_keys_toList (t := (Std.ExtTreeMap.ofList members : NameMap Json)))
  intro left right hlt
  exact Text.lt_iff_bytes_lt.mp (compareOfLessAndEq_eq_lt.mp hlt)

theorem offers_iff :
    Offers members key address entry ↔ ∃ value, (key, value) ∈ sorted members ∧
      row? (key, value) = some (address, entry) := by
  simp only [mem_sorted_iff, row?_eq_some_iff, address?_eq_some_iff, entry?_eq_some_iff]
  constructor
  · rintro ⟨hspells, value, hmember, hvalue⟩
    exact ⟨value, hmember, hspells, hvalue⟩
  · rintro ⟨value, hmember, hspells, hvalue⟩
    exact ⟨hspells, value, hmember, hvalue⟩

theorem Malformed.not_offers (h : Malformed members key) (address : Address) (entry : Entry) :
    ¬ Offers members key address entry := by
  rintro ⟨⟨form, htext, -⟩, value, hmember, hvalue⟩
  rcases h with hkey | hvalues
  · exact hkey ⟨form, htext⟩
  · exact hvalues value hmember entry hvalue

/-! ### The greatest key -/

/-- Whether a key has the last word on an address: no greater key offers an entry for it. -/
def Decides (members : List (String × Json)) (key : String) (address : Address)
    (entry : Entry) : Prop :=
  Offers members key address entry ∧
    ∀ other found, Offers members other address found →
    other = key ∨ Text.bytes other < Text.bytes key

theorem getElem?_ofMembers_eq_some_iff :
    (ofMembers members)[address]? = some entry ↔ ∃ key, Decides members key address entry := by
  change (Std.ExtTreeMap.ofList ((sorted members).filterMap row?))[address]? = some entry ↔ _
  have hordered := pairwise_sorted members
  rw [getElem?_ofList_eq_some_iff]
  constructor
  · rintro ⟨before, after, hrows, hafter⟩
    obtain ⟨front, back, hsplit, -, hback⟩ := List.filterMap_eq_append_iff.mp hrows
    obtain ⟨between, ⟨key, value⟩, rest, rfl, hbetween, hrow, rfl⟩ :=
      List.filterMap_eq_cons_iff.mp hback
    rw [← List.append_assoc] at hsplit
    refine ⟨key, offers_iff.mpr ⟨value, by simp [hsplit], hrow⟩, fun other found hother => ?_⟩
    obtain ⟨otherValue, hmem, hotherRow⟩ := offers_iff.mp hother
    rw [hsplit] at hordered hmem
    rcases List.mem_append.mp hmem with hfront | hback
    · exact Or.inr ((List.pairwise_append.mp hordered).2.2 _ hfront _ List.mem_cons_self)
    · rcases List.mem_cons.mp hback with hsame | hrest
      · exact Or.inl (congrArg Prod.fst hsame)
      · -- A later row for the address would have been the last one.
        exact absurd rfl (hafter (address, found) (List.mem_filterMap.mpr ⟨_, hrest, hotherRow⟩))
  · rintro ⟨key, hoffers, hgreatest⟩
    obtain ⟨value, hmem, hrow⟩ := offers_iff.mp hoffers
    obtain ⟨front, rest, hsplit⟩ := List.append_of_mem hmem
    refine ⟨front.filterMap row?, rest.filterMap row?, ?_, ?_⟩
    · rw [hsplit, List.filterMap_append, List.filterMap_cons_some hrow]
    · rintro ⟨same, found⟩ hfound rfl
      obtain ⟨⟨other, otherValue⟩, hrest, hotherRow⟩ := List.mem_filterMap.mp hfound
      have hother : Offers members other same found :=
        offers_iff.mpr ⟨otherValue, by simp [hsplit, hrest], hotherRow⟩
      rw [hsplit] at hordered
      have hlt : Text.bytes key < Text.bytes other :=
        List.rel_of_pairwise_cons (List.pairwise_append.mp hordered).2.1 hrest
      rcases hgreatest other found hother with rfl | hgt
      · exact List.lt_irrefl _ hlt
      · exact List.lt_asymm hlt hgt

theorem mem_ofMembers_iff :
    address ∈ ofMembers members ↔ ∃ key entry, Offers members key address entry := by
  rw [← Std.ExtTreeMap.isSome_getElem?_iff_mem, Option.isSome_iff_exists]
  constructor
  · rintro ⟨entry, hentry⟩
    obtain ⟨key, hoffers, -⟩ := getElem?_ofMembers_eq_some_iff.mp hentry
    exact ⟨key, entry, hoffers⟩
  · rintro ⟨key, entry, hoffers⟩
    obtain ⟨value, hmem, hrow⟩ := offers_iff.mp hoffers
    exact exists_getElem?_ofList (List.mem_filterMap.mpr ⟨_, hmem, hrow⟩)

/-! ### Members that cannot be used -/

theorem ofMembers_eq_of_offers {others : List (String × Json)}
    (h : ∀ key address entry, Offers members key address entry ↔ Offers others key address entry) :
    ofMembers members = ofMembers others := by
  apply Std.ExtTreeMap.ext_getElem?
  intro address
  apply Option.ext
  intro entry
  simp only [getElem?_ofMembers_eq_some_iff, Decides, h]

/-- Leaving out members by their names leaves the others as they are. -/
theorem member?_filter (drop : String → Bool) (name : String) :
    Json.member? name (.object (members.filter fun member => !drop member.1))
      = if drop name then none else Json.member? name (.object members) := by
  rw [Json.member?, Json.member?, List.filter_filter]
  split
  · rename_i hdrop
    have hnone : (members.filter fun member => member.1 == name && !drop member.1) = [] := by
      rw [List.filter_eq_nil_iff]
      rintro member - hmember
      rw [Bool.and_eq_true, Bool.not_eq_true'] at hmember
      rw [eq_of_beq hmember.1, hdrop] at hmember
      cases hmember.2
    rw [hnone]
    rfl
  · rename_i hkeep
    have hsame : (members.filter fun member => member.1 == name && !drop member.1)
        = members.filter (·.1 == name) := by
      apply List.filter_congr
      intro member _
      cases hname : member.1 == name with
      | false => rfl
      | true => rw [eq_of_beq hname, Bool.eq_false_iff.mpr hkeep]; rfl
    rw [hsame]

theorem ofMembers_filter {drop : String → Bool}
    (hdrop : ∀ key, drop key = true → Malformed members key) :
    ofMembers (members.filter fun member => !drop member.1) = ofMembers members := by
  apply ofMembers_eq_of_offers
  intro key address entry
  by_cases hkey : drop key = true
  · refine iff_of_false ?_ ((hdrop key hkey).not_offers address entry)
    rintro ⟨-, value, hmember, -⟩
    rw [member?_filter, if_pos hkey] at hmember
    cases hmember
  · have hsame : Json.member? key (.object (members.filter fun member => !drop member.1))
        = Json.member? key (.object members) := by
      rw [member?_filter, if_neg hkey]
    constructor
    · rintro ⟨hspells, hgives⟩
      exact ⟨hspells, by rwa [hsame] at hgives⟩
    · rintro ⟨hspells, hgives⟩
      exact ⟨hspells, by rwa [hsame]⟩

/-- A key spells an address exactly if it is written in one of the forms of keys. In the table of a
text that is an object, the entry of an address is offered by the greatest key that offers one; and
members with a malformed key or value can be left out of the object without changing the table. -/
theorem table_entries_from_greatest_keys :
    (∀ key address, address? key = some address ↔ ∃ form : Grammar.KeyForm, form.text = key.toList ∧
      form.address = address) ∧
    ∀ text members, Json.read? text.toList = some (.object members) →
    ∃ table, ofText? text = some table ∧
      (∀ address entry, table[address]? = some entry ↔ ∃ key, Decides members key address entry) ∧
      (∀ address, address ∈ table ↔ ∃ key entry, Offers members key address entry) ∧
      ∀ drop : String → Bool, (∀ key, drop key = true → Malformed members key) →
        ofMembers (members.filter fun member => !drop member.1) = table := by
  refine ⟨fun key address => address?_eq_some_iff, fun text members hread =>
    ⟨ofMembers members, ?_, ?_, ?_, ?_⟩⟩
  · rw [ofText?, hread]
  · exact fun address entry => getElem?_ofMembers_eq_some_iff
  · exact fun address => mem_ofMembers_iff
  · exact fun drop hdrop => ofMembers_filter hdrop

/-- Three keys for one address, of which the greatest has a value that cannot be used. -/
def competingKeys : String := "\x7b\"$0400\": \"SCREEN\", \"0400\": null, \" #+1024\": \"TEXT\"\x7d"

def competingMembers : List (String × Json) :=
  [("$0400", .string "SCREEN"), ("0400", .null), (" #+1024", .string "TEXT")]

theorem competingKeys_decided :
    address? " #+1024" = some 0x0400 ∧
      Json.read? competingKeys.toList = some (.object competingMembers) ∧
      Malformed competingMembers "0400" ∧
      ∃ table, ofText? competingKeys = some table ∧
      (∃ key, Decides competingMembers key 0x0400 { name := "SCREEN" }) ∧
        ofMembers [("$0400", .string "SCREEN"), (" #+1024", .string "TEXT")] = table := by
  have hread : Json.read? competingKeys.toList = some (.object competingMembers) := by rfl
  have hvalue : Json.member? "0400" (.object competingMembers) = some .null := by rfl
  have hmalformed : Malformed competingMembers "0400" := by
    refine Or.inr fun value hmember entry hentry => ?_
    rw [hvalue] at hmember
    cases hmember
    cases hentry
  obtain ⟨-, htables⟩ := table_entries_from_greatest_keys
  obtain ⟨table, htable, hentries, -, hdrop⟩ := htables competingKeys competingMembers hread
  have hscreen : (ofMembers competingMembers)[(0x0400 : Address)]? = some { name := "SCREEN" } := by
    decide +kernel
  have hsame : table = ofMembers competingMembers := by
    rw [ofText?, hread] at htable
    exact (Option.some.inj htable).symm
  refine ⟨?_, hread, hmalformed, table, htable, (hentries 0x0400 _).mp (hsame ▸ hscreen), ?_⟩
  · decide +kernel
  · refine hdrop (· == "0400") fun key hkey => ?_
    rw [eq_of_beq hkey]
    exact hmalformed

end EntryTable

end Lift6502
