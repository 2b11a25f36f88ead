import Lift6502.Listing.Reader
import Lift6502.Proofs.Text.Printed
import Lift6502.Symbol.Table

/-!
# Different addresses and their names

Names are given in ascending order of the addresses. An address whose own name an address below
already has gets itself appended once, whether or not the longer name is free. So two addresses
share a name exactly when the longer name of one of them is the own name of an address below it,
which can be told from the names that the sources give.
-/

namespace Lift6502.SymbolTable

/-! ### Own names -/

/-- The name that an address gets if no other address has it. -/
def ownName? (candidates : Candidates) (sources : Sources) (address : Address) : Option String :=
  (symbol? candidates sources address).map (·.name)

def qualify (name : String) (address : Address) : String := name ++ "_" ++ Text.hex4 address

theorem hex4_injective {left right : Address}
    (h : (Text.hex4 left).toList = (Text.hex4 right).toList) : left = right := by
  have hleft := (Text.spells_hex4 left).value
  rw [h, (Text.spells_hex4 right).value] at hleft
  exact (Option.some.inj hleft).symm

/-- Appended addresses keep longer names apart. -/
theorem address_eq_of_qualify_eq {left right : Address} {leftName rightName : String}
    (h : qualify leftName left = qualify rightName right) : left = right := by
  have hchars := congrArg String.toList h
  simp only [qualify, String.toList_append] at hchars
  exact hex4_injective (List.append_inj_right' hchars (by simp [Text.hex4]))

/-- Whether an address below already has the own name of an address: as its own, or because its own
was taken in turn. -/
inductive Crowded (own : Address → Option String) : Address → Prop where
  | same {lower address : Address} {name : String} (below : lower < address)
    (hlower : own lower = some name)
    (haddress : own address = some name) : Crowded own address
  | qualified {lower address : Address} {name : String} (below : lower < address)
    (crowded : Crowded own lower)
    (hlower : own lower = some name) (haddress : own address = some (qualify name lower)) :
    Crowded own address

/-! ### Names that are given -/

/-- Whether names are given in ascending order: an own name that is free is kept, and one that is
taken is qualified. -/
structure Given (own final : Address → Option String) : Prop where
  unnamed : ∀ address, own address = none → final address = none
  kept : ∀ address name, own address = some name → (∀ lower < address, final lower ≠ some name) →
    final address = some name
  qualified : ∀ address name, own address = some name → ∀ lower < address, final lower = some name →
    final address = some (qualify name address)

namespace Given

variable {own final : Address → Option String}

/-- What an address is called is its own name, or its own name qualified because it was taken. -/
theorem cases (h : Given own final) {address : Address} {name : String}
    (hname : final address = some name) :
    (own address = some name ∧ ∀ lower < address, final lower ≠ some name) ∨
      ∃ plain lower, own address = some plain ∧ lower < address ∧ final lower = some plain ∧
      name = qualify plain address := by
  cases hown : own address with
  | none =>
    rw [h.unnamed address hown] at hname
    cases hname
  | some plain =>
    by_cases htaken : ∃ lower < address, final lower = some plain
    · obtain ⟨lower, hlower, hfinal⟩ := htaken
      rw [h.qualified address plain hown lower hlower hfinal] at hname
      exact Or.inr ⟨plain, lower, rfl, hlower, hfinal, (Option.some.inj hname).symm⟩
    · have hfree : ∀ lower < address, final lower ≠ some plain :=
        fun lower hlower hfinal => htaken ⟨lower, hlower, hfinal⟩
      rw [h.kept address plain hown hfree] at hname
      cases hname
      exact Or.inl ⟨rfl, hfree⟩

theorem exists_final_of_own (h : Given own final) {address : Address} {name : String}
    (hown : own address = some name) : ∃ lower ≤ address, final lower = some name := by
  by_cases htaken : ∃ lower < address, final lower = some name
  · obtain ⟨lower, hlower, hfinal⟩ := htaken
    exact ⟨lower, UInt16.le_of_lt hlower, hfinal⟩
  · have hfree : ∀ lower < address, final lower ≠ some name :=
      fun lower hlower hfinal => htaken ⟨lower, hlower, hfinal⟩
    exact ⟨address, UInt16.le_refl address, h.kept address name hown hfree⟩

/-- A longer name is given because the plain one was taken, so what crowds an address is found
further and further down. -/
theorem crowded_of_taken (h : Given own final) {lower address : Address} {name : String}
    (hown : own address = some name) (below : lower < address) (htaken : final lower = some name) :
    Crowded own address := by
  rcases h.cases htaken with ⟨hlower, -⟩ | ⟨plain, under, hlower, hunder, hplain, rfl⟩
  · exact .same below hlower hown
  · exact .qualified below (h.crowded_of_taken hlower hunder hplain) hlower hown
termination_by address.toNat
decreasing_by exact UInt16.lt_iff_toNat_lt.mp below

theorem taken_of_crowded (h : Given own final) {address : Address} (hcrowded : Crowded own address)
    {name : String} (hown : own address = some name) :
    ∃ lower < address, final lower = some name := by
  induction hcrowded generalizing name with
  | same below hlower haddress =>
    rw [haddress] at hown
    cases hown
    obtain ⟨under, hunder, hfinal⟩ := h.exists_final_of_own hlower
    exact ⟨under, UInt16.lt_of_le_of_lt hunder below, hfinal⟩
  | qualified below _ hlower haddress ih =>
    rw [haddress] at hown
    cases hown
    obtain ⟨under, hunder, hplain⟩ := ih hlower
    exact ⟨_, below, h.qualified _ _ hlower under hunder hplain⟩

/-- Names are different unless a longer name is one that an address below has of its own. -/
theorem distinct_iff (h : Given own final) :
    (∀ left right leftName rightName, left ≠ right → final left = some leftName →
      final right = some rightName →
      leftName ≠ rightName) ↔
    ∀ lower address name, lower < address → Crowded own address → own address = some name →
      own lower ≠ some (qualify name address) := by
  constructor
  · intro hdistinct lower address name below hcrowded hown hlower
    obtain ⟨taken, htaken, hplain⟩ := h.taken_of_crowded hcrowded hown
    obtain ⟨under, hunder, hsame⟩ := h.exists_final_of_own hlower
    have hne : under ≠ address := UInt16.ne_of_lt (UInt16.lt_of_le_of_lt hunder below)
    exact hdistinct under address _ _ hne hsame
      (h.qualified address name hown taken htaken hplain) rfl
  · intro hfree
    have hbelow {lower address : Address} {name : String} (below : lower < address)
        (hlower : final lower = some name) :
        final address ≠ some name := by
      intro haddress
      rcases h.cases haddress with ⟨-, hunused⟩ | ⟨plain, taken, hown, htaken, hplain, rfl⟩
      · exact hunused lower below hlower
      · rcases h.cases hlower with ⟨hlower, -⟩ | ⟨other, -, -, -, -, hsame⟩
        · exact hfree lower address plain below (h.crowded_of_taken hown htaken hplain) hown hlower
        · exact UInt16.ne_of_lt below (address_eq_of_qualify_eq hsame).symm
    rintro left right name _ hne hleft hright rfl
    rcases UInt16.lt_or_lt_of_ne hne with hlt | hgt
    · exact hbelow hlt hleft hright
    · exact hbelow hgt hright hleft

end Given

/-! ### Naming addresses one by one -/

namespace Naming

def name? (naming : Naming) (address : Address) : Option String :=
  naming.symbols[address]?.map (·.name)

/-- Whether symbols have been named one after the other. -/
structure Holds (naming : Naming) (done : List Symbol) : Prop where
  taken : ∀ name, naming.taken.contains name = true ↔ ∃ address, naming.name? address = some name
  unnamed : ∀ address, (∀ symbol ∈ done, symbol.address ≠ address) → naming.name? address = none
  kept : ∀ symbol ∈ done, (∀ lower < symbol.address, naming.name? lower ≠ some symbol.name) →
    naming.name? symbol.address = some symbol.name
  qualified : ∀ symbol ∈ done, ∀ lower < symbol.address, naming.name? lower = some symbol.name →
    naming.name? symbol.address = some (qualify symbol.name symbol.address)

theorem holds_nil : ({} : Naming).Holds [] := by
  have hnone (address : Address) : ({} : Naming).name? address = none := by
    change (∅ : AddressMap Symbol)[address]?.map _ = none
    simp
  refine ⟨fun name => ?_, fun address _ => hnone address, by simp, by simp⟩
  change (∅ : NameSet).contains name = true ↔ _
  simp [hnone]

variable {naming : Naming} {done : List Symbol} {symbol : Symbol}

theorem name?_add_of_ne {address : Address} (h : symbol.address ≠ address) :
    (naming.add symbol).name? address = naming.name? address := by
  simp only [name?, add]
  rw [Std.ExtTreeMap.getElem?_insert,
    if_neg (fun heq => h (Std.LawfulEqCmp.compare_eq_iff_eq.mp heq))]

theorem name?_add_self :
    (naming.add symbol).name? symbol.address
      = some (if naming.taken.contains symbol.name then qualify symbol.name symbol.address
        else symbol.name) := by
  simp only [name?, add]
  rw [Std.ExtTreeMap.getElem?_insert_self]
  rfl

theorem contains_taken_add {name : String} :
    (naming.add symbol).taken.contains name = true ↔
      (naming.add symbol).name? symbol.address = some name ∨ naming.taken.contains name = true := by
  rw [name?_add_self, Option.some.injEq]
  simp only [add, Std.ExtTreeSet.contains_insert, Bool.or_eq_true, beq_iff_eq,
    Std.LawfulEqCmp.compare_eq_iff_eq]
  rfl

theorem Holds.taken_iff_below (h : naming.Holds done)
    (habove : ∀ other ∈ done, other.address < symbol.address) {name : String} :
    naming.taken.contains name = true ↔ ∃ lower < symbol.address, naming.name? lower
      = some name := by
  rw [h.taken]
  constructor
  · rintro ⟨address, hname⟩
    refine ⟨address, Decidable.byContradiction fun hnot => ?_, hname⟩
    have hunnamed : naming.name? address = none := h.unnamed address fun other hother heq =>
      hnot (heq ▸ habove other hother)
    rw [hunnamed] at hname
    cases hname
  · rintro ⟨lower, -, hname⟩
    exact ⟨lower, hname⟩

/-- A symbol above all others is named by what was taken before it, and changes nothing below it. -/
theorem Holds.add (h : naming.Holds done)
    (habove : ∀ other ∈ done, other.address < symbol.address) :
    (naming.add symbol).Holds (done ++ [symbol]) := by
  have hbelow {lower : Address} (below : lower < symbol.address) :
      (naming.add symbol).name? lower = naming.name? lower :=
    name?_add_of_ne (UInt16.ne_of_lt below).symm
  refine ⟨fun name => ?taken, fun address hfree => ?unnamed, fun other hother hunused => ?kept,
    fun other hother lower below hlower => ?qualified⟩
  case taken =>
    rw [contains_taken_add, h.taken_iff_below habove]
    constructor
    · rintro (hself | ⟨lower, below, hname⟩)
      · exact ⟨_, hself⟩
      · exact ⟨lower, (hbelow below).trans hname⟩
    · rintro ⟨address, hname⟩
      by_cases hself : symbol.address = address
      · subst hself
        exact Or.inl hname
      · rw [name?_add_of_ne hself] at hname
        exact Or.inr ((h.taken_iff_below habove).mp ((h.taken name).mpr ⟨address, hname⟩))
  case unnamed =>
    obtain ⟨hdone, hself⟩ := List.forall_mem_append.mp hfree
    rw [name?_add_of_ne (hself symbol List.mem_cons_self)]
    exact h.unnamed address hdone
  -- What was named before lies below the symbol, and so does all that decided its name.
  case kept =>
    rcases List.mem_append.mp hother with hdone | hself
    · have hother := habove other hdone
      rw [hbelow hother]
      refine h.kept other hdone fun lower below => ?_
      rw [← hbelow (UInt16.lt_trans below hother)]
      exact hunused lower below
    · obtain rfl := List.mem_singleton.mp hself
      rw [name?_add_self, if_neg]
      rw [h.taken_iff_below habove]
      rintro ⟨lower, below, hname⟩
      exact hunused lower below ((hbelow below).trans hname)
  case qualified =>
    rcases List.mem_append.mp hother with hdone | hself
    · have hother := habove other hdone
      rw [hbelow (UInt16.lt_trans below hother)] at hlower
      rw [hbelow hother]
      exact h.qualified other hdone lower below hlower
    · obtain rfl := List.mem_singleton.mp hself
      rw [hbelow below] at hlower
      rw [name?_add_self, if_pos ((h.taken_iff_below habove).mpr ⟨lower, below, hlower⟩)]

theorem Holds.foldl (h : naming.Holds done) (symbols : List Symbol)
    (hascending : (done ++ symbols).Pairwise fun left right => left.address < right.address) :
    (symbols.foldl Naming.add naming).Holds (done ++ symbols) := by
  induction symbols generalizing naming done with
  | nil =>
    rw [List.append_nil]
    exact h
  | cons symbol rest ih =>
    have habove : ∀ other ∈ done, other.address < symbol.address := fun other hother =>
      (List.pairwise_append.mp hascending).2.2 other hother symbol List.mem_cons_self
    rw [List.append_cons] at hascending ⊢
    exact ih (h.add habove) hascending

end Naming

/-! ### The names of a table -/

section Resolve

variable (candidates : Candidates) (sources : Sources)

theorem address_of_symbol? {address : Address} {symbol : Symbol}
    (h : symbol? candidates sources address = some symbol) : symbol.address = address := by
  unfold symbol? at h
  simp only [Option.bind_eq_bind, Option.bind_eq_some_iff] at h
  obtain ⟨role, -, raw, -, h⟩ := h
  split at h <;> obtain ⟨name, -, h⟩ := Option.bind_eq_some_iff.mp h <;> cases h <;> rfl

theorem mem_addresses_of_symbol? {address : Address} {symbol : Symbol}
    (h : symbol? candidates sources address = some symbol) : address ∈ candidates.addresses := by
  have hrole : candidates.role? address ≠ none := by
    intro hnone
    rw [symbol?, hnone] at h
    cases h
  rw [Candidates.addresses, Std.ExtTreeSet.mem_toList, Candidates.setOf, Std.ExtTreeSet.mem_ofList,
    List.contains_iff_mem]
  simp only [List.mem_append, Std.ExtTreeSet.mem_toList]
  simp only [Candidates.role?, Std.ExtTreeSet.contains_iff_mem] at hrole
  grind

theorem pairwise_found :
    (candidates.addresses.filterMap (symbol? candidates sources)).Pairwise fun left right =>
      left.address < right.address := by
  rw [List.pairwise_filterMap]
  refine List.Pairwise.imp ?_ Std.ExtTreeSet.ordered_toList
  intro lower upper hlt left hleft right hright
  rw [address_of_symbol? candidates sources hleft, address_of_symbol? candidates sources hright]
  exact compareOfLessAndEq_eq_lt.mp hlt

theorem given_resolve : Given (ownName? candidates sources) (resolve candidates sources).name? := by
  have hholds := Naming.holds_nil.foldl _ (pairwise_found candidates sources)
  rw [List.nil_append] at hholds
  have hmem {address : Address} {name : String}
      (hown : ownName? candidates sources address = some name) :
      ∃ symbol ∈ candidates.addresses.filterMap (symbol? candidates sources),
        symbol.address = address ∧ symbol.name = name := by
    obtain ⟨symbol, hsymbol, hname⟩ := Option.map_eq_some_iff.mp hown
    exact ⟨symbol, List.mem_filterMap.mpr
      ⟨address, mem_addresses_of_symbol? candidates sources hsymbol, hsymbol⟩,
        address_of_symbol? candidates sources hsymbol, hname⟩
  refine ⟨fun address hnone => hholds.unnamed address ?_, fun address name hown => ?_,
    fun address name hown => ?_⟩
  · rintro symbol hfound rfl
    obtain ⟨address, -, hsymbol⟩ := List.mem_filterMap.mp hfound
    rw [address_of_symbol? candidates sources hsymbol, ownName?, hsymbol] at hnone
    cases hnone
  · obtain ⟨symbol, hfound, rfl, rfl⟩ := hmem hown
    exact hholds.kept symbol hfound
  · obtain ⟨symbol, hfound, rfl, rfl⟩ := hmem hown
    exact hholds.qualified symbol hfound

end Resolve

/-- The addresses of a table have different names exactly when no name that has to be qualified
becomes the own name of an address below. -/
theorem names_distinct_iff (candidates : Candidates) (sources : Sources) :
    (∀ left right leftName rightName, left ≠ right →
      (resolve candidates sources).name? left = some leftName →
      (resolve candidates sources).name? right = some rightName → leftName ≠ rightName) ↔
    ∀ lower address name, lower < address → Crowded (ownName? candidates sources) address →
      ownName? candidates sources address = some name →
      ownName? candidates sources lower ≠ some (qualify name address) :=
  (given_resolve candidates sources).distinct_iff

/-- Three jumps, of which the last has the label of the first, and the second the name that this
becomes. -/
def threeLoops : String :=
  "loop: $C000: JMP $C000\nloop_C006: $C003: JMP $C003\nloop: $C006: JMP $C006\n"

/-- Two of the jumps go to one name, though not to one address. -/
theorem threeLoops_names_clash :
    let symbols := resolve (Listing.read threeLoops).candidates Sources.empty
    (0xC003 : Address) ≠ 0xC006 ∧ symbols.name? 0xC003 = some "loop_C006" ∧
      symbols.name? 0xC006 = some "loop_C006" := by
  decide +kernel

end Lift6502.SymbolTable
