import Lift6502.Proofs.Listing.CandidateUses
import Lift6502.Proofs.Symbol.Names
import Lift6502.Proofs.Text.Identifiers

/-!
# Which addresses are named, and by what

Tables may hold any text as a name. Whatever they hold, an address that a listing goes to, or that
is data in the zero page or in the area of the hardware, has a symbol, because a text that is blank
gives way to a generated name. Other data has one only if the first source that knows it says more
than blanks. Sanitising, generating and qualifying all give identifiers.
-/

namespace Lift6502

theorem isName_generatedName? {address : Address} {role : Role} {name : String}
    (h : role.generatedName? address = some name) : Text.IsName name := by
  have hstart (front : String)
      (hfront : (front.toList.head?.any Text.isNameStart && front.toList.all Text.isNameChar)
        = true) : Text.IsName front := by
    obtain ⟨hfirst, hall⟩ := Bool.and_eq_true _ _ |>.mp hfront
    exact ⟨hfirst, List.all_eq_true.mp hall⟩
  have hdata : Text.IsName (generatedDataName address) := by
    rw [generatedDataName]
    split
    · exact (hstart "ZVAR_" (by decide)).append Text.isNameChar_of_mem_hex2
    · exact (hstart "VAR_" (by decide)).append Text.isNameChar_of_mem_hex4
  cases role with
  | subroutine =>
    obtain rfl := Option.some.inj h
    exact (hstart "SUB_" (by decide)).append Text.isNameChar_of_mem_hex4
  | label =>
    obtain rfl := Option.some.inj h
    exact (hstart "LABEL_" (by decide)).append Text.isNameChar_of_mem_hex4
  | zeroPage | hardware =>
    obtain rfl := Option.some.inj h
    exact hdata
  | memory => cases h

namespace Candidates

/-- Whether a listing uses an address in a way for which names are generated. -/
def Claims (candidates : Candidates) (address : Address) : Prop :=
  address ∈ candidates.subroutines ∨ address ∈ candidates.jumpLabels ∨
    address ∈ candidates.zeroPage ∨
    address ∈ candidates.hardware

/-- The role of an address says whether it is claimed, and if not, whether it is other data. -/
theorem role?_spec (candidates : Candidates) (address : Address) :
    (candidates.role? address = none → ¬ candidates.Claims address ∧ address ∉ candidates.memory) ∧
      (candidates.role? address = some .memory → ¬ candidates.Claims address ∧
        address ∈ candidates.memory) ∧
      ∀ role, candidates.role? address = some role → role ≠ .memory →
      candidates.Claims address := by
  unfold role? Claims
  simp only [Std.ExtTreeSet.contains_iff_mem]
  grind

/-- Wherever control may go is claimed. -/
theorem claims_collect {instructions : List Instruction} (sourceLabels : AddressMap String)
    {i : Instruction} (hi : i ∈ instructions) {target : Address}
    (htarget : i.target? = some target) : (collect instructions sourceLabels).Claims target := by
  by_cases hcall : i.mnemonic = .jsr
  · refine Or.inl (mem_setOf.mpr (List.mem_filterMap.mpr ⟨i, hi, ?_⟩))
    rw [Operation.callTarget?, hcall]
    exact htarget
  · refine Or.inr (Or.inl (mem_setOf.mpr (List.mem_filterMap.mpr ⟨i, hi, ?_⟩)))
    rw [Operation.jumpTarget?, if_neg (by simpa using hcall)]
    exact htarget

end Candidates

namespace SymbolTable

variable (candidates : Candidates) (sources : Sources) (address : Address)

/-- What the first source that has an address calls it. -/
def sourceText? : Option String :=
  ([sources.routines, sources.hardware, sources.zeroPage, sources.memoryMap].findSome? fun table =>
    table[address]?.map (·.name)) <|> candidates.sourceLabels[address]?

theorem map_name_rawName? (role : Role) :
    (rawName? candidates sources address role).map (·.name)
      = (sourceText? candidates sources address <|> role.generatedName? address) := by
  rw [rawName?, sourceText?]
  simp only [List.findSome?_cons, List.findSome?_nil]
  cases sources.routines[address]? with
  | some entry => rfl
  | none =>
    cases sources.hardware[address]? with
    | some entry => rfl
    | none =>
      cases sources.zeroPage[address]? with
      | some entry => rfl
      | none =>
        cases sources.memoryMap[address]? with
        | some entry => rfl
        | none =>
          cases candidates.sourceLabels[address]? with
          | some label => rfl
          | none => cases role.generatedName? address <;> rfl

theorem ownName?_eq :
    ownName? candidates sources address = (candidates.role? address).bind fun role =>
      (sourceText? candidates sources address <|> role.generatedName? address).bind fun text =>
        if Text.sanitize text = "" then role.generatedName? address
          else some (Text.sanitize text) := by
  rw [ownName?, symbol?]
  cases candidates.role? address with
  | none => rfl
  | some role =>
    have hraw := map_name_rawName? candidates sources address role
    cases hfound : rawName? candidates sources address role with
    | none =>
      rw [hfound] at hraw
      simp only [Option.bind_eq_bind, Option.bind_some, hfound, Option.bind_none, ← hraw,
        Option.map_none]
    | some raw =>
      rw [hfound] at hraw
      simp only [Option.bind_eq_bind, Option.bind_some, hfound, ← hraw, Option.map_some]
      split
      · rename_i hempty
        rw [if_pos hempty]
        cases role.generatedName? address <;> rfl
      · rename_i name hname
        rw [if_neg hname]
        rfl

theorem exists_ownName?_of_generated {role : Role} (hrole : candidates.role? address = some role)
    {generated : String} (hgenerated : role.generatedName? address = some generated) :
    ∃ name, ownName? candidates sources address = some name := by
  rw [ownName?_eq, hrole, Option.bind_some, hgenerated]
  cases sourceText? candidates sources address with
  | none =>
    change ∃ name, (if Text.sanitize generated = "" then some generated else _) = some name
    split <;> exact ⟨_, rfl⟩
  | some text =>
    change ∃ name, (if Text.sanitize text = "" then some generated else _) = some name
    split <;> exact ⟨_, rfl⟩

theorem exists_ownName?_of_memory (hrole : candidates.role? address = some .memory) :
    (∃ name, ownName? candidates sources address = some name) ↔
      ∃ text, sourceText? candidates sources address = some text ∧
        ∃ c ∈ text.toList, Text.isBlank c = false := by
  have hblank (text : String) : Text.sanitize text ≠ "" ↔
      ∃ c ∈ text.toList, Text.isBlank c = false := by
    rw [ne_eq, Text.sanitize_eq_empty_iff]
    simp
  rw [ownName?_eq, hrole, Option.bind_some]
  cases sourceText? candidates sources address with
  | none =>
    change (∃ name, none = some name) ↔ _
    simp
  | some text =>
    change (∃ name, (if Text.sanitize text = "" then none else _) = some name) ↔ _
    simp [← hblank]

theorem exists_ownName?_iff :
    (∃ name, ownName? candidates sources address = some name) ↔
      candidates.Claims address ∨ address ∈ candidates.memory ∧
        ∃ text, sourceText? candidates sources address = some text ∧
        ∃ c ∈ text.toList, Text.isBlank c = false := by
  obtain ⟨hnone, hmemory, hclaims⟩ := candidates.role?_spec address
  cases hrole : candidates.role? address with
  | none =>
    obtain ⟨hfree, hunused⟩ := hnone hrole
    rw [ownName?_eq, hrole]
    simp [hfree, hunused]
  | some role =>
    cases role with
    | memory =>
      obtain ⟨hfree, hused⟩ := hmemory hrole
      rw [exists_ownName?_of_memory candidates sources address hrole]
      simp [hfree, hused]
    | subroutine | label | zeroPage | hardware =>
      have hclaimed : candidates.Claims address := hclaims _ hrole (by decide)
      simp only [hclaimed, true_or, iff_true]
      exact exists_ownName?_of_generated candidates sources address hrole rfl

theorem isName_of_ownName? {name : String} (h : ownName? candidates sources address = some name) :
    Text.IsName name := by
  rw [ownName?_eq] at h
  obtain ⟨role, -, h⟩ := Option.bind_eq_some_iff.mp h
  obtain ⟨text, -, h⟩ := Option.bind_eq_some_iff.mp h
  split at h
  · exact isName_generatedName? h
  · rename_i hne
    obtain rfl := Option.some.inj h
    exact Text.isName_sanitize hne

theorem isName_qualify {name : String} (h : Text.IsName name) (address : Address) :
    Text.IsName (qualify name address) := by
  have hmark : ∀ c ∈ "_".toList, Text.isNameChar c = true := List.all_eq_true.mp (by decide)
  exact (h.append hmark).append Text.isNameChar_of_mem_hex4

namespace Given

variable {own final : Address → Option String}

theorem exists_final_iff (h : Given own final) (address : Address) :
    (∃ name, final address = some name) ↔ ∃ name, own address = some name := by
  constructor
  · rintro ⟨name, hname⟩
    rcases h.cases hname with ⟨hown, -⟩ | ⟨plain, -, hown, -⟩
    · exact ⟨name, hown⟩
    · exact ⟨plain, hown⟩
  · rintro ⟨name, hown⟩
    by_cases htaken : ∃ lower < address, final lower = some name
    · obtain ⟨lower, hlower, hfinal⟩ := htaken
      exact ⟨_, h.qualified address name hown lower hlower hfinal⟩
    · exact ⟨name, h.kept address name hown fun lower hlower hfinal =>
        htaken ⟨lower, hlower, hfinal⟩⟩

theorem isName (h : Given own final)
    (hown : ∀ address name, own address = some name → Text.IsName name) {address : Address}
    {name : String} (hname : final address = some name) : Text.IsName name := by
  rcases h.cases hname with ⟨hplain, -⟩ | ⟨plain, -, hplain, -, -, rfl⟩
  · exact hown address name hplain
  · exact isName_qualify (hown address plain hplain) address

end Given

section Resolve

variable (candidates : Candidates) (sources : Sources)

theorem exists_name?_resolve_iff (address : Address) :
    (∃ name, (resolve candidates sources).name? address = some name) ↔
      candidates.Claims address ∨ address ∈ candidates.memory ∧
        ∃ text, sourceText? candidates sources address = some text ∧
        ∃ c ∈ text.toList, Text.isBlank c = false := by
  rw [(given_resolve candidates sources).exists_final_iff, exists_ownName?_iff]

theorem name?_resolve_eq_codeName {address : Address} (h : candidates.Claims address) :
    (resolve candidates sources).name? address
      = some ((resolve candidates sources).codeName address) := by
  obtain ⟨name, hname⟩ := (exists_name?_resolve_iff candidates sources address).mpr (Or.inl h)
  rw [codeName, hname]

theorem isName_of_name?_resolve {address : Address} {name : String}
    (h : (resolve candidates sources).name? address = some name) : Text.IsName name :=
  (given_resolve candidates sources).isName
    (fun address _ => isName_of_ownName? candidates sources address) h

theorem isName_dataName_resolve (address : Address) :
    Text.IsName ((resolve candidates sources).dataName address) := by
  rw [dataName]
  cases hname : (resolve candidates sources).name? address with
  | some name => exact isName_of_name?_resolve candidates sources hname
  | none =>
    exact isName_generatedName? (show Role.generatedName? address .zeroPage = some _ from rfl)

end Resolve

/-! ### Kinds -/

/-- Naming a symbol leaves its kind, and other symbols, as they are. -/
theorem getElem?_foldl_of_not_mem {symbols : List Symbol} {address : Address} (naming : Naming)
    (h : ∀ symbol ∈ symbols, symbol.address ≠ address) :
    (symbols.foldl Naming.add naming).symbols[address]? = naming.symbols[address]? := by
  induction symbols generalizing naming with
  | nil => rfl
  | cons symbol symbols ih =>
    obtain ⟨hfirst, hrest⟩ := List.forall_mem_cons.mp h
    rw [List.foldl_cons, ih (naming.add symbol) hrest, Naming.add]
    simp only
    rw [Std.ExtTreeMap.getElem?_insert, if_neg fun heq =>
      hfirst (Std.LawfulEqCmp.eq_of_compare heq)]

theorem kind_foldl_of_mem {symbols : List Symbol} {symbol : Symbol} (naming : Naming)
    (hascending : symbols.Pairwise fun left right => left.address < right.address)
    (hmem : symbol ∈ symbols) :
    ((symbols.foldl Naming.add naming).symbols[symbol.address]?).map (·.kind)
      = some symbol.kind := by
  induction symbols generalizing naming with
  | nil => cases hmem
  | cons first symbols ih =>
    obtain ⟨habove, hrest⟩ := List.pairwise_cons.mp hascending
    rw [List.foldl_cons]
    rcases List.mem_cons.mp hmem with rfl | hmem
    · have hothers : ∀ other ∈ symbols, other.address ≠ symbol.address :=
        fun other hother => (UInt16.ne_of_lt (habove other hother)).symm
      rw [getElem?_foldl_of_not_mem _ hothers, Naming.add]
      simp only
      rw [Std.ExtTreeMap.getElem?_insert_self]
      rfl
    · exact ih (naming.add first) hrest hmem

theorem kind?_resolve (candidates : Candidates) (sources : Sources) {address : Address}
    {symbol : Symbol} (h : symbol? candidates sources address = some symbol) :
    (resolve candidates sources).kind? address = some symbol.kind := by
  have hmem : symbol ∈ candidates.addresses.filterMap (symbol? candidates sources) :=
    List.mem_filterMap.mpr ⟨address, mem_addresses_of_symbol? candidates sources h, h⟩
  rw [← address_of_symbol? candidates sources h]
  exact kind_foldl_of_mem {} (pairwise_found candidates sources) hmem

theorem kind_rawName?_eq_kernalCall_iff {candidates : Candidates} {sources : Sources}
    {address : Address} {raw : RawName}
    (h : rawName? candidates sources address .subroutine = some raw) :
    raw.kind = .kernalCall ↔ address ∈ sources.routines := by
  rw [Std.ExtTreeMap.mem_iff_isSome_getElem?]
  revert h
  simp only [rawName?]
  cases sources.routines[address]? with
  | some entry =>
    intro h
    obtain rfl := Option.some.inj h
    exact iff_of_true rfl rfl
  | none =>
    intro h
    refine iff_of_false ?_ (by decide)
    -- The other sources never say that an address belongs to the ROM.
    revert h
    cases sources.hardware[address]? <;> cases sources.zeroPage[address]?
      <;> cases sources.memoryMap[address]? <;>
      cases candidates.sourceLabels[address]? <;> intro h <;> obtain rfl := Option.some.inj h
        <;> nofun

theorem exists_rawName?_of_symbol? {candidates : Candidates} {sources : Sources} {address : Address}
    {role : Role} {symbol : Symbol} (hrole : candidates.role? address = some role)
    (h : symbol? candidates sources address = some symbol) :
    ∃ raw, rawName? candidates sources address role = some raw ∧ symbol.kind = raw.kind := by
  rw [symbol?, hrole] at h
  simp only [Option.bind_eq_bind, Option.bind_some, Option.bind_eq_some_iff] at h
  obtain ⟨raw, hraw, h⟩ := h
  refine ⟨raw, hraw, ?_⟩
  split at h
  · obtain ⟨name, -, h⟩ := Option.bind_eq_some_iff.mp h
    obtain rfl := Option.some.inj h
    rfl
  · obtain rfl := Option.some.inj h
    rfl

/-- A subroutine is one of the ROM exactly if the table of routines lists it. -/
theorem kind?_resolve_eq_kernalCall_iff (candidates : Candidates) (sources : Sources)
    {address : Address} (hcalled : candidates.subroutines.contains address = true) :
    (resolve candidates sources).kind? address = some .kernalCall ↔ address ∈ sources.routines := by
  have hrole : candidates.role? address = some .subroutine := by
    rw [Candidates.role?, if_pos hcalled]
  obtain ⟨name, hname⟩ := exists_ownName?_of_generated candidates sources address hrole rfl
  obtain ⟨symbol, hsymbol, -⟩ := Option.map_eq_some_iff.mp hname
  obtain ⟨raw, hraw, hkind⟩ := exists_rawName?_of_symbol? hrole hsymbol
  rw [kind?_resolve candidates sources hsymbol, Option.some_inj, hkind]
  exact kind_rawName?_eq_kernalCall_iff hraw

/-- Every address that a listing goes to is named, and so is all data that it uses, unless that lies
elsewhere in memory and no source has more than blanks to call it. All names are identifiers. -/
theorem targets_named (candidates : Candidates) (sources : Sources) :
    (∀ address, (∃ name, (resolve candidates sources).name? address = some name) ↔
      (address ∈ candidates.subroutines ∨ address ∈ candidates.jumpLabels ∨
        address ∈ candidates.zeroPage ∨
        address ∈ candidates.hardware) ∨
      address ∈ candidates.memory ∧
        ∃ text, sourceText? candidates sources address = some text ∧
        ∃ c ∈ text.toList, Text.isBlank c = false) ∧
    (∀ address name, (resolve candidates sources).name? address = some name → Text.IsName name) ∧
    ∀ text, ∀ i ∈ (Listing.read text).instructions, ∀ target,
      i.mnemonic = .jmp ∨ i.mnemonic = .jsr ∨ i.mnemonic.isConditionalBranch = true →
      i.operand = .absolute target →
      ∃ symbol, (resolve (Listing.read text).candidates sources).symbols[target]?
        = some symbol := by
  refine ⟨exists_name?_resolve_iff candidates sources, fun address name =>
    isName_of_name?_resolve candidates sources, ?_⟩
  intro text i hi target hflow hoperand
  have htarget : i.target? = some target := by
    have hcontrol : i.mnemonic.isControlFlow = true := by
      rw [Mnemonic.isControlFlow]
      rcases hflow with hjump | hcall | hbranch
      · rw [hjump]
        rfl
      · rw [hcall]
        rfl
      · rw [hbranch]
        rfl
    rw [Operation.target?, hoperand]
    exact if_pos hcontrol
  have hclaims : (Listing.read text).candidates.Claims target :=
    Candidates.claims_collect _ hi htarget
  obtain ⟨name, hname⟩ := (exists_name?_resolve_iff _ sources target).mpr (Or.inl hclaims)
  obtain ⟨symbol, hsymbol, -⟩ := Option.map_eq_some_iff.mp hname
  exact ⟨symbol, hsymbol⟩

end SymbolTable

end Lift6502
