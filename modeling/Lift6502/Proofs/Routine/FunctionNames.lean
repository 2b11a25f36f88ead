import Lift6502.Proofs.Flow.Cuts
import Lift6502.Proofs.Routine.Functions
import Mathlib.Data.List.Nodup

/-!
# Different routines and their names

The routines of a program take their names from three places: the main routine has a fixed one, a
routine that is called has the name of its entry, and a template is named after the address of its
code. Nothing keeps the three apart. The names of routines are different exactly if no entry is
called like the main routine or a template, and no two entries share a name, which can be told from
the names that the sources give.
-/

namespace Lift6502

namespace SymbolTable

/-! ### Names with an address appended -/

theorem qualify_inj {left right : String} {address other : Address}
    (h : qualify left address = qualify right other) : left = right ∧ address = other := by
  have haddress := address_eq_of_qualify_eq h
  subst haddress
  exact ⟨String.append_left_inj _ |>.mp (String.append_left_inj _ |>.mp h), rfl⟩

theorem qualify_ne {plain name : String} {address : Address} (h : '_' ∉ name.toList) :
    qualify plain address ≠ name := by
  rintro rfl
  apply h
  simp [qualify]

theorem templateName_eq_qualify (start : Address) :
    Routine.templateName start = qualify "MACRO" start :=
  rfl

namespace Given

variable {own final : Address → Option String} (h : Given own final)

include h

theorem final_of_not_crowded {address : Address} {name : String} (hown : own address = some name)
    (hfree : ¬ Crowded own address) : final address = some name :=
  h.kept address name hown fun _ below htaken => hfree (h.crowded_of_taken hown below htaken)

theorem final_of_crowded {address : Address} {name : String} (hown : own address = some name)
    (hcrowded : Crowded own address) : final address = some (qualify name address) := by
  obtain ⟨lower, below, htaken⟩ := h.taken_of_crowded hcrowded hown
  exact h.qualified address name hown lower below htaken

/-- An address has its own name unless it is crowded, and then the qualified one. -/
theorem final_eq_some_iff {address : Address} {name : String} :
    final address = some name ↔ own address = some name ∧ ¬ Crowded own address ∨
      ∃ plain, own address = some plain ∧ Crowded own address ∧ name = qualify plain address := by
  constructor
  · intro hname
    rcases h.cases hname with ⟨hown, hunused⟩ | ⟨plain, lower, hown, below, htaken, rfl⟩
    · refine Or.inl ⟨hown, fun hcrowded => ?_⟩
      obtain ⟨lower, below, htaken⟩ := h.taken_of_crowded hcrowded hown
      exact hunused lower below htaken
    · exact Or.inr ⟨plain, hown, h.crowded_of_taken hown below htaken, rfl⟩
  · rintro (⟨hown, hfree⟩ | ⟨plain, hown, hcrowded, rfl⟩)
    · exact h.final_of_not_crowded hown hfree
    · exact h.final_of_crowded hown hcrowded

/-- Two addresses share a name exactly if the qualified name of the upper one is what the lower one
is called of its own. -/
theorem exists_shared_iff {lower upper : Address} (below : lower < upper) :
    (∃ name, final lower = some name ∧ final upper = some name) ↔
      ∃ name, Crowded own upper ∧ own upper = some name ∧ own lower = some (qualify name upper) ∧
      ¬ Crowded own lower := by
  constructor
  · rintro ⟨name, hlower, hupper⟩
    -- The upper address did not keep its own name, which the lower one has; and two qualified names
    -- are never the same.
    rcases h.final_eq_some_iff.mp hupper with ⟨hown, hfree⟩ | ⟨plain, hown, hcrowded, rfl⟩
    · exact absurd (h.crowded_of_taken hown below hlower) hfree
    · rcases h.final_eq_some_iff.mp hlower with ⟨hlower, hfree⟩ | ⟨other, -, -, hsame⟩
      · exact ⟨plain, hcrowded, hown, hlower, hfree⟩
      · exact absurd (qualify_inj hsame).2 (UInt16.ne_of_lt below).symm
  · rintro ⟨name, hcrowded, hown, hlower, hfree⟩
    exact ⟨qualify name upper, h.final_of_not_crowded hlower hfree,
      h.final_of_crowded hown hcrowded⟩

end Given

end SymbolTable

/-! ### Where routines start -/

namespace Block

theorem nodup_starts {blocks : List Block} (h : Ascending (instructionsOf blocks)) :
    (blocks.map (·.start)).Nodup := by
  rw [List.Nodup, List.pairwise_map]
  refine List.Pairwise.imp ?_ (List.pairwise_flatMap.mp h).2
  intro block later hbelow
  exact UInt16.ne_of_lt (hbelow block.first (List.head_mem block.nonempty) later.first
    (List.head_mem later.nonempty))

/-- The first block of a listing starts where the listing does. -/
theorem head?_start_partition (instructions : List Instruction) :
    (partition instructions).head?.map (·.start) = instructions.head?.map (·.address) := by
  have hglue := instructionsOf_partition instructions
  cases hblocks : partition instructions with
  | nil =>
    rw [hblocks] at hglue
    rw [← hglue]
    rfl
  | cons block blocks =>
    rw [hblocks, instructionsOf, List.flatMap_cons] at hglue
    rw [← hglue, List.head?_append_of_ne_nil _ block.nonempty,
      List.head?_eq_some_head block.nonempty]
    rfl

end Block

namespace Program

open Routine SymbolTable

variable {symbols : SymbolTable} {blocks : List Block}

theorem entries_sublist : (entries symbols blocks).Sublist (blocks.map (·.start)) := by
  refine List.Sublist.map _ ?_
  cases blocks with
  | nil => exact List.Sublist.refl _
  | cons first rest => exact List.Sublist.cons_cons first List.filter_sublist

theorem templateStarts_sublist :
    (templateStarts symbols blocks).Sublist (blocks.map (·.start)) := by
  have hblocks : (shapes symbols blocks).flatMap (·.blocks) = blocks := by
    rw [shapes, List.flatMap_assoc]
    simp only [flatMap_blocks_shapes]
    rw [List.flatMap_id', flatten_divide]
  have hfound (found : Match) :
      found.templateStart?.toList.Sublist (found.blocks.map (·.start)) := by
    rw [Match.templateStart?]
    split
    · cases found.blocks <;> simp
    · exact List.nil_sublist _
  have hstarts : (shapes symbols blocks).flatMap (fun found => found.blocks.map (·.start))
      = blocks.map (·.start) := by
    rw [← List.map_flatMap, hblocks]
  rw [templateStarts, List.filterMap_eq_flatMap_toList, ← hstarts]
  exact List.Sublist.flatMap_right _ fun found _ => hfound found

/-- The starts of blocks that are called. -/
def calledEntries (symbols : SymbolTable) (blocks : List Block) : List Address :=
  (blocks.map (·.start)).filter fun start => symbols.subroutines.contains start

theorem mem_calledEntries {entry : Address} :
    entry ∈ calledEntries symbols blocks ↔
      entry ∈ entries symbols blocks ∧ symbols.subroutines.contains entry = true := by
  rw [calledEntries, List.mem_filter, List.mem_map, mem_entries]
  constructor
  · rintro ⟨hstart, hcalled⟩
    exact ⟨⟨Or.inr hcalled, hstart⟩, hcalled⟩
  · rintro ⟨⟨-, hstart⟩, hcalled⟩
    exact ⟨hstart, hcalled⟩

/-- Whether the names of called entries keep clear of the main routine, of each other and of the
templates. -/
structure CalledApart (symbols : SymbolTable) (blocks : List Block) : Prop where
  main : ∀ entry ∈ calledEntries symbols blocks, symbols.codeName entry ≠ mainName
  distinct : ∀ entry ∈ calledEntries symbols blocks, ∀ other ∈ calledEntries symbols blocks,
    symbols.codeName entry = symbols.codeName other → entry = other
  templates : ∀ entry ∈ calledEntries symbols blocks, ∀ start ∈ templateStarts symbols blocks,
    symbols.codeName entry ≠ templateName start

theorem templateName_ne_mainName (start : Address) : templateName start ≠ mainName := by
  rw [templateName_eq_qualify]
  exact qualify_ne (by decide)

theorem templateName_injective : Function.Injective templateName := by
  intro left right h
  rw [templateName_eq_qualify, templateName_eq_qualify] at h
  exact (qualify_inj h).2

theorem title_cases {entry : Address} (hentry : entry ∈ entries symbols blocks) :
    entry ∈ calledEntries symbols blocks ∧
      (routineHeading symbols entry).1 = symbols.codeName entry ∨
      blocks.head?.map (·.start) = some entry ∧ symbols.subroutines.contains entry = false ∧
        (routineHeading symbols entry).1 = mainName := by
  rw [routineHeading]
  split
  · rename_i hcalled
    exact Or.inl ⟨mem_calledEntries.mpr ⟨hentry, hcalled⟩, rfl⟩
  · rename_i hcalled
    exact Or.inr ⟨(mem_entries.mp hentry).1.resolve_right hcalled,
      Bool.not_eq_true _ ▸ hcalled, rfl⟩

theorem map_value_functions :
    ((build symbols blocks).root.walk.filter (·.kind == .function)).map (·.value)
      = (entries symbols blocks).map (fun entry => (routineHeading symbols entry).1)
        ++ (templateStarts symbols blocks).map templateName := by
  have hnames := congrArg (List.map Prod.fst) (map_heading_functions symbols blocks)
  rw [List.map_append, List.map_map, List.map_map, List.map_map] at hnames
  exact hnames

theorem CalledApart.nodup_names (h : CalledApart symbols blocks)
    (hstarts : (blocks.map (·.start)).Nodup) :
    (((build symbols blocks).root.walk.filter (·.kind == .function)).map (·.value)).Nodup := by
  rw [map_value_functions, List.nodup_append]
  refine ⟨?_, (hstarts.sublist templateStarts_sublist).map templateName_injective, ?_⟩
  · rw [List.nodup_map_iff_inj_on (hstarts.sublist entries_sublist)]
    intro entry hentry other hother hsame
    -- Only the first entry may be one that nothing calls, so two of them are the same.
    rcases title_cases hentry with ⟨hcalled, htitle⟩ | ⟨hfirst, -, htitle⟩ <;>
      rcases title_cases hother with ⟨hcalled', htitle'⟩ | ⟨hfirst', -, htitle'⟩
        <;> rw [htitle, htitle'] at hsame
    · exact h.distinct entry hcalled other hcalled' hsame
    · exact absurd hsame (h.main entry hcalled)
    · exact absurd hsame.symm (h.main other hcalled')
    · exact Option.some.inj (hfirst.symm.trans hfirst')
  · intro name hname other hother
    obtain ⟨entry, hentry, rfl⟩ := List.mem_map.mp hname
    obtain ⟨start, hstart, rfl⟩ := List.mem_map.mp hother
    rcases title_cases hentry with ⟨hcalled, htitle⟩ | ⟨-, -, htitle⟩
    · rw [htitle]
      exact h.templates entry hcalled start hstart
    · rw [htitle]
      exact (templateName_ne_mainName start).symm

/-- Names of routines are different, and that of the main routine is its own, exactly if those of
called entries are apart. -/
theorem unambiguous_iff_calledApart (hstarts : (blocks.map (·.start)).Nodup) :
    ((((build symbols blocks).root.walk.filter (·.kind == .function)).map (·.value)).Nodup ∧
      ∀ function ∈ (build symbols blocks).root.walk, function.kind = .function →
      function.value = mainName →
        ∃ entry, blocks.head?.map (·.start) = some entry ∧ function.address = some entry ∧
          symbols.subroutines.contains entry = false) ↔
    CalledApart symbols blocks := by
  have htitle {entry : Address} (hentry : entry ∈ calledEntries symbols blocks) :
      routineHeading symbols entry = (symbols.codeName entry, some entry) := by
    rw [routineHeading, if_pos (mem_calledEntries.mp hentry).2]
  constructor
  · rintro ⟨hnodup, hmain⟩
    rw [map_value_functions, List.nodup_append] at hnodup
    obtain ⟨hentries, -, htemplates⟩ := hnodup
    refine ⟨fun entry hentry hname => ?_, fun entry hentry other hother hsame => ?_,
      fun entry hentry start hstart => ?_⟩
    · obtain ⟨hlisted, hcalled⟩ := mem_calledEntries.mp hentry
      obtain ⟨function, hfunction, hkind, hheading⟩ := heading_mem_functions.mpr
        (List.mem_append_left _ (List.mem_map.mpr ⟨entry, hlisted, htitle hentry⟩))
      obtain ⟨hvalue, haddress⟩ := Prod.mk.inj hheading
      obtain ⟨first, -, hfirst, huncalled⟩ := hmain function hfunction hkind (hvalue.trans hname)
      obtain rfl := Option.some.inj (haddress.symm.trans hfirst)
      rw [hcalled] at huncalled
      cases huncalled
    · refine List.inj_on_of_nodup_map hentries (mem_calledEntries.mp hentry).1
        (mem_calledEntries.mp hother).1 ?_
      simp only [htitle hentry, htitle hother, hsame]
    · refine htemplates _ (List.mem_map.mpr ⟨entry, (mem_calledEntries.mp hentry).1, ?_⟩) _
        (List.mem_map_of_mem hstart)
      rw [htitle hentry]
  · intro h
    refine ⟨h.nodup_names hstarts, fun function hfunction hkind hname => ?_⟩
    rcases List.mem_append.mp (heading_mem_functions.mp ⟨function, hfunction, hkind, rfl⟩) with
      hroutine | htemplate
    · obtain ⟨entry, hentry, hheading⟩ := List.mem_map.mp hroutine
      rcases title_cases hentry with ⟨hcalled, -⟩ | ⟨hfirst, huncalled, -⟩
      · rw [htitle hcalled] at hheading
        exact absurd ((Prod.mk.inj hheading).1.trans hname) (h.main entry hcalled)
      · exact ⟨entry, hfirst, (congrArg Prod.snd hheading).symm, huncalled⟩
    · obtain ⟨start, -, hheading⟩ := List.mem_map.mp htemplate
      exact absurd ((Prod.mk.inj hheading).1.trans hname) (templateName_ne_mainName start)

/-! ### What sources call the entries -/

/-- Whether no entry ends up with the name of the main routine, of an entry below it or of a
template, whose code starts at one of the given addresses. Own names decide it: an entry keeps its
own, or has it qualified if it is crowded. -/
structure NamesApart (own : Address → Option String) (entries starts : List Address) : Prop where
  main : ∀ entry ∈ entries, own entry = some mainName → Crowded own entry
  distinct : ∀ lower ∈ entries, ∀ upper ∈ entries, ∀ name, lower < upper → Crowded own upper →
    own upper = some name →
    own lower = some (qualify name upper) → Crowded own lower
  templates : ∀ entry ∈ entries, ∀ start ∈ starts, own entry = some (templateName start) →
    Crowded own entry
  plain : ∀ entry ∈ entries, entry ∈ starts → own entry = some "MACRO" → ¬ Crowded own entry

/-- The qualified name of a template is that of the template at the same address. -/
theorem final_eq_templateName_iff {own final : Address → Option String} (h : Given own final)
    {entry start : Address} :
    final entry = some (templateName start) ↔
      own entry = some (templateName start) ∧ ¬ Crowded own entry ∨
        own entry = some "MACRO" ∧ Crowded own entry ∧ entry = start := by
  rw [h.final_eq_some_iff]
  refine or_congr Iff.rfl ⟨?_, ?_⟩
  · rintro ⟨plain, hown, hcrowded, hname⟩
    obtain ⟨rfl, rfl⟩ := qualify_inj ((templateName_eq_qualify start).symm.trans hname)
    exact ⟨hown, hcrowded, rfl⟩
  · rintro ⟨hown, hcrowded, rfl⟩
    exact ⟨"MACRO", hown, hcrowded, templateName_eq_qualify entry⟩

theorem final_eq_mainName_iff {own final : Address → Option String} (h : Given own final)
    {entry : Address} :
    final entry = some mainName ↔ own entry = some mainName ∧ ¬ Crowded own entry := by
  rw [h.final_eq_some_iff]
  refine or_iff_left ?_
  rintro ⟨plain, -, -, hname⟩
  exact qualify_ne (by decide) hname.symm

theorem codeName_of_mem_calledEntries {text : String} {sources : Sources} {entry : Address}
    (hentry : entry ∈ calledEntries (resolve (Listing.read text).candidates sources) blocks) :
    (resolve (Listing.read text).candidates sources).name? entry
      = some ((resolve (Listing.read text).candidates sources).codeName entry) := by
  refine name?_resolve_eq_codeName _ sources (Or.inl ?_)
  exact Std.ExtTreeSet.contains_iff_mem.mp (mem_calledEntries.mp hentry).2

theorem calledApart_iff_namesApart {final : Address → Option String} {own : Address → Option String}
    (h : Given own final)
    (hnames : ∀ entry ∈ calledEntries symbols blocks,
      final entry = some (symbols.codeName entry)) :
    CalledApart symbols blocks ↔
      NamesApart own (calledEntries symbols blocks) (templateStarts symbols blocks) := by
  have hfinal {entry : Address} (hentry : entry ∈ calledEntries symbols blocks) (name : String) :
      final entry = some name ↔ symbols.codeName entry = name := by
    rw [hnames entry hentry, Option.some_inj]
  constructor
  · intro hcalled
    refine ⟨fun entry hentry hown => ?_,
      fun lower hlower upper hupper name below hcrowded hown hsame => ?_,
      fun entry hentry start hstart hown => ?_, fun entry hentry hstart hown hcrowded => ?_⟩
    · by_contra hfree
      exact hcalled.main entry hentry
        ((hfinal hentry _).mp ((final_eq_mainName_iff h).mpr ⟨hown, hfree⟩))
    · by_contra hfree
      obtain ⟨shared, hleft, hright⟩ :=
        (h.exists_shared_iff below).mpr ⟨name, hcrowded, hown, hsame, hfree⟩
      have hequal := ((hfinal hlower _).mp hleft).trans ((hfinal hupper _).mp hright).symm
      exact UInt16.ne_of_lt below (hcalled.distinct lower hlower upper hupper hequal)
    · by_contra hfree
      exact hcalled.templates entry hentry start hstart
        ((hfinal hentry _).mp ((final_eq_templateName_iff h).mpr (Or.inl ⟨hown, hfree⟩)))
    · exact hcalled.templates entry hentry entry hstart
        ((hfinal hentry _).mp ((final_eq_templateName_iff h).mpr (Or.inr ⟨hown, hcrowded, rfl⟩)))
  · intro happart
    have hbelow {lower upper : Address} (hlower : lower ∈ calledEntries symbols blocks)
        (hupper : upper ∈ calledEntries symbols blocks) (below : lower < upper) :
        symbols.codeName lower ≠ symbols.codeName upper := by
      intro hsame
      obtain ⟨name, hcrowded, hown, hqualified, hfree⟩ := (h.exists_shared_iff below).mp
        ⟨symbols.codeName upper, (hfinal hlower _).mpr hsame, hnames upper hupper⟩
      exact hfree (happart.distinct lower hlower upper hupper name below hcrowded hown hqualified)
    refine ⟨fun entry hentry hname => ?_, fun entry hentry other hother hsame => ?_,
      fun entry hentry start hstart hname => ?_⟩
    · obtain ⟨hown, hfree⟩ := (final_eq_mainName_iff h).mp ((hfinal hentry _).mpr hname)
      exact hfree (happart.main entry hentry hown)
    · by_contra hne
      rcases UInt16.lt_or_lt_of_ne hne with hlt | hgt
      · exact hbelow hentry hother hlt hsame
      · exact hbelow hother hentry hgt hsame.symm
    · rcases (final_eq_templateName_iff h).mp ((hfinal hentry _).mpr hname) with
        ⟨hown, hfree⟩ | ⟨hown, hcrowded, rfl⟩
      · exact hfree (happart.templates entry hentry start hstart hown)
      · exact happart.plain entry hentry hstart hown hcrowded

theorem main_entry_iff {text : String} {sources : Sources} {address : Option Address} :
    (∃ entry, (Block.partition (Listing.read text).instructions).head?.map (·.start) = some entry ∧
      address = some entry ∧
      (resolve (Listing.read text).candidates sources).subroutines.contains entry = false) ↔
    ∃ first rest, (Listing.read text).instructions = first :: rest ∧ address = some first.address ∧
      ∀ call ∈ (Listing.read text).instructions, call.callTarget? ≠ some first.address := by
  simp only [Block.head?_start_partition, ← Bool.not_eq_true, contains_subroutines_resolve,
    not_exists, not_and]
  constructor
  · rintro ⟨entry, hfirst, haddress, huncalled⟩
    obtain ⟨first, hhead, rfl⟩ := Option.map_eq_some_iff.mp hfirst
    obtain ⟨rest, hrest⟩ := List.head?_eq_some_iff.mp hhead
    exact ⟨first, rest, hrest, haddress, huncalled⟩
  · rintro ⟨first, rest, hfirst, haddress, huncalled⟩
    exact ⟨first.address, by rw [hfirst]; rfl, haddress, huncalled⟩

/-- The routines of a listing have different names, and only a first routine that nothing calls has
the name of the main one, exactly if the names that the sources give to the called entries keep
clear of the main routine, of each other and of the templates. -/
theorem routine_names_unambiguous_iff (text : String) (sources : Sources) :
    let instructions := (Listing.read text).instructions
    let symbols := resolve (Listing.read text).candidates sources
    let program := ofListing symbols text
    ((program.root.walk.filter (·.kind == .function)).map (·.value)).Nodup ∧
      (∀ function ∈ program.root.walk, function.kind = .function → function.value = mainName →
        ∃ first rest, instructions = first :: rest ∧ function.address = some first.address ∧
          ∀ call ∈ instructions, call.callTarget? ≠ some first.address) ↔
    NamesApart (ownName? (Listing.read text).candidates sources)
      (calledEntries symbols (Block.partition instructions))
      (templateStarts symbols (Block.partition instructions)) := by
  have hascending := Listing.ascending_read text
  rw [← Block.instructionsOf_partition (Listing.read text).instructions] at hascending
  have hnamed : ∀ entry ∈ calledEntries (resolve (Listing.read text).candidates sources)
        (Block.partition (Listing.read text).instructions),
      (resolve (Listing.read text).candidates sources).name? entry
        = some ((resolve (Listing.read text).candidates sources).codeName entry) :=
    fun entry hentry => codeName_of_mem_calledEntries hentry
  have happart :=
    calledApart_iff_namesApart (given_resolve (Listing.read text).candidates sources) hnamed
  have hnames := (unambiguous_iff_calledApart (Block.nodup_starts hascending)).trans happart
  simp only [main_entry_iff] at hnames
  exact hnames

/-- A call of a routine that the listing itself labels as the main one. -/
def calledMain : String := "$C000: JSR MAIN\n$C003: RTS\nMAIN: $C004: RTS\n"

/-- Two routines have one name, and the one that is called has the name of the main routine. -/
theorem calledMain_names_clash :
    let symbols := resolve (Listing.read calledMain).candidates Sources.empty
    let program := ofListing symbols calledMain
    (program.root.walk.filter (·.kind == .function)).map Node.heading
        = [(mainName, some 0xC000), (mainName, some 0xC004)] ∧
      ¬ ((program.root.walk.filter (·.kind == .function)).map (·.value)).Nodup ∧
      ∃ call ∈ (Listing.read calledMain).instructions, call.callTarget? = some 0xC004 := by
  decide +kernel

end Program

end Lift6502
