import Lift6502.Proofs.Dialect.Definitions
import Lift6502.Proofs.Routine.CalledEntries
import Lift6502.Proofs.Routine.Declarations
import Lift6502.Proofs.Routine.FunctionNames
import Lift6502.Proofs.Routine.Spans

/-!
# Routines with a body and routines without one

Structured BASIC opens a `SUB` for each routine of a program, and an empty one for each that is
called but has no body. A routine counts as one of the ROM if the table of routines lists its
address, whether or not the listing holds its code. So a called routine has both, a body and an
empty one beside it, exactly if it is listed; and then it is called as one of the ROM.
-/

namespace Lift6502

/-! ### Lines that open no routine -/

namespace Text

/-- Whether a text differs from the start of a line that opens a routine. -/
def differs (text : String) : Bool :=
  ("SUB ".toList.zip text.toList).any fun pair => pair.1 != pair.2

/-- Whether a line cannot open a routine with a name. -/
def opensNone (line : String) : Bool :=
  line == "" || differs line || line.toList.any fun c => c == '=' || c == ':'

theorem differs_append {front : String} (h : differs front = true) (rest : String) :
    differs (front ++ rest) = true := by
  have hzip (mark chars more : List Char) :
      List.Sublist (mark.zip chars) (mark.zip (chars ++ more)) := by
    induction mark generalizing chars with
    | nil => exact List.Sublist.refl _
    | cons c mark ih =>
      cases chars with
      | nil => exact List.nil_sublist _
      | cons d chars => exact (ih chars).cons_cons (c, d)
  rw [differs, List.any_eq_true] at h ⊢
  obtain ⟨pair, hpair, hdiffers⟩ := h
  rw [String.toList_append]
  exact ⟨pair, (hzip _ _ _).subset hpair, hdiffers⟩

theorem opensNone_of_differs {line : String} (h : differs line = true) : opensNone line = true := by
  rw [opensNone, h, Bool.or_true, Bool.true_or]

theorem opensNone_append {front : String} (h : differs front = true) (rest : String) :
    opensNone (front ++ rest) = true :=
  opensNone_of_differs (differs_append h rest)

theorem opensNone_of_mem {line : String} {c : Char} (hmem : c ∈ line.toList)
    (hmark : (c == '=' || c == ':') = true) : opensNone line = true := by
  rw [opensNone, Bool.or_eq_true]
  exact Or.inr (List.any_eq_true.mpr ⟨c, hmem, hmark⟩)

theorem ne_of_opensNone {line name : String} (h : opensNone line = true) (hname : IsName name) :
    line ≠ "SUB " ++ name := by
  rintro rfl
  have hsame : differs ("SUB " ++ name) = false := by
    rw [differs, String.toList_append]
    rfl
  have hmarks : ("SUB " ++ name).toList.any (fun c => c == '=' || c == ':') = false := by
    rw [String.toList_append, List.any_append, Bool.or_eq_false_iff]
    refine ⟨rfl, List.any_eq_false.mpr fun c hc => ?_⟩
    exact of_isNameChar (fun c => ¬ (c == '=' || c == ':') = true) (hname.chars c hc) (by decide)
  have hfilled : ("SUB " ++ name == "") = false := by
    rw [beq_eq_false_iff_ne]
    intro hempty
    have hchars := congrArg String.toList hempty
    rw [String.toList_append] at hchars
    cases hchars
  rw [opensNone, hsame, hmarks, hfilled] at h
  cases h

end Text

namespace Modern

open Text

theorem opensNone_write (destination value : String) :
    opensNone (spelling.write destination value) = true := by
  change opensNone (BasicText.write '.' destination value) = true
  unfold BasicText.write
  split
  · simp only [String.append_assoc]
    exact opensNone_append rfl _
  · refine opensNone_of_mem (c := '=') ?_ rfl
    simp [String.toList_append]

theorem opensNone_comment (text : String) : opensNone (spelling.comment text) = true := by
  change opensNone ("'" ++ " " ++ text) = true
  rw [String.append_assoc]
  exact opensNone_append rfl _

theorem Formed.opensNone {line : String} (h : Formed line) : opensNone line = true := by
  cases h with
  | fixed h =>
    have hall : fixedLines.all Text.opensNone = true := rfl
    exact List.all_eq_true.mp hall _ h
  | fronted h rest =>
    have hall : fronts.all differs = true := rfl
    exact opensNone_append (List.all_eq_true.mp hall _ h) rest
  | comment text => exact opensNone_comment text
  | write destination value => exact opensNone_write destination value

/-- A node that opens no routine is written without a line that does. -/
theorem opensNone_render (places : Places) {node : Node} (h : opens node = false) :
    ∀ line ∈ (render places node).opening ++ (render places node).closing,
      opensNone line = true := by
  intro line hline
  rcases formed_render places node line hline with hformed | ⟨hopens, -⟩
  · exact hformed.opensNone
  · rw [h] at hopens
    cases hopens

/-! ### Counting routines on a page -/

/-- Where each element gives at most one hit, hits are counted by the elements that give one. -/
theorem countP_flatMap_eq {α β : Type} {hits : β → Bool} {gives : α → Bool} {part : α → List β}
    {elements : List α} (h : ∀ element ∈ elements, (part element).countP hits = if gives element
      then 1 else 0) :
    (elements.flatMap part).countP hits = elements.countP gives := by
  induction elements with
  | nil => rfl
  | cons element elements ih =>
    obtain ⟨helement, helements⟩ := List.forall_mem_cons.mp h
    rw [List.flatMap_cons, List.countP_append, helement, ih helements, List.countP_cons,
      Nat.add_comm]

theorem countP_linesAt (depth : Nat) (texts : List String) (text : String) :
    (Piece.linesAt depth texts).countP (·.text == text) = texts.countP (· == text) := by
  rw [Piece.linesAt, List.countP_map]
  rfl

variable {name : String} (hname : IsName name) (program : Program)

include hname

theorem countP_eq_zero_of_opensNone {lines : List String}
    (h : ∀ line ∈ lines, opensNone line = true) : lines.countP (· == "SUB " ++ name) = 0 := by
  rw [List.countP_eq_zero]
  intro line hline
  simpa using ne_of_opensNone (h line hline) hname

theorem countP_emptyRoutine (other note : String) :
    (emptyRoutine other note).countP (· == "SUB " ++ name) = if other == name then 1 else 0 := by
  have hrest : ∀ line ∈ ["    " ++ spelling.comment note, "END SUB"], opensNone line = true :=
    List.forall_mem_cons.mpr ⟨opensNone_append rfl _, List.forall_mem_singleton.mpr rfl⟩
  have hends := countP_eq_zero_of_opensNone hname hrest
  have hempty : ("" == "SUB " ++ name) = false :=
    beq_eq_false_iff_ne.mpr (ne_of_opensNone rfl hname)
  rw [emptyRoutine, List.countP_cons, List.countP_cons, hends, hempty]
  by_cases hother : other = name
  · simp [hother]
  · simp [hother, String.append_right_inj]

theorem countP_rendered (places : Places) (node : Node) :
    ((render places node).opening ++ (render places node).closing).countP (· == "SUB " ++ name)
      = if opens node && signature node == name then 1 else 0 := by
  cases hopens : opens node with
  | false =>
    rw [countP_eq_zero_of_opensNone hname (opensNone_render places hopens)]
    rfl
  | true =>
    rw [opens, Bool.and_eq_true, beq_iff_eq, bne_iff_ne] at hopens
    have hempty : ("" == "SUB " ++ name) = false :=
      beq_eq_false_iff_ne.mpr (ne_of_opensNone rfl hname)
    have hend : ("END SUB" == "SUB " ++ name) = false :=
      beq_eq_false_iff_ne.mpr (ne_of_opensNone rfl hname)
    have hrender : render places node = .around ["", "SUB " ++ signature node] ["END SUB"] := by
      rw [render, hopens.1]
      exact if_neg hopens.2
    rw [hrender]
    change ["", "SUB " ++ signature node, "END SUB"].countP (· == "SUB " ++ name) = _
    rw [List.countP_cons, List.countP_cons, List.countP_cons, List.countP_nil, hempty, hend]
    by_cases hsame : signature node = name
    · simp [hsame]
    · simp [hsame, String.append_right_inj]

theorem countP_ownLines (visit : Visit) :
    (Piece.ownLines (dialect.firstManner program) visit).countP (·.text == "SUB " ++ name)
      = if opens visit.node && signature visit.node == name then 1 else 0 := by
  have hlabel : ∀ line ∈ (Piece.definition? (dialect.firstManner program) visit.node).toList,
      opensNone line = true := by
    intro line hline
    rw [jumpsToNames.definition?_firstManner, Option.mem_toList, Option.map_eq_some_iff] at hline
    obtain ⟨label, -, rfl⟩ := hline
    refine opensNone_of_mem (c := ':') ?_ rfl
    simp [String.toList_append]
  rw [Piece.ownLines, Piece.openingLines, Piece.closingLines, Piece.labelLines_eq,
    List.append_assoc, List.countP_append, List.countP_append, countP_linesAt, countP_linesAt,
    countP_linesAt, countP_eq_zero_of_opensNone hname hlabel, ← List.countP_append, Nat.zero_add]
  exact countP_rendered hname (Piece.placesAt (dialect.firstManner program) visit.spot) visit.node

theorem countP_postamble :
    (postamble program).countP (· == "SUB " ++ name)
      = program.romCalls.toList.countP (·.2 == name) + program.externalCalls.toList.countP
        (· == name) := by
  rw [postamble, List.countP_append, countP_flatMap_eq fun entry _ =>
    countP_emptyRoutine hname entry.2 _, countP_flatMap_eq fun other _ =>
      countP_emptyRoutine hname other _]

/-- A routine of a name is opened once for each routine of the tree with that signature, for each of
the ROM that is called so, and if it is looked for outside. -/
theorem countP_lines_writeProgram (htree : program.root.IsTree) :
    (dialect.writeProgram program).lines.countP (·.text == "SUB " ++ name)
      = program.root.children.countP (fun function =>
        function.value != Program.mainName && signature function == name)
        + program.romCalls.toList.countP (·.2 == name) + program.externalCalls.toList.countP
          (· == name) := by
  have hbody :
      (Piece.ofNode (dialect.firstManner program)
        (dialect.firstSpot program) program.root).lines.countP
      (·.text == "SUB " ++ name) = program.root.walk.countP fun node =>
        opens node && signature node == name := by
    rw [((Piece.lines_perm_visits _).1 _ _).countP_eq, countP_flatMap_eq fun visit _ =>
      countP_ownLines hname program visit, ← jumpsToNames.map_node_visits_root htree,
        List.countP_map]
    rfl
  have hroutines : (program.root.walk.countP fun node => opens node && signature node == name)
      = program.root.children.countP fun function =>
        function.value != Program.mainName && signature function == name := by
    rw [← htree.filter_function, List.countP_filter]
    refine List.countP_congr fun node _ => ?_
    simp only [opens, Bool.and_eq_true]
    tauto
  have hfront : (dialect.preamble program).countP (· == "SUB " ++ name) = 0 :=
    countP_eq_zero_of_opensNone hname fun line hline =>
      (formed_of_mem_preamble program line hline).opensNone
  have hback : (dialect.postamble program).countP (· == "SUB " ++ name)
      = program.romCalls.toList.countP (·.2 == name) + program.externalCalls.toList.countP
        (· == name) :=
    countP_postamble hname program
  rw [jumpsToNames.lines_writeProgram, List.countP_append, List.countP_append, countP_linesAt,
    countP_linesAt, hbody, hroutines, hfront, hback, Nat.zero_add, Nat.add_assoc]

end Modern

/-! ### Bodies and stubs of called routines -/

theorem Modern.signature_eq_iff {name : String} (hname : Text.IsName name) (node : Node) :
    signature node = name ↔ node.params = [] ∧ node.value = name := by
  unfold signature
  cases hparams : node.params with
  | nil => simp
  | cons param params =>
    refine iff_of_false (fun hsame => ?_) (fun h => List.cons_ne_nil _ _ h.1)
    have hblank : ' ' ∈ name.toList := by
      rw [← hsame]
      simp [String.toList_append]
    exact Text.of_isNameChar (fun c => c ≠ ' ') (hname.chars _ hblank) (by decide) rfl

namespace Program

open Routine SymbolTable

/-- Whether nothing else that is called or was cut out of the code has the name of an address. -/
structure NamedApart (symbols : SymbolTable) (blocks : List Block) (address : Address) : Prop where
  main : symbols.codeName address ≠ mainName
  called : ∀ other, symbols.subroutines.contains other = true →
    symbols.codeName other = symbols.codeName address →
    other = address
  templates : ∀ start ∈ templateStarts symbols blocks, symbols.codeName address ≠ templateName start

section Counts

variable {symbols : SymbolTable} {instructions : List Instruction} {address : Address}
  (haddress : address ∈ calledEntries symbols (Block.partition instructions))
  (hapart : NamedApart symbols (Block.partition instructions) address)

include haddress hapart

theorem title_eq_codeName_iff {entry : Address}
    (hentry : entry ∈ entries symbols (Block.partition instructions)) :
    (routineHeading symbols entry).1 = symbols.codeName address ↔ entry = address := by
  rcases title_cases hentry with ⟨hcalled, htitle⟩ | ⟨-, huncalled, htitle⟩
  · rw [htitle]
    exact ⟨hapart.called entry (mem_calledEntries.mp hcalled).2, congrArg symbols.codeName⟩
  · rw [htitle]
    refine iff_of_false hapart.main.symm ?_
    rintro rfl
    rw [(mem_calledEntries.mp haddress).2] at huncalled
    cases huncalled

theorem count_values_children (hascending : Ascending instructions) :
    ((build symbols (Block.partition instructions)).root.children.map (·.value)).count
      (symbols.codeName address) = 1 := by
  rw [← Block.instructionsOf_partition instructions] at hascending
  have hentries : (entries symbols (Block.partition instructions)).Nodup :=
    (Block.nodup_starts hascending).sublist entries_sublist
  have htitles : ((entries symbols (Block.partition instructions)).map fun entry =>
      (routineHeading symbols entry).1).count
      (symbols.codeName address)
        = (entries symbols (Block.partition instructions)).count address := by
    rw [List.count_eq_countP, List.count_eq_countP, List.countP_map]
    refine List.countP_congr fun entry hentry => ?_
    rw [Function.comp_apply, beq_iff_eq, beq_iff_eq]
    exact title_eq_codeName_iff haddress hapart hentry
  have htemplates : symbols.codeName address ∉
      (templateStarts symbols (Block.partition instructions)).map templateName := by
    intro hmem
    obtain ⟨start, hstart, hsame⟩ := List.mem_map.mp hmem
    exact hapart.templates start hstart hsame.symm
  rw [← (isTree_build symbols (Block.partition instructions)).filter_function, map_value_functions,
    List.count_append, htitles, List.count_eq_zero.mpr htemplates, hentries.count,
    if_pos (mem_calledEntries.mp haddress).1]

/-- A called entry of a name of its own has one body. -/
theorem countP_bodies (hascending : Ascending instructions)
    (hname : Text.IsName (symbols.codeName address)) :
    ((build symbols (Block.partition instructions)).root.children.countP fun function =>
      function.value != mainName && Modern.signature function == symbols.codeName address) = 1 := by
  rw [← count_values_children haddress hapart hascending, List.count_eq_countP, List.countP_map]
  refine List.countP_congr fun function hfunction => ?_
  rw [Function.comp_apply, Bool.and_eq_true, bne_iff_ne, beq_iff_eq, beq_iff_eq,
    Modern.signature_eq_iff hname]
  constructor
  · rintro ⟨-, -, hvalue⟩
    exact hvalue
  · intro hvalue
    refine ⟨hvalue ▸ hapart.main, ?_, hvalue⟩
    obtain ⟨functions, templates, hchildren, hroutines, hheadings, -⟩ :=
      exists_routines symbols hascending
    rw [hchildren] at hfunction
    rcases List.mem_append.mp hfunction with hroutine | htemplate
    · obtain ⟨span, -, first, -, -, hparams, -⟩ := exists_left_of_forall₂ hroutines hroutine
      exact hparams
    · have hheading := List.mem_map_of_mem (f := Node.heading) htemplate
      rw [hheadings] at hheading
      obtain ⟨start, hstart, hsame⟩ := List.mem_map.mp hheading
      exact absurd ((congrArg Prod.fst hsame).trans hvalue).symm (hapart.templates start hstart)

end Counts

/-- A symbol table that knows what some instructions call, and takes for routines of the ROM those
that a table lists. -/
structure KnowsCalls (symbols : SymbolTable) (instructions : List Instruction)
    (table : EntryTable) : Prop where
  called : ∀ target, symbols.subroutines.contains target = true ↔
    ∃ call ∈ instructions, call.callTarget? = some target
  listed : ∀ target, symbols.subroutines.contains target = true →
    (symbols.kind? target = some .kernalCall ↔ target ∈ table)

theorem knowsCalls_resolve (text : String) (sources : Sources) :
    KnowsCalls (resolve (Listing.read text).candidates sources) (Listing.read text).instructions
      sources.routines where
  called _ := contains_subroutines_resolve
  listed _ hcalled := kind?_resolve_eq_kernalCall_iff _ sources hcalled

theorem mem_subroutines_build (symbols : SymbolTable) (blocks : List Block) {address : Address} :
    address ∈ (build symbols blocks).subroutines ↔ address ∈ calledEntries symbols blocks := by
  rw [Std.ExtTreeMap.mem_iff_isSome_getElem?, Option.isSome_iff_exists, calledEntries,
    List.mem_filter, List.mem_map]
  simp only [subroutines_build]
  constructor
  · rintro ⟨name, hcalled, hstart, -⟩
    exact ⟨hstart, hcalled⟩
  · rintro ⟨hstart, hcalled⟩
    exact ⟨symbols.codeName address, hcalled, hstart, rfl⟩

theorem mem_romCalls_build (symbols : SymbolTable) (blocks : List Block) {address : Address} :
    address ∈ (build symbols blocks).romCalls ↔
      (∃ call ∈ Block.instructionsOf blocks, call.callTarget? = some address) ∧
      symbols.kind? address = some .kernalCall := by
  rw [Std.ExtTreeMap.mem_iff_isSome_getElem?, Option.isSome_iff_exists]
  simp only [romCalls_build]
  constructor
  · rintro ⟨name, hcalled, hkind, -⟩
    exact ⟨hcalled, hkind⟩
  · rintro ⟨hcalled, hkind⟩
    exact ⟨symbols.codeName address, hcalled, hkind, rfl⟩

namespace KnowsCalls

variable {symbols : SymbolTable} {instructions : List Instruction} {table : EntryTable}
  {address : Address}
  (h : KnowsCalls symbols instructions table)

include h

theorem mem_romCalls_iff :
    address ∈ (build symbols (Block.partition instructions)).romCalls ↔
      (∃ call ∈ instructions, call.callTarget? = some address) ∧ address ∈ table := by
  rw [mem_romCalls_build, Block.instructionsOf_partition]
  exact and_congr_right fun hcall => h.listed address ((h.called address).mpr hcall)

theorem both_iff :
    address ∈ (build symbols (Block.partition instructions)).romCalls ∧
        address ∈ (build symbols (Block.partition instructions)).subroutines ↔
      address ∈ calledEntries symbols (Block.partition instructions) ∧ address ∈ table := by
  rw [h.mem_romCalls_iff, mem_subroutines_build]
  constructor
  · rintro ⟨⟨-, hlisted⟩, haddress⟩
    exact ⟨haddress, hlisted⟩
  · rintro ⟨haddress, hlisted⟩
    exact ⟨⟨(h.called address).mp (mem_calledEntries.mp haddress).2, hlisted⟩, haddress⟩

/-- And one stub if the table lists it. -/
theorem countP_stubs (hcalled : symbols.subroutines.contains address = true)
    (hapart : NamedApart symbols (Block.partition instructions) address) :
    ((build symbols (Block.partition instructions)).romCalls.toList.countP
      (·.2 == symbols.codeName address))
      = if address ∈ table then 1 else 0 := by
  have hkeys : ((build symbols (Block.partition instructions)).romCalls.toList.countP
      (·.2 == symbols.codeName address))
      = (build symbols (Block.partition instructions)).romCalls.keys.count address := by
    rw [← Std.ExtTreeMap.map_fst_toList_eq_keys, List.count_eq_countP, List.countP_map]
    refine List.countP_congr fun entry hentry => ?_
    have hcall :=
      Std.ExtTreeMap.mem_toList_iff_getElem?_eq_some.mp (show (entry.1, entry.2) ∈ _ from hentry)
    rw [romCalls_build, Block.instructionsOf_partition] at hcall
    rw [Function.comp_apply, beq_iff_eq, beq_iff_eq, hcall.2.2]
    exact ⟨hapart.called entry.1 ((h.called entry.1).mpr hcall.1), congrArg symbols.codeName⟩
  have hmem : address ∈ (build symbols (Block.partition instructions)).romCalls.keys ↔
      address ∈ table := by
    rw [Std.ExtTreeMap.mem_keys, h.mem_romCalls_iff]
    exact and_iff_right ((h.called address).mp hcalled)
  rw [hkeys, Std.ExtTreeMap.nodup_keys.count]
  simp only [hmem]

/-- So its name opens one routine or two. -/
theorem countP_lines (hascending : Ascending instructions)
    (hname : Text.IsName (symbols.codeName address))
    (haddress : address ∈ calledEntries symbols (Block.partition instructions))
    (hapart : NamedApart symbols (Block.partition instructions) address) :
    (Modern.dialect.writeProgram (build symbols (Block.partition instructions))).lines.countP
      (·.text == "SUB " ++ symbols.codeName address) = if address ∈ table then 2 else 1 := by
  obtain ⟨hentry, hcalled⟩ := mem_calledEntries.mp haddress
  have houtside : ((build symbols (Block.partition instructions)).externalCalls.toList.countP
      (· == symbols.codeName address)) = 0 := by
    rw [List.countP_eq_zero]
    intro name hname hsame
    rw [Std.ExtTreeSet.mem_toList, beq_iff_eq.mp hsame] at hname
    exact not_mem_externalCalls
      ((heading_mem_functions_iff_start hcalled).mpr (mem_entries.mp hentry).2) hname
  rw [Modern.countP_lines_writeProgram hname _ (isTree_build symbols _),
    countP_bodies haddress hapart hascending hname, h.countP_stubs hcalled hapart, houtside]
  split <;> rfl

theorem romCall_iff (hascending : Ascending instructions) :
    (∃ node ∈ (build symbols (Block.partition instructions)).root.walk, node.kind = .romCall ∧
        node.value = symbols.codeName address ∧ node.params = [Text.decimal address.toNat]) ↔
      (∃ call ∈ instructions, call.callTarget? = some address) ∧ address ∈ table := by
  rw [romCall_mem_walk_iff symbols hascending]
  constructor
  · rintro ⟨call, hcall, target, htarget, hkind, -, hparams⟩
    have hsame : address = target :=
      UInt16.toNat_inj.mp (Text.decimal_injective (List.singleton_inj.mp hparams))
    subst hsame
    have hcalled : ∃ call ∈ instructions, call.callTarget? = some address := ⟨call, hcall, htarget⟩
    exact ⟨hcalled, (h.listed address ((h.called address).mpr hcalled)).mp hkind⟩
  · rintro ⟨⟨call, hcall, htarget⟩, hlisted⟩
    refine ⟨call, hcall, address, htarget, ?_, rfl, rfl⟩
    exact (h.listed address ((h.called address).mpr ⟨call, hcall, htarget⟩)).mpr hlisted

theorem ofInstruction_eq {call : Instruction} (hcall : call ∈ instructions)
    (htarget : call.callTarget? = some address) :
    (Statement.ofInstruction symbols call).value = symbols.codeName address ∧
      (Statement.ofInstruction symbols call).kind = if address ∈ table then .romCall
        else .subCall := by
  have hkind := h.listed address ((h.called address).mpr ⟨call, hcall, htarget⟩)
  rw [Statement.ofInstruction_of_callTarget? htarget, Statement.callNode]
  by_cases hlisted : address ∈ table
  · rw [if_pos (hkind.mpr hlisted), if_pos hlisted]
    exact ⟨rfl, rfl⟩
  · rw [if_neg (mt hkind.mp hlisted), if_neg hlisted]
    exact ⟨rfl, rfl⟩

end KnowsCalls

/-- A call into a listing finds a body and a stub beside each other exactly if the table of routines
lists the called entry. Structured BASIC opens two routines of its name then, and one otherwise, if
nothing else has the name. Calls go to the ROM exactly where the table lists their targets, with or
without a body. -/
theorem body_beside_stub_iff_listed (text : String) (sources : Sources) :
    let instructions := (Listing.read text).instructions
    let blocks := Block.partition instructions
    let symbols := resolve (Listing.read text).candidates sources
    let program := ofListing symbols text
    (∀ address, address ∈ program.romCalls ∧ address ∈ program.subroutines ↔
      address ∈ calledEntries symbols blocks ∧ address ∈ sources.routines) ∧
    (∀ address ∈ calledEntries symbols blocks, NamedApart symbols blocks address →
      (Modern.dialect.writeProgram program).lines.countP
        (·.text == "SUB " ++ symbols.codeName address)
        = if address ∈ sources.routines then 2 else 1) ∧
    (∀ address : Address,
      (∃ node ∈ program.root.walk, node.kind = .romCall ∧ node.value = symbols.codeName address ∧
        node.params = [Text.decimal address.toNat]) ↔
      (∃ call ∈ instructions, call.callTarget? = some address) ∧ address ∈ sources.routines) ∧
    ∀ call ∈ instructions, ∀ address, call.callTarget? = some address →
      (Statement.ofInstruction symbols call).value = symbols.codeName address ∧
      (Statement.ofInstruction symbols call).kind = if address ∈ sources.routines then .romCall
        else .subCall := by
  intro instructions blocks symbols program
  have hascending : Ascending instructions := Listing.ascending_read text
  have hknows : KnowsCalls symbols instructions sources.routines := knowsCalls_resolve text sources
  refine ⟨fun address => hknows.both_iff, fun address haddress hapart => ?_,
    fun address => hknows.romCall_iff hascending, fun call hcall address htarget =>
      hknows.ofInstruction_eq hcall htarget⟩
  exact hknows.countP_lines hascending (isName_codeName_resolve _ _ address) haddress hapart

/-- A table of routines that lists an address of the listing. -/
def listedReturn : Sources :=
  { Sources.empty with
    routines := Std.ExtTreeMap.ofList [((0xC004 : Address), ({ name := "FOO" } : Entry))] }

/-- The names of a called entry and of the main routine differ, and nothing else has one. -/
theorem calledReturn_opens_two :
    let symbols := resolve (Listing.read calledReturn).candidates listedReturn
    let blocks := Block.partition (Listing.read calledReturn).instructions
    0xC004 ∈ calledEntries symbols blocks ∧ NamedApart symbols blocks 0xC004 ∧
      (Modern.dialect.writeProgram (ofListing symbols calledReturn)).lines.countP
        (·.text == "SUB " ++ symbols.codeName 0xC004)
        = if 0xC004 ∈ listedReturn.routines then 2 else 1 := by
  intro symbols blocks
  have hentry : 0xC004 ∈ calledEntries symbols blocks := by decide +kernel
  have hcalled : symbols.subroutines.toList = [0xC004] := by decide +kernel
  have htemplates : templateStarts symbols blocks = [] := by decide +kernel
  have hapart : NamedApart symbols blocks 0xC004 := by
    refine ⟨by decide +kernel, fun other hother _ => ?_, fun start hstart => ?_⟩
    · have hmem := Std.ExtTreeSet.mem_toList.mpr (Std.ExtTreeSet.contains_iff_mem.mp hother)
      rw [hcalled] at hmem
      exact List.mem_singleton.mp hmem
    · rw [htemplates] at hstart
      exact absurd hstart List.not_mem_nil
  exact ⟨hentry, hapart,
    (body_beside_stub_iff_listed calledReturn listedReturn).2.1 0xC004 hentry hapart⟩

/-- A routine of the listing that is called as one of the ROM, and opened twice. -/
theorem calledReturn_body_beside_stub :
    let symbols := resolve (Listing.read calledReturn).candidates listedReturn
    let program := ofListing symbols calledReturn
    0xC004 ∈ program.romCalls ∧ 0xC004 ∈ program.subroutines ∧
      (Modern.dialect.writeProgram program).lines.countP (·.text == "SUB FOO") = 2 ∧
      (∃ node ∈ program.root.walk, node.kind = .romCall ∧ node.value = "FOO") ∧
      ∀ node ∈ program.root.walk, node.kind ≠ .subCall := by
  decide +kernel

end Program

end Lift6502
