import Lift6502.Proofs.Dialect.DeclaredNames
import Lift6502.Proofs.Dialect.Labels
import Mathlib.Data.List.Count

/-!
# Declarations of records

The C-like code begins with one line for each thing that a program declares, and a line names
nothing else. So the declarations of a record are counted by the lines with its name: there is one
for each block that fills a record from the same address on, and one for everything else that
happens to have the name. Two blocks that fill the same record declare it twice.
-/

namespace Lift6502

/-! ### Words in lines -/

namespace Text

section Letter

-- Every word that is looked for has a letter that no other part of a line has.
variable {letter : Char} {word : String} (hword : letter ∈ word.toList)

include hword

theorem not_mentions_of_letter {text : String} (h : letter ∉ text.toList) : ¬ Mentions word text :=
  fun hmentions => h (mem_of_mentions hmentions letter hword)

theorem mentions_iff_of_between (hletter : isNameChar letter = true) {line name : String}
    (hname : IsName name) {c d : Char} (hc : isNameChar c = false) (hd : isNameChar d = false)
    {front back : List Char} (hfront : letter ∉ front) (hback : letter ∉ back)
    (hline : line.toList = front ++ c :: (name.toList ++ d :: back)) : Mentions word line ↔
    name = word := by
  have hpart {part : List Char} (hpart : letter ∉ part) : word.toList ∉ words part := by
    intro hmem
    refine hpart ?_
    rw [← List.flatten_splitBy _ part]
    exact List.mem_flatten.mpr ⟨word.toList, hmem, hword⟩
  have hsingle {c : Char} (hc : isNameChar c = false) : word.toList ≠ [c] := by
    intro hsame
    rw [hsame, List.mem_singleton] at hword
    rw [hword, hc] at hletter
    cases hletter
  rw [Mentions, hline, words_append_cons front hc, words_append_cons _ hd, hname.words_eq]
  simp [hpart hfront, hpart hback, hsingle hc, hsingle hd, String.toList_inj, eq_comm]

end Letter

theorem letter_not_mem_hex4 (word : UInt16) : 'U' ∉ (hex4 word).toList := by
  have hdigit : ∀ number < 16, hexDigit number ≠ 'U' := by decide
  have hne (number : Nat) : 'U' ≠ hexDigit (number % 16) :=
    (hdigit _ (Nat.mod_lt _ (by decide))).symm
  simp [hex4, hne]

theorem letter_not_mem_decimal (number : Nat) : 'U' ∉ (decimal number).toList := by
  intro hmem
  rw [decimal, String.toList_ofList] at hmem
  exact absurd (isDigit_of_mem_decimalDigits 'U' hmem) (by decide)

theorem not_mem_intercalate {letter : Char} {separator : String}
    (hseparator : letter ∉ separator.toList) {texts : List String}
    (h : ∀ text ∈ texts, letter ∉ text.toList) : letter ∉ (separator.intercalate texts).toList := by
  rw [String.toList_intercalate]
  induction texts with
  | nil => simp
  | cons text rest ih =>
    obtain ⟨htext, hrest⟩ := List.forall_mem_cons.mp h
    cases rest with
    | nil => simpa using htext
    | cons next rest =>
      rw [List.map_cons, List.map_cons, List.intercalate_cons_cons, ← List.map_cons]
      simp only [List.mem_append, not_or]
      exact ⟨⟨htext, hseparator⟩, ih hrest⟩

end Text

namespace Curly

open Text

variable {program : Program} {word : String}

section Lines

-- The name of a record has a `U`. In these lines nothing but names has one.
variable (hword : 'U' ∈ word.toList)

include hword

theorem mentions_variableLine {place : Variable} (hname : IsName place.name) :
    Mentions word (variableLine place) ↔ place.name = word := by
  have hline : (variableLine place).toList
      = "#define".toList ++ ' ' :: (place.name.toList
        ++ ' ' :: ("mem[0x".toList ++ (hex4 place.address).toList ++ "]".toList)) := by
    unfold variableLine
    simp
  exact mentions_iff_of_between hword rfl hname rfl rfl (by decide)
    (by simp [letter_not_mem_hex4]) hline

theorem mentions_recordLine {node : Node} (hname : IsName node.value)
    (hfields : ∀ field ∈ node.params, 'U' ∉ field.toList) :
    Mentions word (recordLine node) ↔ node.value = word := by
  have hline : (recordLine node).toList
      = ("static struct \x7b uint8_t ".toList ++ (", ".intercalate node.params).toList
        ++ "; \x7d".toList)
        ++ ' ' :: (node.value.toList ++ ';' :: []) := by
    unfold recordLine
    simp
  have hlist := not_mem_intercalate (show 'U' ∉ ", ".toList by decide) hfields
  refine mentions_iff_of_between hword rfl hname rfl rfl ?_ List.not_mem_nil hline
  simp only [List.mem_append, not_or]
  exact ⟨⟨by decide, hlist⟩, by decide⟩

/-- A line with a word, a name and a list in brackets. -/
theorem mentions_called {line front name back : String}
    (hline : line = front ++ " " ++ name ++ "(" ++ back) (hfront : 'U' ∉ front.toList)
    (hname : IsName name) (hback : 'U' ∉ back.toList) : Mentions word line ↔ name = word := by
  have htext : line.toList = front.toList ++ ' ' :: (name.toList ++ '(' :: back.toList) := by
    rw [hline]
    simp
  exact mentions_iff_of_between hword rfl hname rfl rfl hfront hback htext

theorem mentions_romLine {name : String} (hname : IsName name) (address : Address) :
    Mentions word ("extern void " ++ name ++ "(void); " ++ spelling.comment ("$" ++ hex4 address)) ↔
      name = word := by
  have hline : "extern void " ++ name ++ "(void); " ++ spelling.comment ("$" ++ hex4 address)
      = "extern void" ++ " " ++ name ++ "(" ++ ("void); /* $" ++ hex4 address ++ " */") := by
    simp [← String.toList_inj, spelling]
  exact mentions_called hword hline (by decide) hname (by simp [letter_not_mem_hex4])

theorem mentions_externalLine {name : String} (hname : IsName name) :
    Mentions word ("extern void " ++ name ++ "(void);") ↔ name = word := by
  have hline :
      "extern void " ++ name ++ "(void);" = "extern void" ++ " " ++ name ++ "(" ++ "void);" := by
    simp [← String.toList_inj]
  exact mentions_called hword hline (by decide) hname (by decide)

theorem mentions_signature {node : Node} (hname : IsName node.value)
    (hmain : node.value ≠ Program.mainName) (hparams : ∀ param ∈ node.params, 'U' ∉ param.toList) :
    Mentions word (signature node ++ ";") ↔ node.value = word := by
  unfold signature
  rw [if_neg hmain]
  split
  · have hline : "void " ++ node.value ++ "(void)" ++ ";"
        = "void" ++ " " ++ node.value ++ "(" ++ "void);" := by
      simp [← String.toList_inj]
    exact mentions_called hword hline (by decide) hname (by decide)
  · have hline : "void " ++ node.value ++ "(" ++ ", ".intercalate (node.params.map ("int " ++ ·))
        ++ ")" ++ ";"
        = "void" ++ " " ++ node.value ++ "(" ++ (", ".intercalate (node.params.map ("int " ++ ·))
          ++ ");") := by
      simp [← String.toList_inj]
    have hlist : 'U' ∉ (", ".intercalate (node.params.map ("int " ++ ·))).toList := by
      refine not_mem_intercalate (by decide) (List.forall_mem_map.mpr fun param hparam => ?_)
      simp [hparams param hparam]
    refine mentions_called hword hline (by decide) hname ?_
    rw [String.toList_append, List.mem_append, not_or]
    exact ⟨hlist, by decide⟩

/-! ### Counting declarations -/

omit hword in
theorem countP_mentions_map {α : Type} {elements : List α} {line name : α → String}
    (h : ∀ element ∈ elements, (Mentions word (line element) ↔ name element = word)) :
    (elements.map line).countP (fun line => Mentions word line)
      = (elements.map name).count word := by
  rw [List.count_eq_countP, List.countP_map, List.countP_map]
  refine List.countP_congr fun element helement => ?_
  simp [h element helement]

theorem countP_mentions_of_letter {lines : List String} (h : ∀ line ∈ lines, 'U' ∉ line.toList) :
    lines.countP (fun line => Mentions word line) = 0 := by
  rw [List.countP_eq_zero]
  intro line hline
  simpa using not_mentions_of_letter hword (h line hline)

end Lines

end Curly

/-- What a program declares besides records. -/
def Program.otherNames (program : Program) : List String :=
  program.variableMap.toList.map (·.2.name) ++ program.romCalls.toList.map (·.2)
    ++ program.externalCalls.toList
    ++ program.root.children.map (·.value)

namespace Curly

open Text

variable {program : Program} {word : String}

theorem countP_routines (hword : 'U' ∈ word.toList) (h : program.IsNamed) :
    ((program.root.children.filter (·.value != Program.mainName)).map fun node =>
      signature node ++ ";").countP
      (fun line => Mentions word line) = (program.root.children.map (·.value)).count word := by
  have hmentions : ∀ node ∈ program.root.children.filter (·.value != Program.mainName),
      (Mentions word (signature node ++ ";") ↔ node.value = word) := by
    intro node hnode
    obtain ⟨hchild, hmain⟩ := List.mem_filter.mp hnode
    obtain ⟨hname, hparams⟩ := h.routines node hchild
    refine mentions_signature hword hname (bne_iff_ne.mp hmain) fun param hparam => ?_
    obtain ⟨slot, rfl⟩ := hparams param hparam
    simp [Routine.parameterName, letter_not_mem_decimal]
  have hmain : word ≠ Program.mainName := by
    rintro rfl
    exact absurd hword (by decide)
  rw [countP_mentions_map hmentions, List.count_eq_countP, List.count_eq_countP, List.countP_map,
    List.countP_map, List.countP_filter]
  refine List.countP_congr fun node _ => ?_
  rw [Bool.and_eq_true, bne_iff_ne, Function.comp_apply, beq_iff_eq]
  exact and_iff_left_of_imp fun hvalue => hvalue ▸ hmain

theorem countP_records (hword : 'U' ∈ word.toList) (h : program.IsNamed) :
    (program.records.map recordLine).countP (fun line => Mentions word line)
      = (program.records.map (·.value)).count word := by
  refine countP_mentions_map fun record hrecord => ?_
  obtain ⟨hname, hfields⟩ := h.records record hrecord
  refine mentions_recordLine hword hname fun field hfield => ?_
  obtain ⟨number, rfl⟩ := hfields field hfield
  simp [Routine.fieldName, letter_not_mem_decimal]

theorem countP_definitions (hword : 'U' ∈ word.toList) (h : program.IsNamed) :
    (if (program.variableMap.toList.map fun entry => variableLine entry.2).isEmpty then []
      else "" :: program.variableMap.toList.map fun entry => variableLine entry.2).countP
        (fun line => Mentions word line)
        = (program.variableMap.toList.map (·.2.name)).count word := by
  have hplaces := countP_mentions_map fun entry hentry => mentions_variableLine hword
    (h.places entry hentry)
  split
  · rename_i hempty
    rw [← hplaces, List.isEmpty_iff.mp hempty]
  · have hblank := not_mentions_of_letter hword (show 'U' ∉ "".toList by decide)
    rw [List.countP_cons_of_neg (by simpa using hblank), hplaces]

/-- A name is declared once for each record and for each other thing of that name. -/
theorem countP_preamble (hword : 'U' ∈ word.toList) (h : program.IsNamed) :
    (preamble program).countP (fun line => Mentions word line)
      = (program.records.map (·.value)).count word + program.otherNames.count word := by
  have hrom : List.countP _ _ = (program.romCalls.toList.map (·.2)).count word :=
    countP_mentions_map fun entry hentry => mentions_romLine hword (h.romCalls entry hentry) entry.1
  have hexternal := countP_mentions_map fun name hname => mentions_externalLine hword
    (h.externals name hname)
  rw [List.map_id'] at hexternal
  unfold preamble
  simp only [List.countP_append]
  rw [countP_definitions hword h, countP_records hword h, hrom, hexternal, countP_routines hword h,
    countP_mentions_of_letter hword (by decide +kernel),
    countP_mentions_of_letter hword (by decide)]
  simp only [Program.otherNames, List.count_append]
  omega

end Curly

/-! ### Records that are declared once -/

namespace Program

open Routine

variable {symbols : SymbolTable}

theorem values_records {blocks : List Block}
    (hown : ∀ i ∈ Block.instructionsOf blocks, (Statement.ofInstruction symbols i).Plain) :
    (build symbols blocks).records.map (·.value)
      = ((recordsOf symbols blocks).map (·.1)).map recordName := by
  have hvalues := congrArg (List.map Prod.fst) (records_build hown)
  rw [List.map_map, List.map_map] at hvalues
  rw [List.map_map]
  exact hvalues

/-- What is assigned to a field is a store to the place of the field, and stands below the
definition of its record, which lists it. A record is declared once for each block that fills one
from its address on, and for each other thing of its name. So every record is declared exactly once
if and only if no two blocks fill records from the same address on, and nothing else has the name of
one. -/
theorem records_declared_once_iff (hsymbols : symbols.IsResolved) (text : String) :
    let program := ofListing symbols text
    let bases := (recordsOf symbols (Block.partition (Listing.read text).instructions)).map (·.1)
    let declarations := fun name : String => (Curly.preamble program).countP fun line =>
      Text.Mentions name line
    (∀ node ∈ program.root.walk, node.DeclaresFields (Listing.read text).instructions) ∧
    (∀ base, declarations (recordName base)
      = bases.count base + program.otherNames.count (recordName base)) ∧
    ((∀ record ∈ program.records, declarations record.value = 1) ↔
      bases.Nodup ∧ ∀ base ∈ bases, recordName base ∉ program.otherNames) := by
  intro program bases declarations
  have hlegible : ∀ i ∈ Block.instructionsOf (Block.partition (Listing.read text).instructions),
      i.operand.IsLegible := by
    rw [Block.instructionsOf_partition]
    exact fun i hi => (Listing.isLegible_read text i hi).operand
  have hplain : ∀ i ∈ Block.instructionsOf (Block.partition (Listing.read text).instructions),
      (Statement.ofInstruction symbols i).Plain :=
    fun i hi => plain_ofInstruction hsymbols.isName_dataName (hlegible i hi)
  have hvalues : program.records.map (·.value) = bases.map recordName := values_records hplain
  have hcount (base : Address) :
      declarations (recordName base)
        = bases.count base + program.otherNames.count (recordName base) := by
    have hletter : 'U' ∈ (recordName base).toList := by simp [recordName]
    rw [← List.count_map_of_injective bases recordName recordName_injective, ← hvalues]
    exact Curly.countP_preamble hletter (isNamed_build hsymbols hlegible)
  refine ⟨fun node hnode => ?_, hcount, ?_⟩
  · rw [← Block.instructionsOf_partition (Listing.read text).instructions]
    exact declaresFields_of_mem_walk hplain hnode
  · have hrecords : (∀ record ∈ program.records, declarations record.value = 1) ↔
        ∀ base ∈ bases, declarations (recordName base) = 1 := by
      rw [← List.forall_mem_map (P := fun name => declarations name = 1), hvalues,
        List.forall_mem_map]
    rw [hrecords, List.nodup_iff_count_eq_one, ← forall₂_and]
    refine forall₂_congr fun base hbase => ?_
    have hpositive : 0 < bases.count base := List.count_pos_iff.mpr hbase
    rw [hcount, ← List.count_eq_zero]
    omega

/-- Two blocks that fill records which overlap, the second from its last field on. -/
def overlappingRecords : String :=
  "$C000: LDA #$01\n$C002: STA $C100\n$C005: STA $C101\n$C008: RTS\n" ++
    "$C009: LDA #$02\n$C00B: STA $C103\n$C00E: STA $C102\n$C011: STA $C101\n$C014: RTS\n"

/-- Records that start at different addresses are declared once each, even where they overlap. -/
theorem overlappingRecords_declared_once :
    let symbols := SymbolTable.resolve (Listing.read overlappingRecords).candidates Sources.empty
    let program := ofListing symbols overlappingRecords
    symbols.IsResolved ∧
      (program.records.map fun record => (record.value, record.params))
        = [("STRUCT_C100", ["F0", "F1"]), ("STRUCT_C101", ["F0", "F1", "F2"])] ∧
      (∀ node ∈ program.root.walk, node.DeclaresFields
        (Listing.read overlappingRecords).instructions) ∧
      ∀ record ∈ program.records, ((Curly.preamble program).countP fun line =>
        Text.Mentions record.value line) = 1 := by
  intro symbols program
  have hsymbols : symbols.IsResolved := Or.inr ⟨_, _, rfl⟩
  have hrun : (program.records.map fun record => (record.value, record.params))
        = [("STRUCT_C100", ["F0", "F1"]), ("STRUCT_C101", ["F0", "F1", "F2"])] ∧
      (recordsOf symbols (Block.partition (Listing.read overlappingRecords).instructions)).map (·.1)
        = [0xC100, 0xC101] ∧
      program.otherNames = ["VAR_C100", "VAR_C101", "VAR_C102", "VAR_C103", "MAIN"] := by
    decide +kernel
  obtain ⟨hrecords, hbases, hothers⟩ := hrun
  obtain ⟨hfields, -, honce⟩ := records_declared_once_iff hsymbols overlappingRecords
  refine ⟨hsymbols, hrecords, hfields, honce.mpr ?_⟩
  rw [hbases, hothers]
  exact ⟨by decide, List.forall_mem_cons.mpr ⟨by decide, List.forall_mem_singleton.mpr (by decide)⟩⟩

/-- Two blocks that fill the same record. -/
def refilledRecord : String :=
  "$C000: LDA #$01\n$C002: STA $C100\n$C005: STA $C101\n$C008: RTS\n" ++
    "$C009: LDA #$02\n$C00B: STA $C100\n$C00E: STA $C101\n$C011: RTS\n"

/-- A record that two blocks fill is declared twice. -/
theorem refilledRecord_declared_twice :
    let program := ofListing
      (SymbolTable.resolve (Listing.read refilledRecord).candidates Sources.empty) refilledRecord
    (program.records.map fun record => (record.value, record.params))
        = [("STRUCT_C100", ["F0", "F1"]), ("STRUCT_C100", ["F0", "F1"])] ∧
      (Curly.preamble program).count "static struct \x7b uint8_t F0, F1; \x7d STRUCT_C100;"
        = 2 := by
  decide +kernel

end Program

end Lift6502
