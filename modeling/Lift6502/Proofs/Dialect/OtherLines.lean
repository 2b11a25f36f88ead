import Lift6502.Dialect.Target
import Lift6502.Proofs.Text.Identifiers
import Mathlib.Data.List.Basic

/-!
# Lines that define no label

The line that defines a label is a single word with a colon behind it. Every other line that a
dialect writes has a blank or a bracket in it, or no colon, whatever the names in it are. So a
definition can be told by its text.
-/

namespace Lift6502

namespace Text

/-- Whether a text holds a blank or a bracket, as no label does. -/
def isBroken (text : String) : Bool := text.toList.any fun c => c == ' ' || c == '('

theorem isBroken_append (left right : String) :
    isBroken (left ++ right) = (isBroken left || isBroken right) := by
  rw [isBroken, String.toList_append, List.any_append]
  rfl

theorem isBroken_middle (left : String) {middle : String} (h : isBroken middle = true)
    (right : String) : isBroken (left ++ middle ++ right) = true := by
  rw [isBroken_append, isBroken_append, h, Bool.or_true, Bool.true_or]

theorem isBroken_eq_false_of_isName {name : String} (h : IsName name) : isBroken name = false := by
  rw [isBroken, List.any_eq_false]
  intro c hc
  exact of_isNameChar (fun c => ¬ (c == ' ' || c == '(') = true) (h.chars c hc) (by decide)

/-- Whether a line cannot be the definition of a label. -/
def isOther (line : String) : Bool := isBroken line || !line.toList.contains ':'

theorem isOther_of_isBroken {line : String} (h : isBroken line = true) : isOther line = true := by
  rw [isOther, h]
  rfl

theorem isOther_append {front : String} (h : isBroken front = true) (rest : String) :
    isOther (front ++ rest) = true := by
  apply isOther_of_isBroken
  rw [isBroken_append, h]
  rfl

theorem ne_append_of_isOther {line name mark : String} (hline : isOther line = true)
    (hname : IsName name) (hmark : isBroken mark = false) (hcolon : ':' ∈ mark.toList) :
    line ≠ name ++ mark := by
  rintro rfl
  have hcontains : (name ++ mark).toList.contains ':' = true := by
    rw [String.toList_append, List.contains_iff_mem]
    exact List.mem_append_right _ hcolon
  rw [isOther, isBroken_append, isBroken_eq_false_of_isName hname, hmark, hcontains] at hline
  cases hline

end Text

/-! ### Lines that define nothing -/

namespace Rendered

def DefinesNothing (rendered : Rendered) : Prop :=
  ∀ line ∈ rendered.opening ++ rendered.closing, Text.isOther line = true

theorem definesNothing_line {text : String} (h : Text.isOther text = true) :
    (line text).DefinesNothing := by
  intro other hother
  obtain rfl := List.mem_singleton.mp hother
  exact h

theorem definesNothing_around {opening closing : List String}
    (hopening : ∀ line ∈ opening, Text.isOther line = true)
    (hclosing : ∀ line ∈ closing, Text.isOther line = true) :
    (around opening closing).DefinesNothing :=
  List.forall_mem_append.mpr ⟨hopening, hclosing⟩

theorem definesNothing_block {opening closing : String} (hopening : Text.isOther opening = true)
    (hclosing : Text.isOther closing = true) : (around [opening] [closing]).DefinesNothing :=
  definesNothing_around (List.forall_mem_singleton.mpr hopening)
    (List.forall_mem_singleton.mpr hclosing)

end Rendered

/-- What is written for a statement is an assignment or a comment. -/
theorem Spelling.mem_statement {spelling : Spelling} {node : Node} {line : String}
    (h : line ∈ (spelling.statement node).opening ++ (spelling.statement node).closing) :
    (∃ destination value, line = spelling.write destination value) ∨
      ∃ text, line = spelling.comment text := by
  unfold statement at h
  cases hkind : node.kind <;> rw [hkind] at h
  case assign =>
    obtain rfl := List.mem_singleton.mp h
    unfold assignment
    split
    · exact Or.inl ⟨_, _, rfl⟩
    · exact Or.inr ⟨_, rfl⟩
  case expr => exact Or.inl ⟨_, _, List.mem_singleton.mp h⟩
  case globalVar | raw | structDef | block => exact Or.inr ⟨_, List.mem_singleton.mp h⟩
  all_goals exact absurd h List.not_mem_nil

/-- A spelling whose statements and comments are never single words. -/
structure Spelling.IsSpaced (spelling : Spelling) : Prop where
  write : ∀ destination value, Text.isBroken (spelling.write destination value) = true
  comment : ∀ text, Text.isBroken (spelling.comment text) = true

namespace Spelling.IsSpaced

variable {spelling : Spelling} (h : spelling.IsSpaced)

include h

theorem isOther_comment (text : String) : Text.isOther (spelling.comment text) = true :=
  Text.isOther_of_isBroken (h.comment text)

theorem definesNothing_statement (node : Node) : (spelling.statement node).DefinesNothing := by
  intro line hline
  rcases mem_statement hline with ⟨destination, value, rfl⟩ | ⟨text, rfl⟩
  · exact Text.isOther_of_isBroken (h.write destination value)
  · exact h.isOther_comment text

end Spelling.IsSpaced

/-- A dialect in which no line but a definition looks like one. -/
structure Dialect.TellsDefinitions (dialect : Dialect) : Prop where
  preamble : ∀ program, ∀ line ∈ dialect.preamble program, Text.isOther line = true
  postamble : ∀ program, ∀ line ∈ dialect.postamble program, Text.isOther line = true
  render : ∀ places node, (dialect.render places node).DefinesNothing

namespace Modern

theorem isSpaced : spelling.IsSpaced where
  write destination value := by
    change Text.isBroken (BasicText.write '.' destination value) = true
    unfold BasicText.write
    split
    · simp only [Text.isBroken_append]
      rfl
    · exact Text.isBroken_middle _ rfl _
  comment text := by
    change Text.isBroken ("'" ++ " " ++ text) = true
    simp only [Text.isBroken_append]
    rfl

/-- Lines that are written as they are. -/
def fixedLines : List String :=
  ["", "DO", "LOOP", "END SELECT", "END", "EXIT SUB", "END SUB", "END TYPE"]

/-- What the other lines start with, but for those that open a routine. -/
def fronts : List String :=
  ["FOR ", "NEXT ", "DO WHILE ", "LOOP UNTIL ", "IF ", "SELECT CASE ", "CASE ", "CALL ", "GOTO ",
    "EXIT SUB ", "DECLARE SUB ", "DIM SHARED ", "TYPE ", "    "]

/-- How lines are formed that open no routine. -/
inductive Formed : String → Prop where
  | fixed {text : String} (h : text ∈ fixedLines) : Formed text
  | fronted {front : String} (h : front ∈ fronts) (rest : String) : Formed (front ++ rest)
  | comment (text : String) : Formed (spelling.comment text)
  | write (destination value : String) : Formed (spelling.write destination value)

/-- Whether a node opens a routine. -/
def opens (node : Node) : Bool := node.kind == .function && node.value != Program.mainName

theorem formed_conditionalJump (node : Node) :
    Formed ("IF " ++ spelling.condition node.params ++ " THEN GOTO " ++ node.value) := by
  simp only [String.append_assoc]
  exact .fronted (by simp [fronts]) _

/-- A line that is written for a node opens its routine or is formed like the others. -/
theorem formed_render (places : Places) (node : Node) :
    ∀ line ∈ (render places node).opening ++ (render places node).closing,
      Formed line ∨ opens node = true ∧ line = "SUB " ++ signature node := by
  intro line hline
  unfold render at hline
  cases hkind : node.kind <;> rw [hkind] at hline
  case function =>
    simp only at hline
    split at hline
    · exact absurd hline List.not_mem_nil
    · rename_i hname
      change line ∈ ["", "SUB " ++ signature node, "END SUB"] at hline
      simp only [List.mem_cons, List.not_mem_nil, or_false] at hline
      rcases hline with rfl | rfl | rfl
      · exact Or.inl (.fixed (by simp [fixedLines]))
      · exact Or.inr ⟨by simp [opens, hkind, hname], rfl⟩
      · exact Or.inl (.fixed (by simp [fixedLines]))
  all_goals left
  case forLoop =>
    rcases List.mem_pair.mp hline with rfl | rfl
    · unfold BasicText.forLine
      simp only [String.append_assoc]
      exact .fronted (by simp [fronts]) _
    · exact .fronted (by simp [fronts]) _
  case whileLoop | switch | doUntil =>
    rcases List.mem_pair.mp hline with rfl | rfl
    all_goals first
      | exact .fronted (by simp [fronts]) _
      | exact .fixed (by simp [fixedLines])
  case case | romCall =>
    obtain rfl := List.mem_singleton.mp hline
    exact .fronted (by simp [fronts]) _
  case ifGoto =>
    obtain rfl := List.mem_singleton.mp hline
    exact formed_conditionalJump node
  case goto =>
    simp only at hline
    split at hline <;> obtain rfl := List.mem_singleton.mp hline
    · exact .fronted (by simp [fronts]) _
    · exact formed_conditionalJump node
  case subCall =>
    obtain rfl := List.mem_singleton.mp hline
    rw [String.append_assoc]
    exact .fronted (by simp [fronts]) _
  case leave =>
    simp only [leave] at hline
    split at hline <;> obtain rfl := List.mem_singleton.mp hline
    · exact .fixed (by simp [fixedLines])
    · exact .fronted (by simp [fronts]) _
    · exact .fixed (by simp [fixedLines])
  case exitSwitch => exact absurd hline List.not_mem_nil
  all_goals
    rcases Spelling.mem_statement hline with ⟨destination, value, rfl⟩ | ⟨text, rfl⟩
    · exact .write destination value
    · exact .comment text

theorem formed_of_mem_recordLines {node : Node} : ∀ line ∈ recordLines node, Formed line := by
  intro line hline
  unfold recordLines at hline
  simp only [List.mem_append, List.mem_map, List.mem_cons, List.not_mem_nil, or_false] at hline
  rcases hline with (rfl | ⟨field, _, rfl⟩) | rfl | rfl
  · rw [String.append_assoc]
    exact .fronted (by simp [fronts]) _
  · rw [String.append_assoc]
    exact .fronted (by simp [fronts]) _
  · exact .fixed (by simp [fixedLines])
  · simp only [String.append_assoc]
    exact .fronted (by simp [fronts]) _

theorem formed_of_mem_preamble (program : Program) : ∀ line ∈ preamble program, Formed line := by
  unfold preamble
  simp only [List.forall_mem_append]
  refine ⟨⟨⟨⟨⟨⟨?heading, ?routines⟩, ?others⟩, ?state⟩, ?places⟩, ?records⟩, ?gap⟩
  case heading =>
    exact List.forall_mem_cons.mpr
      ⟨.comment _, List.forall_mem_singleton.mpr (.fixed (by simp [fixedLines]))⟩
  case routines => exact List.forall_mem_map.mpr fun routine _ => .fronted (by simp [fronts]) _
  case others =>
    refine List.forall_mem_map.mpr fun name _ => ?_
    rw [String.append_assoc]
    exact .fronted (by simp [fronts]) _
  case state => exact List.forall_mem_singleton.mpr (.fronted (by simp [fronts]) _)
  case places =>
    refine List.forall_mem_map.mpr fun entry _ => ?_
    unfold variableLine
    simp only [String.append_assoc]
    exact .fronted (by simp [fronts]) _
  case records => exact List.forall_mem_flatMap.mpr fun node _ => formed_of_mem_recordLines
  case gap => exact List.forall_mem_singleton.mpr (.fixed (by simp [fixedLines]))

theorem Formed.isOther {line : String} (h : Formed line) : Text.isOther line = true := by
  cases h with
  | fixed h =>
    have hall : fixedLines.all Text.isOther = true := rfl
    exact List.all_eq_true.mp hall _ h
  | fronted h rest =>
    have hall : fronts.all Text.isBroken = true := rfl
    exact Text.isOther_append (List.all_eq_true.mp hall _ h) rest
  | comment text => exact isSpaced.isOther_comment text
  | write destination value => exact Text.isOther_of_isBroken (isSpaced.write destination value)

theorem definesNothing_render (places : Places) (node : Node) :
    (render places node).DefinesNothing := by
  intro line hline
  rcases formed_render places node line hline with hformed | ⟨-, rfl⟩
  · exact hformed.isOther
  · exact Text.isOther_append rfl _

theorem isOther_of_mem_emptyRoutine (name note : String) :
    ∀ line ∈ emptyRoutine name note, Text.isOther line = true := by
  simp only [emptyRoutine, List.forall_mem_cons]
  exact ⟨rfl, Text.isOther_append rfl _, Text.isOther_append rfl _, rfl, List.forall_mem_nil _⟩

theorem isOther_of_mem_postamble (program : Program) :
    ∀ line ∈ postamble program, Text.isOther line = true := by
  unfold postamble
  refine List.forall_mem_append.mpr ⟨?_, ?_⟩
  · exact List.forall_mem_flatMap.mpr fun entry _ => isOther_of_mem_emptyRoutine _ _
  · exact List.forall_mem_flatMap.mpr fun name _ => isOther_of_mem_emptyRoutine _ _

theorem tellsDefinitions : dialect.TellsDefinitions where
  preamble program line hline := (formed_of_mem_preamble program line hline).isOther
  postamble := isOther_of_mem_postamble
  render := definesNothing_render

end Modern

namespace Curly

theorem isSpaced : spelling.IsSpaced where
  write destination value := by
    change Text.isBroken (read destination ++ " = " ++ value ++ ";") = true
    rw [String.append_assoc]
    exact Text.isBroken_middle _ rfl _
  comment text := by
    change Text.isBroken ("/* " ++ text ++ " */") = true
    simp only [Text.isBroken_append]
    rfl

theorem definesNothing_conditionalJump (node : Node) : (conditionalJump node).DefinesNothing := by
  apply Rendered.definesNothing_line
  simp only [String.append_assoc]
  exact Text.isOther_append rfl _

theorem isOther_signature (node : Node) (rest : String) :
    Text.isOther (signature node ++ rest) = true := by
  unfold signature
  split
  · exact Text.isOther_append rfl _
  · split
    · simp only [String.append_assoc]
      exact Text.isOther_append rfl _
    · simp only [String.append_assoc]
      exact Text.isOther_append rfl _

theorem definesNothing_countedLoop (node : Node) : (countedLoop node).DefinesNothing := by
  unfold countedLoop
  simp only
  split
  · refine Rendered.definesNothing_around (List.forall_mem_singleton.mpr ?_)
      (List.forall_mem_singleton.mpr rfl)
    simp only [String.append_assoc]
    exact Text.isOther_append rfl _
  · refine Rendered.definesNothing_around ?_ ?_
    · refine List.forall_mem_cons.mpr ⟨Text.isOther_of_isBroken ?_,
        List.forall_mem_singleton.mpr rfl⟩
      rw [String.append_assoc]
      exact Text.isBroken_middle _ rfl _
    · simp only [String.append_assoc]
      exact List.forall_mem_cons.mpr
        ⟨Text.isOther_append rfl _, List.forall_mem_singleton.mpr (Text.isOther_append rfl _)⟩

theorem definesNothing_render (places : Places) (node : Node) :
    (render places node).DefinesNothing := by
  unfold render
  cases node.kind
  case function =>
    refine Rendered.definesNothing_around ?_ (List.forall_mem_singleton.mpr rfl)
    exact List.forall_mem_cons.mpr ⟨rfl, List.forall_mem_singleton.mpr (isOther_signature node _)⟩
  case forLoop => exact definesNothing_countedLoop node
  case whileLoop | switch =>
    simp only [String.append_assoc]
    exact Rendered.definesNothing_block (Text.isOther_append rfl _) rfl
  case doUntil =>
    simp only [String.append_assoc]
    exact Rendered.definesNothing_block rfl (Text.isOther_append rfl _)
  case case =>
    simp only [String.append_assoc]
    exact Rendered.definesNothing_around (List.forall_mem_singleton.mpr (Text.isOther_append rfl _))
      (List.forall_mem_nil _)
  case ifGoto => exact definesNothing_conditionalJump node
  case goto =>
    simp only [String.append_assoc]
    split
    · exact Rendered.definesNothing_line (Text.isOther_append rfl _)
    · exact definesNothing_conditionalJump node
  case subCall =>
    apply Rendered.definesNothing_line
    apply Text.isOther_of_isBroken
    rw [String.append_assoc]
    exact Text.isBroken_middle _ rfl _
  case romCall =>
    apply Rendered.definesNothing_line
    apply Text.isOther_of_isBroken
    rw [Text.isBroken_append, show Text.isBroken "();" = true from rfl, Bool.or_true]
  case leave =>
    simp only [leave]
    split
    · exact Rendered.definesNothing_line rfl
    · exact Rendered.definesNothing_line (Text.isOther_append rfl _)
    · exact Rendered.definesNothing_line rfl
  case exitSwitch => exact Rendered.definesNothing_line rfl
  all_goals exact isSpaced.definesNothing_statement node

theorem isOther_of_mem_preamble (program : Program) :
    ∀ line ∈ preamble program, Text.isOther line = true := by
  unfold preamble
  simp only [List.forall_mem_append]
  refine ⟨⟨⟨⟨⟨⟨?fixed, ?definitions⟩, ?records⟩, ?gap⟩, ?romCalls⟩, ?externals⟩, ?routines⟩
  case fixed =>
    simp only [List.forall_mem_cons, String.append_assoc]
    exact ⟨isSpaced.isOther_comment _, rfl, rfl, rfl, Text.isOther_append rfl _, rfl, rfl,
      List.forall_mem_nil _⟩
  case definitions =>
    split
    · exact List.forall_mem_nil _
    · refine List.forall_mem_cons.mpr ⟨rfl, List.forall_mem_map.mpr fun entry _ => ?_⟩
      apply Text.isOther_of_isBroken
      unfold variableLine
      simp only [Text.isBroken_append]
      rfl
  case records =>
    refine List.forall_mem_map.mpr fun node _ => ?_
    apply Text.isOther_of_isBroken
    unfold recordLine
    simp only [Text.isBroken_append]
    rfl
  case gap => exact List.forall_mem_singleton.mpr rfl
  case romCalls =>
    refine List.forall_mem_map.mpr fun entry _ => ?_
    apply Text.isOther_of_isBroken
    simp only [Text.isBroken_append]
    rfl
  case externals =>
    refine List.forall_mem_map.mpr fun name _ => ?_
    apply Text.isOther_of_isBroken
    simp only [Text.isBroken_append]
    rfl
  case routines => exact List.forall_mem_map.mpr fun routine _ => isOther_signature routine _

theorem tellsDefinitions : dialect.TellsDefinitions where
  preamble := isOther_of_mem_preamble
  postamble _ := List.forall_mem_nil _
  render := definesNothing_render

end Curly

end Lift6502
