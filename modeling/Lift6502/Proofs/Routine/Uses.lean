import Lift6502.Proofs.Routine.Programs
import Lift6502.Proofs.Shape.Variations

/-!
# What a program uses

Instructions are noted match by match while routines are built, and a loop over unrolled code uses a
place of its own for every operand that it folds. Here the uses of all matches are one list. The
variables of a program are the places in that list, each with what its uses ask for, and the
routines of the ROM are the called addresses that the symbol table knows as such.
-/

namespace Lift6502

theorem filterMap_cons_toList {α β : Type} (choose : α → Option β) (element : α)
    (elements : List α) :
    (element :: elements).filterMap choose
      = (choose element).toList ++ elements.filterMap choose := by
  rw [List.filterMap_cons]
  cases choose element <;> rfl

/-- One use of a place in memory. -/
structure Use where
  address : Address
  indexed : Bool := false
  pointer : Bool := false

/-- What a use adds to a variable. -/
def Use.change (use : Use) (place : Variable) : Variable :=
  { place with indexed := place.indexed || use.indexed, pointer := place.pointer || use.pointer }

/-- The use that an instruction makes of memory. -/
def Instruction.use? (instruction : Instruction) : Option Use :=
  if instruction.mnemonic = .jsr then none
  else match instruction.operand with
    | .indexed base _ => some { address := base, indexed := true }
    | .indirectIndexed pointer _ => some { address := pointer.toUInt16, pointer := true }
    | .indirect address => some { address }
    | .absolute address => if instruction.mnemonic.isControlFlow then none else some { address }
    | _ => none

/-- The use that a loop over unrolled code makes of the first place of an operand. -/
def Variation.use? (variation : Variation) : Option Use :=
  match variation.values.head? with
  | some (.absolute first) => some { address := first, indexed := true }
  | _ => none

namespace Match

/-- The operands that the blocks of an unrolled loop differ in. -/
def folded (found : Match) : List Variation :=
  if found.shape = .unrolled then (Block.variations? found.blocks).getD [] else []

/-- All uses that the code for a match makes of memory. -/
def uses (found : Match) : List Use :=
  found.instructions.filterMap Instruction.use? ++ found.folded.filterMap Variation.use?

/-- The addresses that the instructions of a match call. -/
def calls (found : Match) : List Address := found.instructions.filterMap fun i => i.callTarget?

end Match

/-! ### Variables for uses -/

/-- The variable for a place that is used in some ways. -/
def placeFor (symbols : SymbolTable) (uses : List Use) (address : Address) : Variable :=
  { name := symbols.dataName address
    address
    kind := symbols.kind? address
    indexed := uses.any fun use => use.address == address && use.indexed
    pointer := uses.any fun use => use.address == address && use.pointer }

namespace Usage

/-- What is known of a program covers some uses of memory and some calls, and nothing else. -/
structure Covers (symbols : SymbolTable) (uses : List Use) (calls : List Address) (usage : Usage) :
    Prop where
  places : ∀ address place, usage.variableMap[address]? = some place ↔
    (∃ use ∈ uses, use.address = address) ∧ place = placeFor symbols uses address
  romCalls : ∀ target name, usage.romCalls[target]? = some name ↔
    target ∈ calls ∧ symbols.kind? target = some .kernalCall ∧ name = symbols.codeName target

variable {symbols : SymbolTable} {uses : List Use} {calls : List Address} {usage : Usage}

theorem Covers.nothing : Covers symbols [] [] {} := by
  constructor <;> intros <;> simp

/-- Templates and announcements are no uses. -/
theorem Covers.of_eq {other : Usage} (h : usage.Covers symbols uses calls)
    (hplaces : other.variableMap = usage.variableMap) (hcalls : other.romCalls = usage.romCalls) :
    other.Covers symbols uses calls :=
  ⟨hplaces ▸ h.places, hcalls ▸ h.romCalls⟩

/-- A variable that is looked up is what its uses so far ask for, also if there were none. -/
theorem Covers.variableAt_eq (h : usage.Covers symbols uses calls) (address : Address) :
    usage.variableAt symbols address = placeFor symbols uses address := by
  cases hplace : usage.variableMap[address]? with
  | some place =>
    obtain ⟨_, rfl⟩ := (h.places address place).mp hplace
    rw [variableAt, hplace, Option.getD_some]
  | none =>
    have hunused : ∀ use ∈ uses, use.address ≠ address := by
      intro use huse haddress
      have hsome := (h.places address _).mpr ⟨⟨use, huse, haddress⟩, rfl⟩
      rw [hplace] at hsome
      cases hsome
    have hnone (flag : Use → Bool) : (uses.any fun use => use.address == address && flag use)
        = false := by
      rw [List.any_eq_false]
      intro use huse
      simp [hunused use huse]
    rw [variableAt, hplace, Option.getD_none, placeFor, hnone, hnone]

theorem placeFor_append_self (use : Use) :
    placeFor symbols (uses ++ [use]) use.address
      = use.change (placeFor symbols uses use.address) := by
  simp [placeFor, Use.change]

theorem placeFor_append_of_ne {use : Use} {address : Address} (h : use.address ≠ address) :
    placeFor symbols (uses ++ [use]) address = placeFor symbols uses address := by
  simp [placeFor, h]

/-! ### Steps -/

theorem Covers.touch (h : usage.Covers symbols uses calls) (use : Use)
    {change : Variable → Variable} (hchange : ∀ place, change place = use.change place) :
    (usage.touch symbols use.address change).Covers symbols (uses ++ [use]) calls := by
  refine ⟨fun address place => ?_, h.romCalls⟩
  rw [Usage.touch, Std.ExtTreeMap.getElem?_insert, h.variableAt_eq, hchange]
  by_cases haddress : use.address = address
  · subst haddress
    rw [if_pos (Std.ReflCmp.compare_self), ← placeFor_append_self, Option.some.injEq, eq_comm]
    refine ⟨fun hplace => ⟨⟨use, ?_, rfl⟩, hplace⟩, And.right⟩
    exact List.mem_append_right uses (List.mem_singleton_self use)
  · rw [if_neg fun heq => haddress (Std.LawfulEqCmp.eq_of_compare heq), h.places,
      placeFor_append_of_ne haddress]
    simp [List.mem_append, or_and_right, exists_or, haddress]

theorem Covers.noteCall (h : usage.Covers symbols uses calls) (target : Address) :
    (usage.noteCall symbols target).Covers symbols uses (calls ++ [target]) := by
  unfold Usage.noteCall
  split
  · rename_i hkind
    refine ⟨h.places, fun other name => ?_⟩
    rw [Std.ExtTreeMap.getElem?_insert]
    by_cases hother : target = other
    · subst hother
      rw [if_pos (Std.ReflCmp.compare_self), Option.some.injEq, eq_comm]
      simp [hkind]
    · rw [if_neg fun heq => hother (Std.LawfulEqCmp.eq_of_compare heq), h.romCalls]
      simp [Ne.symm hother]
  · rename_i hkind
    refine ⟨h.places, fun other name => ?_⟩
    rw [h.romCalls, List.mem_append, List.mem_singleton]
    constructor
    · exact fun hcall => ⟨Or.inl hcall.1, hcall.2⟩
    · rintro ⟨hcall | rfl, hother, hname⟩
      · exact ⟨hcall, hother, hname⟩
      · exact absurd hother hkind

theorem Covers.note (h : usage.Covers symbols uses calls) (instruction : Instruction) :
    (usage.note symbols instruction).Covers symbols (uses ++ instruction.use?.toList)
      (calls ++ instruction.callTarget?.toList) := by
  have htouch (use : Use) {change : Variable → Variable}
      (hchange : ∀ place, change place = use.change place) :
      (usage.touch symbols use.address change).Covers symbols (uses ++ (some use).toList)
        (calls ++ []) := by
    rw [List.append_nil]
    exact h.touch use hchange
  have hnone : usage.Covers symbols (uses ++ []) (calls ++ []) := by
    rw [List.append_nil, List.append_nil]
    exact h
  unfold Usage.note Instruction.use?
  by_cases hcall : instruction.mnemonic = .jsr
  · rw [if_pos hcall, if_pos hcall]
    have htarget : instruction.callTarget? = instruction.target? := by
      simp [Operation.callTarget?, hcall]
    rw [htarget]
    cases instruction.target? with
    | none => exact hnone
    | some target =>
      rw [Option.toList_none, List.append_nil]
      exact h.noteCall target
  · rw [if_neg hcall, if_neg hcall]
    have htarget : instruction.callTarget? = none := by simp [Operation.callTarget?, hcall]
    rw [htarget]
    cases instruction.operand with
    | indexed base index =>
      refine htouch { address := base, indexed := true } fun place => ?_
      simp [Use.change]
    | indirectIndexed pointer index =>
      refine htouch { address := pointer.toUInt16, pointer := true } fun place => ?_
      simp [Use.change]
    | indirect address =>
      refine htouch { address } fun place => ?_
      simp [Use.change]
    | absolute address =>
      simp only
      split
      · exact hnone
      · refine htouch { address } fun place => ?_
        simp [Use.change]
    | _ => exact hnone

theorem Covers.foldl_note (h : usage.Covers symbols uses calls) (instructions : List Instruction) :
    (instructions.foldl (Usage.note symbols) usage).Covers symbols
      (uses ++ instructions.filterMap Instruction.use?)
      (calls ++ instructions.filterMap fun i => i.callTarget?) := by
  induction instructions generalizing usage uses calls with
  | nil => simpa using h
  | cons instruction rest ih =>
    have hrest := ih (h.note instruction)
    rw [List.append_assoc, List.append_assoc] at hrest
    rw [List.foldl_cons, filterMap_cons_toList, filterMap_cons_toList]
    exact hrest

end Usage

/-! ### Runs -/

namespace Routine

variable {symbols : SymbolTable} {uses : List Use} {calls : List Address} {usage : Usage}

theorem covers_folded (h : usage.Covers symbols uses calls) (variation : Variation) :
    (folded symbols usage variation).1.Covers symbols (uses ++ variation.use?.toList) calls := by
  unfold folded Variation.use?
  cases variation.values.head? with
  | none => simpa using h
  | some value =>
    cases value with
    | absolute first =>
      change (usage.touch symbols first fun place => { place with indexed := true }).Covers
        symbols _ calls
      refine h.touch { address := first, indexed := true } fun place => ?_
      simp [Use.change]
    | _ => simpa using h

theorem covers_unrolledBody (h : usage.Covers symbols uses calls) (varying : List Variation)
    (pairs : List (Instruction × Nat)) :
    (unrolledBody symbols varying usage pairs).1.Covers symbols
      (uses ++ (pairs.filterMap fun pair =>
        varying.find? (·.position == pair.2)).filterMap Variation.use?) calls := by
  induction pairs generalizing usage uses with
  | nil => simpa [unrolledBody] using h
  | cons pair rest ih =>
    obtain ⟨instruction, position⟩ := pair
    rw [unrolledBody]
    cases hlooked : varying.find? (·.position == position) with
    | none =>
      rw [filterMap_cons_toList, hlooked]
      exact ih h
    | some variation =>
      rw [filterMap_cons_toList, hlooked, Option.toList_some, List.singleton_append,
        filterMap_cons_toList, ← List.append_assoc]
      exact ih (covers_folded h variation)

/-- Only a loop over unrolled code uses more than its instructions do. -/
theorem covers_structured (h : usage.Covers symbols uses calls) (found : Match) :
    (structured symbols usage found).1.Covers symbols
      (uses ++ found.folded.filterMap Variation.use?) calls := by
  by_cases hunrolled : found.shape = .unrolled
  · rw [structured, hunrolled, Match.folded, if_pos hunrolled]
    simp only [unrolled]
    cases hblocks : found.blocks with
    | nil => simpa [Block.variations?] using h
    | cons first rest =>
      have hbody := covers_unrolledBody h ((Block.variations? (first :: rest)).getD [])
        first.instructions.zipIdx
      rw [Block.filterMap_find?_variations] at hbody
      exact hbody
  · rw [Match.folded, if_neg hunrolled, List.filterMap_nil, List.append_nil, structured]
    cases hshape : found.shape
    case unrolled => exact absurd hshape hunrolled
    case template =>
      simp only [template]
      split
      · exact h
      · exact h.of_eq rfl rfl
    case globalVariable =>
      obtain ⟨⟨announced, husage⟩, -⟩ := announce_spec symbols usage found.instructions
      exact h.of_eq (by rw [husage]) (by rw [husage])
    all_goals exact h

theorem covers_codeFor (h : usage.Covers symbols uses calls) (matched : List Match) :
    (codeFor symbols usage matched).1.Covers symbols (uses ++ matched.flatMap Match.uses)
      (calls ++ matched.flatMap Match.calls) := by
  induction matched generalizing usage uses calls with
  | nil => simpa [codeFor] using h
  | cons found others ih =>
    have hothers := ih (covers_structured (h.foldl_note found.instructions) found)
    rw [List.append_assoc uses, List.append_assoc, List.append_assoc calls] at hothers
    rw [List.flatMap_cons, List.flatMap_cons]
    exact hothers

end Routine

namespace Program

/-- What is known of a program covers the matches of some segments of blocks. -/
def Routines.Covers (symbols : SymbolTable) (segments : List (List Block))
    (routines : Routines) : Prop :=
  routines.usage.Covers symbols ((segments.flatMap (Routine.shapes symbols)).flatMap Match.uses)
    ((segments.flatMap (Routine.shapes symbols)).flatMap Match.calls)

theorem covers_add {symbols : SymbolTable} {segments : List (List Block)} {routines : Routines}
    (h : routines.Covers symbols segments) (segment : List Block) :
    (routines.add symbols segment).Covers symbols (segments ++ [segment]) := by
  rw [Routines.Covers, usage_add, Routine.build_eq_codeFor, List.flatMap_append,
    List.flatMap_append, List.flatMap_append, List.flatMap_singleton]
  exact Routine.covers_codeFor h _

theorem covers_routines (symbols : SymbolTable) (blocks : List Block) :
    (routines symbols blocks).usage.Covers symbols ((shapes symbols blocks).flatMap Match.uses)
      ((shapes symbols blocks).flatMap Match.calls) := by
  have hnone : Routines.Covers symbols [] {} := Usage.Covers.nothing
  exact foldl_add_induction (motive := Routines.Covers symbols)
    (fun _ _ segment h => covers_add h segment) hnone _

end Program

end Lift6502
