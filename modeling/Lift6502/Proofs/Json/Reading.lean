import Lift6502.Json.Reader
import Lift6502.Proofs.Json.Tokens

/-!
# Reading printed values

Reading the tokens of a value finishes the value where it stands, unless too many arrays and objects
are open on the way. A printed text is therefore read back exactly if nothing in it is nested deeper
than the reader allows.
-/

namespace Lift6502.Json

/-! ### Values by their parts -/

/-- Whether a value is a token of its own. -/
def isScalar : Json → Bool
  | .array _ => false
  | .object _ => false
  | _ => true

/-- What holds of an array or an object as soon as it holds of all that is in it holds of every
value. -/
@[elab_as_elim]
theorem induction {motive : Json → Prop} (scalar : ∀ value, value.isScalar = true → motive value)
    (array : ∀ elements, (∀ element ∈ elements, motive element) → motive (.array elements))
    (object : ∀ members, (∀ member ∈ members, motive member.2) → motive (.object members))
    (value : Json) : motive value :=
  match value with
  | .null => scalar .null rfl
  | .bool value => scalar (.bool value) rfl
  | .number mantissa exponent => scalar (.number mantissa exponent) rfl
  | .string text => scalar (.string text) rfl
  | .array elements => array elements fun element _ => induction scalar array object element
  | .object members => object members fun member _ => induction scalar array object member.2
termination_by sizeOf value
decreasing_by
  · have hlist := List.sizeOf_lt_of_mem ‹_›
    simp only [Json.array.sizeOf_spec]
    omega
  · have hlist := List.sizeOf_lt_of_mem ‹_›
    have hmember : sizeOf member.2 < sizeOf member := by
      cases member
      simp only [Prod.mk.sizeOf_spec]
      omega
    simp only [Json.object.sizeOf_spec]
    omega

theorem tokens_of_isScalar {value : Json} (h : value.isScalar = true) :
    value.tokens = [.scalar value] := by
  cases value with
  | array elements => cases h
  | object members => cases h
  | _ => rw [tokens]

/-! ### Nesting -/

mutual

/-- How deep arrays and objects are nested in a value. -/
def depth : Json → Nat
  | .null => 0
  | .bool _ => 0
  | .number _ _ => 0
  | .string _ => 0
  | .array elements => elementDepth elements + 1
  | .object members => memberDepth members + 1

def elementDepth : List Json → Nat
  | [] => 0
  | element :: elements => max element.depth (elementDepth elements)

def memberDepth : List (String × Json) → Nat
  | [] => 0
  | (_, value) :: members => max value.depth (memberDepth members)

end

theorem depth_of_isScalar {value : Json} (h : value.isScalar = true) : value.depth = 0 := by
  cases value with
  | array elements => cases h
  | object members => cases h
  | _ => rw [depth]

theorem add_elementDepth_le_iff {elements : List Json} {opened bound : Nat} (h : opened ≤ bound) :
    opened + elementDepth elements ≤ bound ↔
      ∀ element ∈ elements, opened + element.depth ≤ bound := by
  induction elements with
  | nil => simpa [elementDepth] using h
  | cons element elements ih =>
    rw [List.forall_mem_cons, ← ih, elementDepth]
    omega

theorem add_memberDepth_le_iff {members : List (String × Json)} {opened bound : Nat}
    (h : opened ≤ bound) :
    opened + memberDepth members ≤ bound ↔ ∀ member ∈ members, opened + member.2.depth ≤ bound := by
  induction members with
  | nil => simpa [memberDepth] using h
  | cons member members ih =>
    rw [List.forall_mem_cons, ← ih, memberDepth]
    omega

theorem depth_le_of_isScalar {value : Json} (h : value.isScalar = true) (bound : Nat) :
    value.depth ≤ bound := by
  rw [depth_of_isScalar h]
  exact Nat.zero_le bound

theorem depth_array_le {elements : List Json} {bound : Nat}
    (h : ∀ element ∈ elements, element.depth ≤ bound) : (array elements).depth ≤ bound + 1 := by
  have hbound := (add_elementDepth_le_iff (Nat.zero_le bound)).mpr (by simpa using h)
  rw [depth]
  omega

theorem depth_object_le {members : List (String × Json)} {bound : Nat}
    (h : ∀ member ∈ members, member.2.depth ≤ bound) : (object members).depth ≤ bound + 1 := by
  have hbound := (add_memberDepth_le_iff (Nat.zero_le bound)).mpr (by simpa using h)
  rw [depth]
  omega

namespace State

/-- Reads tokens one after the other. -/
def run (tokens : List Token) (state : State) : Option State := tokens.foldlM step state

theorem run_cons (token : Token) (tokens : List Token) (state : State) :
    run (token :: tokens) state = (state.step token).bind (run tokens) :=
  rfl

/-! ### Parts with commas between them -/

section Parts

variable {α : Type} {items : List α} {tokens : α → List Token} {p : α → Prop} [DecidablePred p]
  (between : List α → State)

/-- If each part is put to those before it, all of them are, unless one is refused. -/
theorem run_others
    (hitem : ∀ item ∈ items, ∀ done rest, run (.comma :: (tokens item ++ rest)) (between done) =
      if p item then run rest (between (item :: done)) else none)
    (done : List α) (rest : List Token) :
    run ((items.map tokens).flatMap (.comma :: ·) ++ rest) (between done) =
      if ∀ item ∈ items, p item then run rest (between (items.reverse ++ done)) else none := by
  induction items generalizing done with
  | nil => simp
  | cons item items ih =>
    obtain ⟨hfirst, hothers⟩ := List.forall_mem_cons.mp hitem
    rw [List.map_cons, List.flatMap_cons, List.append_assoc, List.cons_append, hfirst, ih hothers]
    by_cases hp : p item
    · simp [hp]
    · simp [hp]

/-- What stands between brackets is finished once they are closed. -/
theorem run_enclosed {start : State} {close : Token} {whole : List α → Json} {frames : List Frame}
    (hfirst : ∀ item ∈ items, ∀ rest, run (tokens item ++ rest) start = if p item
      then run rest (between [item]) else none)
    (hitem : ∀ item ∈ items, ∀ done rest, run (.comma :: (tokens item ++ rest)) (between done) =
      if p item then run rest (between (item :: done)) else none)
    (hempty : start.step close = finish (whole []) frames)
    (hclose : ∀ done, (between done).step close = finish (whole done.reverse) frames)
    (rest : List Token) :
    run (separated (items.map tokens) ++ close :: rest) start =
      if ∀ item ∈ items, p item then (finish (whole items) frames).bind (run rest) else none := by
  cases items with
  | nil => simp [separated, run_cons, hempty]
  | cons item items =>
    rw [List.map_cons, separated, List.append_assoc, (List.forall_mem_cons.mp hfirst).1,
      run_others between (List.forall_mem_cons.mp hitem).2, run_cons, hclose]
    by_cases hp : p item
    · simp [hp]
    · simp [hp]

end Parts

/-! ### Values -/

/-- The first token of an element is read like that of any value: it does not close the array. -/
theorem run_element (value : Json) (frames : List Frame) (rest : List Token) :
    run (value.tokens ++ rest) { frames, expectation := .element } =
      run (value.tokens ++ rest) { frames, expectation := .value } := by
  cases value <;> rw [tokens] <;> rfl

theorem run_array {elements : List Json} {frames : List Frame}
    (h : ∀ element ∈ elements, ∀ done rest,
      run (element.tokens ++ rest) { frames := .array done :: frames, expectation := .value } =
        if frames.length + 1 + element.depth ≤ maxDepth then
          run rest { frames := .array (element :: done) :: frames, expectation := .separator }
        else none)
    (rest : List Token) :
    run (separated (elements.map tokens) ++ .closeArray :: rest)
        { frames := .array [] :: frames, expectation := .element } =
      if ∀ element ∈ elements, frames.length + 1 + element.depth ≤ maxDepth then
        (finish (.array elements) frames).bind (run rest)
      else none := by
  refine run_enclosed (fun done => { frames := .array done :: frames, expectation := .separator })
    (fun element helement rest => ?_) (fun element helement done rest => ?_) rfl
    (fun done => rfl) rest
  · rw [run_element]
    exact h element helement [] rest
  · exact h element helement done rest

theorem run_object {members : List (String × Json)} {frames : List Frame}
    (h : ∀ member ∈ members, ∀ done rest,
      run (member.2.tokens ++ rest)
      { frames := .member done member.1 :: frames, expectation := .value } =
        if frames.length + 1 + member.2.depth ≤ maxDepth then
          run rest { frames := .object (member :: done) :: frames, expectation := .separator }
        else none)
    (rest : List Token) :
    run (separated (memberTokens members) ++ .closeObject :: rest)
        { frames := .object [] :: frames, expectation := .firstName } =
      if ∀ member ∈ members, frames.length + 1 + member.2.depth ≤ maxDepth then
        (finish (.object members) frames).bind (run rest)
      else none := by
  rw [memberTokens_eq_map]
  refine run_enclosed (fun done => { frames := .object done :: frames, expectation := .separator })
    (fun member hmember rest => ?_) (fun member hmember done rest => ?_) rfl (fun done => rfl) rest
  · exact h member hmember [] rest
  · exact h member hmember done rest

/-- A value is finished where it stands, unless it is nested too deep. As long as nothing was
refused, no more is open than may be: the bound on that is an invariant. -/
theorem run_tokens (value : Json) (frames : List Frame) (hframes : frames.length ≤ maxDepth)
    (rest : List Token) :
    run (value.tokens ++ rest) { frames, expectation := .value } =
      if frames.length + value.depth ≤ maxDepth then (finish value frames).bind (run rest)
        else none := by
  induction value using Json.induction generalizing frames rest with
  | scalar value hscalar =>
    rw [tokens_of_isScalar hscalar, depth_of_isScalar hscalar, Nat.add_zero, if_pos hframes]
    rfl
  | array elements ih =>
    rw [tokens, elementTokens_eq_map, List.append_assoc, List.cons_append, run_cons, depth,
      Nat.add_comm (elementDepth elements), ← Nat.add_assoc]
    change (push (.array []) .element frames).bind (run (separated (elements.map tokens)
        ++ .closeArray :: rest)) = _
    by_cases hopen : frames.length < maxDepth
    · rw [push, if_pos hopen, Option.bind_some,
        run_array fun element helement done rest =>
          ih element helement (.array done :: frames) hopen rest]
      simp only [add_elementDepth_le_iff hopen]
    · rw [push, if_neg hopen, Option.bind_none, if_neg (by omega)]
  | object members ih =>
    rw [tokens, List.append_assoc, List.cons_append, run_cons, depth,
      Nat.add_comm (memberDepth members), ← Nat.add_assoc]
    change (push (.object []) .firstName frames).bind (run (separated (memberTokens members)
        ++ .closeObject :: rest)) = _
    by_cases hopen : frames.length < maxDepth
    · rw [push, if_pos hopen, Option.bind_some,
        run_object fun member hmember done rest =>
          ih member hmember (.member done member.1 :: frames) hopen rest]
      simp only [add_memberDepth_le_iff hopen]
    · rw [push, if_neg hopen, Option.bind_none, if_neg (by omega)]

end State

/-- What is printed for a value is read back, whatever blanks follow, exactly if it is not nested
too deep. -/
theorem read?_print {value : Json} (h : InRange value) {trail : List Char}
    (htrail : ∀ c ∈ trail, isSpace c = true) :
    read? (value.print.toList ++ trail) = if value.depth ≤ State.maxDepth then some value
      else none := by
  have hrun := State.run_tokens value [] (Nat.zero_le _) []
  rw [List.append_nil, List.length_nil, Nat.zero_add, State.run] at hrun
  rw [read?, tokens?_print h htrail]
  change (value.tokens.foldlM State.step { frames := [], expectation := .value }).bind _ = _
  rw [hrun]
  split <;> rfl

end Lift6502.Json
