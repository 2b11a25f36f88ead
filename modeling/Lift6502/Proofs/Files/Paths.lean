import Lift6502.Files.Tree
import Mathlib.Data.Option.Basic

/-!
# Paths and the places they lead to

A path is its components with slashes between them. Followed from a directory it leads to a place:
every component goes down, and a pair of dots goes up. If its last component is a name, the place is
that of a file. Replacing the extension of a path changes the name of the file and leaves its
directory as it is, and a name joined to a directory is a file in that directory.
-/

namespace Lift6502.Path

open FileTree (Place)

/-! ### Components between slashes -/

/-- Components with a slash behind each of them. -/
def above (segments : List (List Char)) : List Char := segments.flatMap (· ++ ['/'])

/-- Components with a slash in front of each of them. -/
def below (segments : List (List Char)) : List Char := segments.flatMap ('/' :: ·)

/-- Whether a component leads anywhere. -/
def isProper (component : List Char) : Bool := component != [] && component != ['.']

/-- Whether a component can be the name of a file. -/
def isFileName (component : List Char) : Bool := isProper component && component != ['.', '.']

theorem above_cons (segment : List Char) (segments : List (List Char)) :
    above (segment :: segments) = segment ++ '/' :: above segments := by
  simp [above]

theorem below_cons (segment : List Char) (segments : List (List Char)) :
    below (segment :: segments) = '/' :: (segment ++ below segments) := by
  simp [below]

theorem below_eq_nil_iff {segments : List (List Char)} : below segments = [] ↔ segments = [] := by
  cases segments <;> simp [below]

theorem isFileName_iff {component : List Char} :
    isFileName component ↔ component ≠ [] ∧ component ≠ ['.'] ∧ component ≠ ['.', '.'] := by
  simp [isFileName, isProper, and_assoc]

theorem isProper_of_isFileName {component : List Char} (h : isFileName component) :
    isProper component :=
  (Bool.and_eq_true_iff.mp h).1

theorem eq_of_isProper_eq_false {component : List Char} (h : isProper component = false) :
    component = [] ∨ component = ['.'] := by
  simpa [isProper, Decidable.or_iff_not_imp_left] using h

section Splitting

variable {up down : List (List Char)} {name : List Char}

theorem splitOn_above_append (hup : ∀ segment ∈ up, '/' ∉ segment) (rest : List Char) :
    (above up ++ rest).splitOn '/' = up ++ rest.splitOn '/' := by
  induction up with
  | nil => rfl
  | cons segment up ih =>
    obtain ⟨hsegment, hup⟩ := List.forall_mem_cons.mp hup
    rw [above_cons, List.append_assoc, List.cons_append,
      List.splitOn_append_cons_self_of_not_mem hsegment, ih hup, List.cons_append]

theorem splitOn_append_below (hname : '/' ∉ name) (hdown : ∀ segment ∈ down, '/' ∉ segment) :
    (name ++ below down).splitOn '/' = name :: down := by
  induction down generalizing name with
  | nil => rw [below, List.flatMap_nil, List.append_nil, List.splitOn_eq_singleton hname]
  | cons segment down ih =>
    obtain ⟨hsegment, hdown⟩ := List.forall_mem_cons.mp hdown
    rw [below_cons, List.splitOn_append_cons_self_of_not_mem hname, ih hsegment hdown]

theorem intercalate_cons (name : List Char) (down : List (List Char)) :
    ['/'].intercalate (name :: down) = name ++ below down := by
  induction down generalizing name with
  | nil => simp [below]
  | cons segment down ih => rw [List.intercalate_cons_cons, ih, below_cons]; simp

theorem intercalate_append_cons (up : List (List Char)) (name : List Char)
    (down : List (List Char)) :
    ['/'].intercalate (up ++ name :: down) = above up ++ (name ++ below down) := by
  induction up with
  | nil => exact intercalate_cons name down
  | cons segment up ih =>
    rw [List.cons_append, List.intercalate_cons_of_ne_nil (by simp), ih, above_cons]
    simp

theorem slash_not_mem_of_mem_splitOn {path : List Char} :
    ∀ segment ∈ path.splitOn '/', '/' ∉ segment := by
  induction path with
  | nil => simp
  | cons c path ih =>
    rw [List.splitOn_cons_eq_if_modifyHead]
    split
    · exact List.forall_mem_cons.mpr ⟨List.not_mem_nil, ih⟩
    · rename_i hc
      cases hsegments : path.splitOn '/' with
      | nil => simp
      | cons first rest =>
        rw [hsegments] at ih
        obtain ⟨hfirst, hrest⟩ := List.forall_mem_cons.mp ih
        refine List.forall_mem_cons.mpr ⟨?_, hrest⟩
        rw [List.mem_cons, not_or]
        exact ⟨fun h => hc (beq_iff_eq.mpr h.symm), hfirst⟩

theorem above_splitOn (path : List Char) : above (path.splitOn '/') = path ++ ['/'] := by
  have hpath : ['/'].intercalate (path.splitOn '/') = path := List.intercalate_splitOn '/'
  obtain hnil | ⟨up, name, hsplit⟩ := List.eq_nil_or_concat (path.splitOn '/')
  · exact absurd hnil (List.splitOn_ne_nil '/' path)
  · rw [List.concat_eq_append] at hsplit
    rw [hsplit, intercalate_append_cons] at hpath
    rw [hsplit, ← hpath]
    simp [above, below]

end Splitting

/-! ### Places -/

/-- Where a component leads to from a place. -/
def enter (place : Place) (component : List Char) : Place :=
  if component = ['.', '.'] then place.tail else component :: place

/-- The place that a path leads to from a directory. -/
def locate (start : Place) (path : List Char) : Place :=
  (components path).foldl enter (if isAbsolute path then [] else start)

/-- The place of the file that a path names from a directory. A path that ends in a slash or in dots
names none. -/
def file? (start : Place) (path : List Char) : Option Place :=
  if (path.splitOn '/').getLast?.any isFileName then some (locate start path) else none

theorem components_eq_filter (path : List Char) :
    components path = (path.splitOn '/').filter isProper := rfl

theorem enter_of_isFileName {component : List Char} (h : isFileName component) (place : Place) :
    enter place component = component :: place :=
  if_neg (isFileName_iff.mp h).2.2

theorem locate_congr {path other : List Char} (start : Place)
    (hcomponents : components path = components other)
    (habsolute : isAbsolute path = isAbsolute other) : locate start path = locate start other := by
  rw [locate, locate, hcomponents, habsolute]

section Above

variable {up : List (List Char)} {base : List Char} (hup : ∀ segment ∈ up, '/' ∉ segment)
  (hbase : '/' ∉ base)

include hup hbase in
theorem splitOn_above_append_of_not_mem : (above up ++ base).splitOn '/' = up ++ [base] := by
  rw [splitOn_above_append hup, List.splitOn_eq_singleton hbase]

include hup in
theorem components_above : components (above up) = up.filter isProper := by
  have hsplit : (above up ++ []).splitOn '/' = up ++ [[]] :=
    splitOn_above_append_of_not_mem hup List.not_mem_nil
  rw [List.append_nil] at hsplit
  rw [components_eq_filter, hsplit, List.filter_append]
  exact List.append_nil _

include hup hbase in
theorem components_above_append :
    components (above up ++ base) = components (above up) ++ [base].filter isProper := by
  rw [components_eq_filter, splitOn_above_append_of_not_mem hup hbase, List.filter_append,
    components_above hup]

include hbase in
theorem isAbsolute_above_append : isAbsolute (above up ++ base) = isAbsolute (above up) := by
  cases up with
  | nil =>
    cases base with
    | nil => rfl
    | cons c base =>
      have hc : ¬ c = '/' := fun h => hbase (h ▸ List.mem_cons_self)
      simp [isAbsolute, above, hc]
  | cons segment up => cases segment <;> rfl

include hup hbase in
theorem locate_above_append_of_isFileName (h : isFileName base) (start : Place) :
    locate start (above up ++ base) = base :: locate start (above up) := by
  rw [locate, components_above_append hup hbase, List.filter_cons_of_pos (isProper_of_isFileName h),
    List.filter_nil, List.foldl_append, isAbsolute_above_append hbase]
  exact enter_of_isFileName h _

include hup hbase in
theorem file?_above_append (start : Place) :
    file? start (above up ++ base) = if isFileName base then some (base :: locate start (above up))
      else none := by
  rw [file?, splitOn_above_append_of_not_mem hup hbase, List.getLast?_concat, Option.any_some]
  split
  next h => rw [locate_above_append_of_isFileName hup hbase h]
  next => rfl

end Above

/-! ### File names and stems -/

theorem dropWhile_reverse_append {text : List Char} (h : '.' ∉ text) (rest : List Char) :
    (text.reverse ++ rest).dropWhile (· != '.') = rest.dropWhile (· != '.') := by
  refine List.dropWhile_append_of_pos fun c hc => bne_iff_ne.mpr fun heq => h ?_
  exact heq ▸ List.mem_reverse.mp hc

theorem dotted_append (stem : List Char) {extension : List Char} (h : '.' ∉ extension) :
    ((stem ++ '.' :: extension).reverse.dropWhile (· != '.')).reverse = stem ++ ['.'] := by
  rw [List.reverse_append, List.reverse_cons, List.append_assoc, dropWhile_reverse_append h]
  simp

theorem stemOfName_append {stem extension : List Char} (hstem : stem ≠ [])
    (hextension : '.' ∉ extension) : stemOfName (stem ++ '.' :: extension) = stem := by
  unfold stemOfName
  rw [dotted_append stem hextension]
  split
  next h => simp at h
  next h => cases stem <;> simp_all
  next => exact List.dropLast_concat

theorem stemOfName_dot_cons {extension : List Char} (h : '.' ∉ extension) :
    stemOfName ('.' :: extension) = '.' :: extension := by
  have hdotted := dotted_append [] h
  rw [List.nil_append, List.nil_append] at hdotted
  unfold stemOfName
  rw [hdotted]

theorem stemOfName_of_not_mem {name : List Char} (h : '.' ∉ name) : stemOfName name = name := by
  have hnone := dropWhile_reverse_append h []
  rw [List.append_nil, List.dropWhile_nil] at hnone
  unfold stemOfName
  rw [hnone, List.reverse_nil]

/-- The stem of a name is the name, or what stands before its last dot. -/
theorem stemOfName_cases (name : List Char) :
    stemOfName name = name ∨
      stemOfName name ≠ [] ∧ ∃ extension, '.' ∉ extension ∧
      name = stemOfName name ++ '.' :: extension := by
  by_cases hdot : '.' ∈ name
  · obtain ⟨behind, before, hname, hbehind⟩ :=
      List.eq_append_cons_of_mem (List.mem_reverse.mpr hdot)
    have hextension : '.' ∉ behind.reverse := fun h => hbehind (List.mem_reverse.mp h)
    have hsplit : name = before.reverse ++ '.' :: behind.reverse := by
      rw [← List.reverse_reverse name, hname]
      simp
    by_cases hbefore : before.reverse = []
    · rw [hbefore, List.nil_append] at hsplit
      exact .inl (hsplit ▸ stemOfName_dot_cons hextension)
    · have hstem : stemOfName name = before.reverse := hsplit ▸ stemOfName_append hbefore hextension
      rw [hstem]
      exact .inr ⟨hbefore, behind.reverse, hextension, hsplit⟩
  · exact .inl (stemOfName_of_not_mem hdot)

theorem stemOfName_ne_nil {name : List Char} (h : name ≠ []) : stemOfName name ≠ [] := by
  obtain hstem | ⟨hne, _⟩ := stemOfName_cases name
  · rwa [hstem]
  · exact hne

theorem exists_eq_stemOfName_append (name : List Char) :
    ∃ rest, name = stemOfName name ++ rest := by
  obtain hstem | ⟨_, extension, _, hname⟩ := stemOfName_cases name
  · exact ⟨[], by rw [hstem, List.append_nil]⟩
  · exact ⟨_, hname⟩

theorem isFileName_append {stem extension : List Char} (hstem : stem ≠ [])
    (hdots : stem = ['.'] → extension ≠ []) : isFileName (stem ++ '.' :: extension) := by
  obtain ⟨first, others, rfl⟩ := List.exists_cons_of_ne_nil hstem
  refine isFileName_iff.mpr ⟨by simp, by simp, fun h => ?_⟩
  obtain ⟨rfl, hothers⟩ := List.cons_eq_cons.mp h
  cases others with
  | nil => exact hdots rfl (List.cons_eq_cons.mp hothers).2
  | cons second others => simp at hothers

theorem mem_of_mem_stemOfName {name : List Char} {c : Char} (h : c ∈ stemOfName name) :
    c ∈ name := by
  obtain ⟨rest, hname⟩ := exists_eq_stemOfName_append name
  rw [hname]
  exact List.mem_append_left rest h

/-! ### How a path spells its file name -/

/-- A path that names a file: components above the name, and only slashes and single dots below
it. -/
structure Spelled (path : List Char) (up : List (List Char)) (name : List Char)
    (down : List (List Char)) : Prop where
  path_eq : path = above up ++ (name ++ below down)
  slash_not_mem_up : ∀ segment ∈ up, '/' ∉ segment
  slash_not_mem : '/' ∉ name
  isFileName : isFileName name
  isProper_down : ∀ segment ∈ down, isProper segment = false

theorem slash_not_mem_of_isProper_eq_false {segment : List Char} (h : isProper segment = false) :
    '/' ∉ segment := by
  obtain rfl | rfl := eq_of_isProper_eq_false h <;> decide

namespace Spelled

variable {path : List Char} {up down : List (List Char)} {name : List Char}

theorem splitOn_eq (h : Spelled path up name down) : path.splitOn '/' = up ++ name :: down := by
  rw [h.path_eq, splitOn_above_append h.slash_not_mem_up, splitOn_append_below h.slash_not_mem]
  exact fun segment hsegment => slash_not_mem_of_isProper_eq_false
    (h.isProper_down segment hsegment)

theorem components_eq (h : Spelled path up name down) :
    components path = components (above up ++ name) := by
  have hdown : down.filter isProper = [] :=
    List.filter_eq_nil_iff.mpr fun segment hsegment => by simp [h.isProper_down segment hsegment]
  rw [components_above_append h.slash_not_mem_up h.slash_not_mem,
    components_above h.slash_not_mem_up, components_eq_filter, h.splitOn_eq, List.filter_append,
    List.filter_cons, List.filter_cons, hdown, List.filter_nil]

theorem nameChars?_eq (h : Spelled path up name down) : nameChars? path = some name := by
  rw [nameChars?, h.components_eq, components_above_append h.slash_not_mem_up h.slash_not_mem,
    List.filter_cons_of_pos (isProper_of_isFileName h.isFileName), List.filter_nil,
    List.getLast?_concat]
  simp [Option.filter, (isFileName_iff.mp h.isFileName).2.2]

theorem isAbsolute_eq (h : Spelled path up name down) :
    isAbsolute path = isAbsolute (above up ++ name) := by
  obtain ⟨c, rest, hname⟩ := List.exists_cons_of_ne_nil (isFileName_iff.mp h.isFileName).1
  rw [h.path_eq, hname]
  cases above up <;> rfl

theorem locate_eq (h : Spelled path up name down) (start : Place) :
    locate start path = name :: locate start (above up) := by
  rw [locate_congr start h.components_eq h.isAbsolute_eq]
  exact locate_above_append_of_isFileName h.slash_not_mem_up h.slash_not_mem h.isFileName start

end Spelled

theorem exists_spelled_of_nameChars? {path name : List Char} (h : nameChars? path = some name) :
    ∃ up down, Spelled path up name down := by
  obtain ⟨hlast, hdots⟩ := Option.filter_eq_some_iff.mp h
  obtain ⟨init, hcomponents⟩ := List.getLast?_eq_some_iff.mp hlast
  obtain ⟨before, behind, hsplit, -, hbehind⟩ := List.filter_eq_append_iff.mp hcomponents
  obtain ⟨passed, down, rfl, -, hproper, hdown⟩ := List.filter_eq_cons_iff.mp hbehind
  have hslashes : ∀ segment ∈ path.splitOn '/', '/' ∉ segment := slash_not_mem_of_mem_splitOn
  rw [hsplit, ← List.append_assoc] at hslashes
  have hpath : ['/'].intercalate (path.splitOn '/') = path := List.intercalate_splitOn '/'
  rw [hsplit, ← List.append_assoc, intercalate_append_cons] at hpath
  exact ⟨before ++ passed, down,
    { path_eq := hpath.symm
      slash_not_mem_up := fun segment hsegment => hslashes segment (List.mem_append_left _ hsegment)
      slash_not_mem := hslashes name (List.mem_append_right _ List.mem_cons_self)
      isFileName := Bool.and_eq_true_iff.mpr ⟨hproper, hdots⟩
      isProper_down := fun segment hsegment => Bool.eq_false_iff.mpr
        (List.filter_eq_nil_iff.mp hdown segment hsegment) }⟩

/-! ### Replacing the extension -/

/-- What is left of improper components when characters are taken off are improper components. -/
theorem exists_take_below {down : List (List Char)}
    (hdown : ∀ segment ∈ down, isProper segment = false) (count : Nat) :
    ∃ left, (∀ segment ∈ left, isProper segment = false) ∧
      (below down).take count = below left := by
  induction down generalizing count with
  | nil => exact ⟨[], by simp, by simp [below]⟩
  | cons segment down ih =>
    obtain ⟨hsegment, hrest⟩ := List.forall_mem_cons.mp hdown
    cases count with
    | zero => exact ⟨[], by simp, rfl⟩
    | succ count =>
      rw [below_cons, List.take_succ_cons]
      obtain rfl | rfl := eq_of_isProper_eq_false hsegment
      · obtain ⟨left, hleft, htake⟩ := ih hrest count
        refine ⟨[] :: left, List.forall_mem_cons.mpr ⟨rfl, hleft⟩, ?_⟩
        rw [below_cons, List.nil_append, List.nil_append, htake]
      · cases count with
        | zero => exact ⟨[[]], by decide, rfl⟩
        | succ count =>
          obtain ⟨left, hleft, htake⟩ := ih hrest count
          refine ⟨['.'] :: left, List.forall_mem_cons.mpr ⟨rfl, hleft⟩, ?_⟩
          rw [below_cons, List.cons_append, List.nil_append, List.take_succ_cons, htake,
            List.cons_append, List.nil_append]

theorem trailingLength_below {down : List (List Char)}
    (hdown : ∀ segment ∈ down, isProper segment = false) (rest : List Char) :
    cutAfterStem?.trailingLength ((below down).reverse ++ rest)
      = (below down).length + cutAfterStem?.trailingLength rest := by
  induction down generalizing rest with
  | nil => simp [below]
  | cons segment down ih =>
    obtain ⟨hsegment, hrest⟩ := List.forall_mem_cons.mp hdown
    have hreverse : (below (segment :: down)).reverse ++ rest
        = (below down).reverse ++ (segment.reverse ++ '/' :: rest) := by
      simp [below_cons]
    rw [hreverse, ih hrest, below_cons]
    obtain rfl | rfl := eq_of_isProper_eq_false hsegment
    all_goals simp [cutAfterStem?.trailingLength]; omega

theorem trailingLength_of_isFileName {name : List Char} (hname : isFileName name)
    (hslash : '/' ∉ name) (rest : List Char) :
    cutAfterStem?.trailingLength (name.reverse ++ rest) = 0 := by
  obtain ⟨hempty, hdot, -⟩ := isFileName_iff.mp hname
  rw [← List.mem_reverse] at hslash
  unfold cutAfterStem?.trailingLength
  split
  next hlast =>
    -- The last character of a name is no slash.
    cases hreverse : name.reverse with
    | nil => exact absurd (List.reverse_eq_nil_iff.mp hreverse) hempty
    | cons c others => simp_all
  next hlast =>
    -- A dot at the end of a name has no slash before it, since a dot alone is no name.
    match hreverse : name.reverse with
    | [] => exact absurd (List.reverse_eq_nil_iff.mp hreverse) hempty
    | [c] => simp_all [List.reverse_eq_cons_iff]
    | c :: d :: others => simp_all
  next => rfl

theorem take_stemOfName (front name : List Char) :
    (front ++ name).take ((front ++ name).length - (name.length - (stemOfName name).length))
      = front ++ stemOfName name := by
  obtain ⟨rest, hname⟩ := exists_eq_stemOfName_append name
  generalize stemOfName name = stem at hname
  subst hname
  rw [← List.append_assoc, List.take_left']
  simp only [List.length_append]
  omega

namespace Spelled

variable {path : List Char} {up down : List (List Char)} {name : List Char}

theorem cutAfterStem?_eq (h : Spelled path up name down) :
    cutAfterStem? path = some (above up ++ stemOfName name) := by
  have htrailing : cutAfterStem?.trailingLength path.reverse = (below down).length := by
    rw [h.path_eq, ← List.append_assoc, List.reverse_append, trailingLength_below h.isProper_down,
      List.reverse_append, trailingLength_of_isFileName h.isFileName h.slash_not_mem, Nat.add_zero]
  have hupToName : path.take (path.length - (below down).length) = above up ++ name := by
    rw [h.path_eq, ← List.append_assoc, List.length_append, Nat.add_sub_cancel, List.take_left]
  simp only [cutAfterStem?, h.nameChars?_eq, htrailing, hupToName, Option.bind_eq_bind,
    Option.bind_some]
  exact congrArg some (take_stemOfName (above up) name)

theorem withoutExtensionChars_eq (h : Spelled path up name down) {extension : List Char}
    (hname : name = stemOfName name ++ '.' :: extension) :
    withoutExtensionChars path
      = above up ++ (stemOfName name
        ++ '.' :: (extension ++ below down).take (below down).length) := by
  have hbare : withoutExtensionChars path
      = path.take (path.length - (name.length - (stemOfName name).length - 1)) := by
    rw [withoutExtensionChars, h.nameChars?_eq]
  rw [hbare]
  generalize stemOfName name = stem at hname
  subst hname
  have hpath : path = (above up ++ (stem ++ ['.'])) ++ (extension ++ below down) := by
    rw [h.path_eq]
    simp
  have hcount : path.length - ((stem ++ '.' :: extension).length - stem.length - 1)
      = (above up ++ (stem ++ ['.'])).length + (below down).length := by
    rw [hpath]
    simp only [List.length_append, List.length_cons]
    omega
  rw [hcount, hpath, List.take_length_add_append]
  simp

/-- Without its extension a path still names a file with the same stem, except for a name such as
`..x` at its end. -/
theorem exists_withoutExtensionChars (h : Spelled path up name down)
    (hdots : stemOfName name = ['.'] → down ≠ []) :
    ∃ left rest, Spelled (withoutExtensionChars path) up left rest ∧
      stemOfName left = stemOfName name := by
  obtain hstem | ⟨hne, extension, hextension, hname⟩ := stemOfName_cases name
  · exact ⟨name, down, by simpa [withoutExtensionChars, h.nameChars?_eq, hstem] using h, rfl⟩
  · obtain ⟨rest, hrest, htake⟩ :=
      exists_take_below h.isProper_down ((below down).length - extension.length)
    have hleft : '.' ∉ extension.take (below down).length :=
      fun hmem => hextension (List.mem_of_mem_take hmem)
    have hslash := h.slash_not_mem
    rw [hname, List.mem_append, List.mem_cons, not_or, not_or] at hslash
    refine ⟨stemOfName name ++ '.' :: extension.take (below down).length, rest,
      ⟨?_, h.slash_not_mem_up, ?_, ?_, hrest⟩, stemOfName_append hne hleft⟩
    · rw [h.withoutExtensionChars_eq hname, List.take_append, htake]
      simp
    · rw [List.mem_append, List.mem_cons, not_or, not_or]
      exact ⟨hslash.1, hslash.2.1, fun hmem => hslash.2.2 (List.mem_of_mem_take hmem)⟩
    · refine isFileName_append hne fun hstem htaken => ?_
      -- At least one character of the extension is left, as at least one stands below the name.
      obtain hlength | rfl := List.take_eq_nil_iff.mp htaken
      · exact hdots hstem (below_eq_nil_iff.mp (List.length_eq_zero_iff.mp hlength))
      · rw [hstem] at hname
        exact (isFileName_iff.mp h.isFileName).2.2 hname

theorem withoutExtensionChars_of_dots (h : Spelled path up name [])
    (hdots : stemOfName name = ['.']) : withoutExtensionChars path = above up ++ ['.', '.'] := by
  obtain hstem | ⟨-, extension, -, hname⟩ := stemOfName_cases name
  · exact absurd (hstem.symm.trans hdots) (isFileName_iff.mp h.isFileName).2.1
  · rw [h.withoutExtensionChars_eq hname, hdots]
    simp [below]

theorem withExtensionChars_eq (h : Spelled path up name down)
    (hdots : stemOfName name = ['.'] → down ≠ []) {extension : List Char}
    (hextension : extension ≠ []) :
    withExtensionChars path extension = above up ++ (stemOfName name ++ '.' :: extension) := by
  obtain ⟨left, rest, hbare, hstem⟩ := h.exists_withoutExtensionChars hdots
  simp [withExtensionChars, hbare.cutAfterStem?_eq, hstem, hextension]

theorem file?_eq (h : Spelled path up name down) (start : Place) :
    file? start path = if down = [] then some (locate start path) else none := by
  rw [file?, h.splitOn_eq]
  obtain rfl | ⟨init, last, hdown⟩ := List.eq_nil_or_concat down
  · simp [h.isFileName]
  · rw [List.concat_eq_append] at hdown
    have hlast : Path.isFileName last = false := by
      simp [Path.isFileName,
        h.isProper_down last (hdown ▸ List.mem_append_right _ List.mem_cons_self)]
    have hend : (up ++ name :: (init ++ [last])).getLast? = some last := by
      rw [← List.cons_append, ← List.append_assoc, List.getLast?_concat]
    simp [hdown, hend, hlast]

end Spelled

theorem withExtensionChars_of_nameless {path : List Char} (h : nameChars? path = none)
    (extension : List Char) : withExtensionChars path extension = path := by
  simp [withExtensionChars, withoutExtensionChars, cutAfterStem?, h]

theorem nameChars?_above_append {up : List (List Char)} {base : List Char}
    (hup : ∀ segment ∈ up, '/' ∉ segment) (hbase : '/' ∉ base) (hproper : isProper base) :
    nameChars? (above up ++ base) = if isFileName base then some base else none := by
  rw [nameChars?, components_above_append hup hbase, List.filter_cons_of_pos hproper,
    List.filter_nil, List.getLast?_concat]
  simp [Option.filter, isFileName, hproper]

theorem Spelled.withExtensionChars_of_dots {path : List Char} {up : List (List Char)}
    {name : List Char} (h : Spelled path up name []) (hdots : stemOfName name = ['.'])
    (extension : List Char) : withExtensionChars path extension = above up ++ ['.', '.'] := by
  have hnameless : nameChars? (above up ++ ['.', '.']) = none :=
    nameChars?_above_append h.slash_not_mem_up (by decide) rfl
  rw [withExtensionChars, h.withoutExtensionChars_of_dots hdots]
  simp [cutAfterStem?, hnameless]

/-! ### The files of paths -/

theorem eq_locate_of_file? {start place : Place} {path : List Char}
    (h : file? start path = some place) : place = locate start path := by
  rw [file?] at h
  split at h
  · exact (Option.some.inj h).symm
  · simp at h

theorem locate_of_nameChars? {path name : List Char} (h : nameChars? path = some name)
    (start : Place) : locate start path = name :: (locate start path).tail := by
  obtain ⟨up, down, hspelled⟩ := exists_spelled_of_nameChars? h
  rw [hspelled.locate_eq, List.tail_cons]

/-- The file with another extension has the stem of the name, and stands in the same directory. A
name such as `..x` at the end of a path has no other extension. -/
theorem file?_withExtensionChars {path name extension : List Char} (h : nameChars? path = some name)
    (hextension : extension ≠ []) (hslash : '/' ∉ extension) (start : Place) :
    file? start (withExtensionChars path extension)
      = if stemOfName name = ['.'] ∧ (file? start path).isSome then none
        else some ((stemOfName name ++ '.' :: extension) :: (locate start path).tail) := by
  obtain ⟨up, down, hspelled⟩ := exists_spelled_of_nameChars? h
  have hsome : (file? start path).isSome ↔ down = [] := by
    rw [hspelled.file?_eq]
    split <;> simp_all
  split
  next hdots =>
    obtain ⟨hstem, hfile⟩ := hdots
    obtain rfl := hsome.mp hfile
    rw [hspelled.withExtensionChars_of_dots hstem,
      file?_above_append hspelled.slash_not_mem_up (by decide)]
    rfl
  next hdots =>
    rw [not_and, hsome] at hdots
    have hname := (isFileName_iff.mp hspelled.isFileName).1
    have hbase : '/' ∉ stemOfName name ++ '.' :: extension := by
      rw [List.mem_append, List.mem_cons, not_or, not_or]
      exact ⟨fun hmem => hspelled.slash_not_mem (mem_of_mem_stemOfName hmem), by decide, hslash⟩
    rw [hspelled.withExtensionChars_eq hdots hextension,
      file?_above_append hspelled.slash_not_mem_up hbase,
      if_pos (isFileName_append (stemOfName_ne_nil hname) fun _ => hextension), hspelled.locate_eq,
      List.tail_cons]

theorem exists_joinChars_eq (directory : List Char) {base : List Char} (hbase : '/' ∉ base) :
    ∃ up, (∀ segment ∈ up, '/' ∉ segment) ∧ joinChars directory base = above up ++ base ∧
      components (above up) = components directory ∧
      isAbsolute (above up) = isAbsolute directory := by
  have hrelative : isAbsolute base = false := by
    cases base with
    | nil => rfl
    | cons c base =>
      have hc : ¬ c = '/' := fun h => hbase (h ▸ List.mem_cons_self)
      simp [isAbsolute, hc]
  rw [joinChars, hrelative, Bool.false_or]
  split
  next hempty =>
    rw [List.isEmpty_iff] at hempty
    subst hempty
    exact ⟨[], by simp, rfl, rfl, rfl⟩
  next hne =>
    split
    next hlast =>
      obtain ⟨front, rfl⟩ := List.getLast?_eq_some_iff.mp (beq_iff_eq.mp hlast)
      refine ⟨front.splitOn '/', slash_not_mem_of_mem_splitOn, ?_, ?_, ?_⟩ <;> rw [above_splitOn]
    next hlast =>
      refine ⟨directory.splitOn '/', slash_not_mem_of_mem_splitOn, by simp [above_splitOn],
        components_above slash_not_mem_of_mem_splitOn, ?_⟩
      rw [above_splitOn]
      cases directory with
      | nil => simp at hne
      | cons c directory => rfl

/-- The file for a program in a directory, by the stem of its listing. What looks like an extension
of the stem is taken off once more; a stem of one dot gives a file beside the directory. -/
def programIn? (start : Place) (directory stem extension : List Char) : Option Place :=
  if stem = ['.'] then
    (nameChars? directory).map fun name => (stemOfName name ++ '.' :: extension) ::
      (locate start directory).tail
  else if stemOfName stem = ['.'] then none
  else some ((stemOfName stem ++ '.' :: extension) :: locate start directory)

theorem file?_withExtensionChars_joinChars (directory : List Char) {stem extension : List Char}
    (hstem : stem ≠ []) (hslash : '/' ∉ stem) (hextension : extension ≠ [])
    (hslash' : '/' ∉ extension) (start : Place) :
    file? start (withExtensionChars (joinChars directory stem) extension)
      = programIn? start directory stem extension := by
  obtain ⟨up, hup, hjoin, hcomponents, habsolute⟩ := exists_joinChars_eq directory hslash
  have hdirectory : locate start (above up) = locate start directory :=
    locate_congr start hcomponents habsolute
  rw [hjoin, programIn?]
  split
  next hdot =>
    subst hdot
    -- The dot leads nowhere, so that the name at the end is that of the directory.
    have hsame : components (above up ++ ['.']) = components directory := by
      rw [components_above_append hup hslash, hcomponents]
      exact List.append_nil _
    have hlocate : locate start (above up ++ ['.']) = locate start directory :=
      locate_congr start hsame ((isAbsolute_above_append hslash).trans habsolute)
    have hnone : file? start (above up ++ ['.']) = none := file?_above_append hup hslash start
    have hname : nameChars? (above up ++ ['.']) = nameChars? directory := by
      rw [nameChars?, hsame, nameChars?]
    cases hdirectoryName : nameChars? directory with
    | none =>
      rw [withExtensionChars_of_nameless (hname.trans hdirectoryName), hnone, Option.map_none]
    | some name =>
      rw [file?_withExtensionChars (hname.trans hdirectoryName) hextension hslash', hnone, hlocate]
      simp
  next hdot =>
    have hproper : isProper stem := by simp [isProper, hstem, hdot]
    have hname := nameChars?_above_append hup hslash hproper
    have hfile := file?_above_append hup hslash start
    by_cases hfileName : isFileName stem
    · rw [if_pos hfileName] at hname hfile
      rw [file?_withExtensionChars hname hextension hslash', hfile,
        eq_locate_of_file? hfile |>.symm, hdirectory]
      simp
    · rw [if_neg hfileName] at hname hfile
      have hdots : stem = ['.', '.'] := by simpa [isFileName, hproper] using hfileName
      rw [withExtensionChars_of_nameless hname, hfile, hdots]
      rfl

/-! ### Files in a tree -/

theorem foldl_enter_of_follow? (tree : FileTree) {place target : Place} {names : List (List Char)}
    (h : tree.follow? place names = some target) : names.foldl enter place = target := by
  fun_induction FileTree.follow? tree place names with
  | case1 place => simpa using h
  | case2 rest => simp at h
  | case3 rest head parent ih => exact ih h
  | case4 place component rest hdots hdirectory ih =>
    rw [List.foldl_cons, enter, if_neg (by simpa using hdots)]
    exact ih h
  | case5 place component rest hdots hdirectory => simp at h

theorem file?_of_filePlace? (tree : FileTree) {path : String} {place : Place}
    (h : tree.filePlace? path = some place) : file? [] path.toList = some place := by
  simp only [FileTree.filePlace?, Option.bind_eq_bind, Option.bind_eq_some_iff,
    Option.guard_eq_some', Option.pure_def, Option.some.injEq] at h
  obtain ⟨_, hrelative, name, hlast, _, hfileName, parent, hparent, rfl⟩ := h
  replace hfileName : isFileName name := hfileName
  obtain ⟨init, hsplit⟩ := List.getLast?_eq_some_iff.mp hlast
  have hcomponents : components path.toList = init.filter isProper ++ [name] := by
    rw [components_eq_filter, hsplit, List.filter_append,
      List.filter_cons_of_pos (isProper_of_isFileName hfileName), List.filter_nil]
  rw [hcomponents, List.dropLast_concat] at hparent
  rw [Bool.not_eq_true'] at hrelative
  simp only [file?, hlast, Option.any_some, hfileName, if_true, locate, hrelative, hcomponents,
    List.foldl_append, foldl_enter_of_follow? tree hparent, List.foldl_cons, List.foldl_nil,
    enter_of_isFileName hfileName, Bool.false_eq_true, if_false]

end Lift6502.Path
