import Lift6502.Command.Arguments
import Lift6502.Proofs.Files.Paths
import Mathlib.Data.List.Basic
import Mathlib.Data.List.Pairwise

/-!
# Where the programs of several listings go

Listings with different stems have programs with different names next to them, but a listing that
already has the extension of a program is written over by its own program. In a given directory the
program of a listing is named by the stem, and what looks like an extension of the stem is replaced
once more: there two programs can have one name, although the stems are different. The main
statement says exactly when no program is written over another one or over a listing.
-/

namespace Lift6502

open FileTree (Place)

namespace Settings

/-- The stems of the inputs. -/
def stems (settings : Settings) : List String := settings.inputs.filterMap Path.stem?

/-- The file of an input's program, given how paths lead to files. -/
def programFile? (settings : Settings) (find? : String → Option Place) (input : String) :
    Option Place :=
  (settings.destination? input).bind find?

/-- The files of the programs. -/
def programs (settings : Settings) (find? : String → Option Place) : List Place :=
  settings.inputs.filterMap (settings.programFile? find?)

/-- No two programs are written to one file, and none to the file of an input. -/
structure WritesApart (settings : Settings) (find? : String → Option Place) : Prop where
  nodup : (settings.programs find?).Nodup
  not_mem : ∀ input ∈ settings.inputs, ∀ place, find? input = some place →
    place ∉ settings.programs find?

/-- What keeps programs apart. Next to the inputs: no input has the extension of a program, unless
it is a name such as `..c` with no stem but a dot. In a directory: no two stems become one name when
their own extensions are replaced, and no input is the file of a program. -/
def KeepsClear (settings : Settings) (start : Place) : Prop :=
  let extension := settings.target.extension.toList
  match settings.output with
  | none =>
    ∀ input ∈ settings.inputs, ∀ stem parent,
      Path.file? start input.toList = some ((stem ++ '.' :: extension) :: parent) →
      stem = [] ∨ stem = ['.']
  | some directory =>
    settings.stems.Pairwise (fun stem other =>
      Path.stemOfName stem.toList = Path.stemOfName other.toList →
        Path.stemOfName stem.toList = ['.']) ∧
    ∀ input ∈ settings.inputs, ∀ place, Path.file? start input.toList = some place →
      ∀ stem ∈ settings.stems,
        Path.programIn? start directory.toList stem.toList extension ≠ some place

end Settings

/-! ### Files in a directory -/

namespace Path

variable {start place : Place} {directory stem other extension : List Char}

theorem programIn?_of_stemOfName_ne (h : stemOfName stem ≠ ['.']) (start : Place)
    (directory extension : List Char) :
    programIn? start directory stem extension
      = some ((stemOfName stem ++ '.' :: extension) :: locate start directory) := by
  have hstem : stem ≠ ['.'] := by
    rintro rfl
    exact h rfl
  rw [programIn?, if_neg hstem, if_neg h]

theorem cases_of_programIn? (h : programIn? start directory stem extension = some place) :
    (stem = ['.'] ∧ place.length = (locate start directory).length) ∨
      (stemOfName stem ≠ ['.'] ∧
        place = (stemOfName stem ++ '.' :: extension) :: locate start directory) := by
  rw [programIn?] at h
  split at h
  next hdot =>
    obtain ⟨name, hname, rfl⟩ := Option.map_eq_some_iff.mp h
    rw [locate_of_nameChars? hname start]
    exact .inl ⟨hdot, rfl⟩
  next =>
    split at h
    next => simp at h
    next hne => exact .inr ⟨hne, (Option.some.inj h).symm⟩

/-- Two stems have different files in a directory, unless they are the same without their own
extensions. -/
theorem programIn?_apart_iff (hne : stem ≠ other) (start : Place)
    (directory extension : List Char) :
    (∀ place, programIn? start directory stem extension = some place →
      programIn? start directory other extension ≠ some place)
      ↔ (stemOfName stem = stemOfName other → stemOfName stem = ['.']) := by
  constructor
  · intro hapart hsame
    by_contra hdot
    refine hapart _ (programIn?_of_stemOfName_ne hdot start directory extension) ?_
    rw [programIn?_of_stemOfName_ne (hsame ▸ hdot), hsame]
  · intro hsame place hstem hother
    obtain ⟨rfl, hlength⟩ | ⟨hdot, rfl⟩ := cases_of_programIn? hstem
    all_goals obtain ⟨rfl, hlength'⟩ | ⟨hdot', hplace⟩ := cases_of_programIn? hother
    · exact hne rfl
    · simp [hplace] at hlength
    · simp at hlength'
    · rw [List.cons.injEq, List.append_left_inj] at hplace
      exact hdot (hsame hplace.1)

end Path

/-! ### Programs of several inputs -/

namespace Settings

variable {settings : Settings}

theorem extension_ne_nil (target : Target) : target.extension.toList ≠ [] := by
  cases target <;> decide

theorem slash_not_mem_extension (target : Target) : '/' ∉ target.extension.toList := by
  cases target <;> decide

theorem dot_not_mem_extension (target : Target) : '.' ∉ target.extension.toList := by
  cases target <;> decide

theorem WritesApart.mono {find? other? : String → Option Place}
    (hmono : ∀ path place, other? path = some place → find? path = some place)
    (h : settings.WritesApart find?) : settings.WritesApart other? := by
  have hprogram {input : String} {place : Place}
      (hplace : settings.programFile? other? input = some place) :
      settings.programFile? find? input = some place := by
    obtain ⟨path, hpath, hplace⟩ := Option.bind_eq_some_iff.mp hplace
    exact Option.bind_eq_some_iff.mpr ⟨path, hpath, hmono path place hplace⟩
  constructor
  · refine List.pairwise_filterMap.mpr
      ((List.pairwise_filterMap.mp h.nodup).imp fun hne place hplace place' hplace' => ?_)
    exact hne place (hprogram hplace) place' (hprogram hplace')
  · intro input hinput place hplace hmem
    obtain ⟨other, hother, hwritten⟩ := List.mem_filterMap.mp hmem
    exact h.not_mem input hinput place (hmono input place hplace)
      (List.mem_filterMap.mpr ⟨other, hother, hprogram hwritten⟩)

section Several

variable (hseveral : 2 ≤ settings.inputs.length)

include hseveral

theorem hasOneInput_eq_false : settings.hasOneInput = false := by
  rw [hasOneInput, beq_eq_false_iff_ne]
  omega

theorem isSome_destination? (input : String) : (settings.destination? input).isSome := by
  rw [destination?, hasOneInput_eq_false hseveral]
  cases settings.output <;> rfl

theorem programFile?_of_directory {directory input stem : String}
    (houtput : settings.output = some directory) (hstem : Path.stem? input = some stem)
    (start : Place) :
    settings.programFile? (Path.file? start ·.toList) input
      = Path.programIn? start directory.toList stem.toList settings.target.extension.toList := by
  obtain ⟨name, hname, rfl⟩ := Option.map_eq_some_iff.mp hstem
  obtain ⟨up, down, hspelled⟩ := Path.exists_spelled_of_nameChars? hname
  have hne := Path.stemOfName_ne_nil (Path.isFileName_iff.mp hspelled.isFileName).1
  have hslash : '/' ∉ Path.stemOfName name :=
    fun hmem => hspelled.slash_not_mem (Path.mem_of_mem_stemOfName hmem)
  rw [programFile?, destination?, hasOneInput_eq_false hseveral, houtput, hstem,
    String.toList_ofList, ← Path.file?_withExtensionChars_joinChars _ hne hslash
      (extension_ne_nil _) (slash_not_mem_extension _)]
  simp [Path.withExtension, Path.join]

theorem programFile?_of_none {input : String} {name : List Char} (houtput : settings.output = none)
    (hname : Path.nameChars? input.toList = some name) (start : Place) :
    settings.programFile? (Path.file? start ·.toList) input
      = if Path.stemOfName name = ['.'] ∧ (Path.file? start input.toList).isSome then none
        else some ((Path.stemOfName name ++ '.' :: settings.target.extension.toList) ::
          (Path.locate start input.toList).tail) := by
  rw [programFile?, destination?, hasOneInput_eq_false hseveral, houtput,
    ← Path.file?_withExtensionChars hname (extension_ne_nil _) (slash_not_mem_extension _)]
  simp [Path.withExtension]

variable (hnamed : ∀ input ∈ settings.inputs, (Path.stem? input).isSome)

include hnamed

theorem programs_eq_of_directory {directory : String} (houtput : settings.output = some directory)
    (start : Place) :
    settings.programs (Path.file? start ·.toList)
      = settings.stems.filterMap fun stem =>
        Path.programIn? start directory.toList stem.toList settings.target.extension.toList := by
  rw [programs, stems, List.filterMap_filterMap]
  refine List.filterMap_congr fun input hinput => ?_
  obtain ⟨stem, hstem⟩ := Option.isSome_iff_exists.mp (hnamed input hinput)
  rw [programFile?_of_directory hseveral houtput hstem, hstem, Option.bind_some]

/-- A program next to its input has the stem of the input. -/
theorem cases_of_programFile? {input : String} {place : Place} (hinput : input ∈ settings.inputs)
    (houtput : settings.output = none) {start : Place}
    (h : settings.programFile? (Path.file? start ·.toList) input = some place) :
    ∃ stem parent, place = (stem ++ '.' :: settings.target.extension.toList) :: parent ∧
      Path.stem? input = some (String.ofList stem) ∧ stem ≠ [] ∧
      (stem = ['.'] → Path.file? start input.toList = none) := by
  obtain ⟨_, hstem⟩ := Option.isSome_iff_exists.mp (hnamed input hinput)
  obtain ⟨name, hname, rfl⟩ := Option.map_eq_some_iff.mp hstem
  obtain ⟨up, down, hspelled⟩ := Path.exists_spelled_of_nameChars? hname
  rw [programFile?_of_none hseveral houtput hname, Option.ite_none_left_eq_some, not_and,
    Option.not_isSome_iff_eq_none] at h
  obtain ⟨hdot, hplace⟩ := h
  exact ⟨Path.stemOfName name, _, (Option.some.inj hplace).symm, hstem,
    Path.stemOfName_ne_nil (Path.isFileName_iff.mp hspelled.isFileName).1, hdot⟩

omit hseveral in
theorem name_of_file? {input : String} (hinput : input ∈ settings.inputs) {start parent : Place}
    {name : List Char} (h : Path.file? start input.toList = some (name :: parent)) :
    Path.nameChars? input.toList = some name ∧ parent = (Path.locate start input.toList).tail := by
  obtain ⟨_, hstem⟩ := Option.isSome_iff_exists.mp (hnamed input hinput)
  obtain ⟨other, hother, rfl⟩ := Option.map_eq_some_iff.mp hstem
  have hplace := (Path.eq_locate_of_file? h).trans (Path.locate_of_nameChars? hother start)
  rw [List.cons.injEq] at hplace
  exact ⟨hplace.1 ▸ hother, hplace.2⟩

variable (hdistinct : settings.stems.Nodup)

include hdistinct

theorem writesApart_iff_of_directory {directory : String}
    (houtput : settings.output = some directory) (start : Place) :
    settings.WritesApart (Path.file? start ·.toList) ↔ settings.KeepsClear start := by
  have hprograms := programs_eq_of_directory hseveral hnamed houtput start
  have hpair {stem other : String} (hne : stem ≠ other) :=
    Path.programIn?_apart_iff (String.toList_inj.not.mpr hne) start directory.toList
      settings.target.extension.toList
  simp only [KeepsClear, houtput]
  constructor
  · rintro ⟨hnodup, hnotMem⟩
    rw [hprograms] at hnodup hnotMem
    refine ⟨(hdistinct.and (List.pairwise_filterMap.mp hnodup)).imp fun h => (hpair h.1).mp ?_, ?_⟩
    · intro place hplace hplace'
      exact h.2 place hplace place hplace' rfl
    · intro input hinput place hplace stem hstem hwritten
      exact hnotMem input hinput place hplace (List.mem_filterMap.mpr ⟨stem, hstem, hwritten⟩)
  · rintro ⟨hstems, hinputs⟩
    constructor <;> rw [hprograms]
    · refine List.pairwise_filterMap.mpr
        ((hdistinct.and hstems).imp fun h place hplace place' hplace' heq => ?_)
      exact (hpair h.1).mpr h.2 place hplace (heq ▸ hplace')
    · intro input hinput place hplace hmem
      obtain ⟨stem, hstem, hwritten⟩ := List.mem_filterMap.mp hmem
      exact hinputs input hinput place hplace stem hstem hwritten

omit hseveral hnamed in
theorem eq_of_stem?_eq {input other stem : String} (hinput : input ∈ settings.inputs)
    (hother : other ∈ settings.inputs) (hstem : Path.stem? input = some stem)
    (hstem' : Path.stem? other = some stem) : input = other := by
  by_contra hne
  have hpairs := List.pairwise_filterMap.mp hdistinct
  have hsymm : Std.Symm fun input other : String =>
      ∀ stem, Path.stem? input = some stem → ∀ stem', Path.stem? other = some stem' →
        stem ≠ stem' :=
    ⟨fun _ _ h stem hstem stem' hstem' => (h stem' hstem' stem hstem).symm⟩
  exact hpairs.forall hinput hother hne stem hstem stem hstem' rfl

theorem writesApart_iff_of_none (houtput : settings.output = none) (start : Place) :
    settings.WritesApart (Path.file? start ·.toList) ↔ settings.KeepsClear start := by
  simp only [KeepsClear, houtput]
  have hdot := dot_not_mem_extension settings.target
  constructor
  · rintro ⟨-, hnotMem⟩ input hinput stem parent hfile
    by_contra h
    rw [not_or] at h
    -- The program has the name and the directory of the input itself.
    obtain ⟨hname, rfl⟩ := name_of_file? hnamed hinput hfile
    refine hnotMem input hinput _ hfile (List.mem_filterMap.mpr ⟨input, hinput, ?_⟩)
    rw [programFile?_of_none hseveral houtput hname, Path.stemOfName_append h.1 hdot,
      if_neg fun hdots => h.2 hdots.1]
  · intro hclear
    constructor
    · have hpairs := List.pairwise_filterMap.mp hdistinct
      refine List.pairwise_filterMap.mpr
        (hpairs.imp_of_mem fun hinput hother hne place hplace place' hplace' heq => ?_)
      obtain ⟨stem, parent, rfl, hstem, -⟩ :=
        cases_of_programFile? hseveral hnamed hinput houtput hplace
      obtain ⟨stem', parent', rfl, hstem', -⟩ :=
        cases_of_programFile? hseveral hnamed hother houtput hplace'
      rw [List.cons.injEq, List.append_left_inj] at heq
      exact hne _ hstem _ hstem' (congrArg String.ofList heq.1)
    · intro input hinput place hfile hmem
      obtain ⟨other, hother, hwritten⟩ := List.mem_filterMap.mp hmem
      obtain ⟨stem, parent, rfl, hstem, hne, hnone⟩ :=
        cases_of_programFile? hseveral hnamed hother houtput hwritten
      have hsingle := (hclear input hinput stem parent hfile).resolve_left hne
      -- Both have a dot for their stem, so they are one input, which has no program.
      obtain ⟨hname, -⟩ := name_of_file? hnamed hinput hfile
      have hstem' : Path.stem? input = some (String.ofList stem) := by
        rw [Path.stem?, hname, Option.map_some, Path.stemOfName_append hne hdot]
      obtain rfl := eq_of_stem?_eq hdistinct hinput hother hstem' hstem
      rw [hnone hsingle] at hfile
      cases hfile

end Several

/-- Programs of several inputs with different stems are written to different files, and to no input,
exactly if the settings keep them clear of each other. -/
theorem programs_written_apart_iff (settings : Settings) (hseveral : 2 ≤ settings.inputs.length)
    (hnamed : ∀ input ∈ settings.inputs, (Path.stem? input).isSome)
    (hdistinct : settings.stems.Nodup) :
    (∀ input ∈ settings.inputs, (settings.destination? input).isSome) ∧
      (∀ start, settings.WritesApart (Path.file? start ·.toList) ↔ settings.KeepsClear start) ∧
      (settings.KeepsClear [] → ∀ tree : FileTree, settings.WritesApart tree.filePlace?) := by
  have hiff (start : Place) : settings.WritesApart (Path.file? start ·.toList) ↔
      settings.KeepsClear start := by
    cases houtput : settings.output with
    | none => exact writesApart_iff_of_none hseveral hnamed hdistinct houtput start
    | some directory => exact writesApart_iff_of_directory hseveral hnamed hdistinct houtput start
  refine ⟨fun input _ => isSome_destination? hseveral input, hiff, fun hclear tree => ?_⟩
  exact WritesApart.mono (fun path place => Path.file?_of_filePlace? tree) ((hiff []).mpr hclear)

/-- Two listings with programs in a directory, one of them with a dot in its stem. -/
def inDirectory : Settings := { inputs := ["src/a.asm", "lib/b.x.asm"], output := some "out" }

theorem inDirectory_written_apart :
    Request.ofArguments ["-o", "out", "src/a.asm", "lib/b.x.asm"] = .run inDirectory ∧
      inDirectory.stems = ["a", "b.x"] ∧
      inDirectory.inputs.map inDirectory.destination? = [some "out/a.bas", some "out/b.bas"] ∧
      ∀ tree : FileTree, inDirectory.WritesApart tree.filePlace? := by
  refine ⟨by rfl, by decide +kernel, by decide +kernel, ?_⟩
  refine (programs_written_apart_iff inDirectory (by decide) (by decide +kernel)
    (by decide +kernel)).2.2 ⟨by decide +kernel, ?_⟩
  have hfiles : ∀ input ∈ inDirectory.inputs, ∀ stem ∈ inDirectory.stems,
      Path.file? [] input.toList ≠ Path.programIn? [] "out".toList stem.toList "bas".toList := by
    decide +kernel
  intro input hinput place hfile stem hstem hprogram
  exact hfiles input hinput stem hstem (hfile.trans hprogram.symm)

/-- Listings whose stems are the same but for what looks like an extension. -/
def dottedStems : Settings := { inputs := ["a.x.asm", "a.y.asm"], output := some "out" }

/-- A listing that has the extension of a program, next to another one. -/
def namedAsProgram : Settings := { inputs := ["a.bas", "b.asm"] }

theorem dottedStems_written_over :
    (Request.ofArguments ["-o", "out", "a.x.asm", "a.y.asm"] = .run dottedStems ∧
      dottedStems.stems = ["a.x", "a.y"] ∧
      dottedStems.inputs.map dottedStems.destination? = [some "out/a.bas", some "out/a.bas"] ∧
      ¬ dottedStems.WritesApart (Path.file? [] ·.toList)) ∧
    (Request.ofArguments ["a.bas", "b.asm"] = .run namedAsProgram ∧
      namedAsProgram.stems = ["a", "b"] ∧
      namedAsProgram.inputs.map namedAsProgram.destination? = [some "a.bas", some "b.bas"] ∧
      ¬ namedAsProgram.WritesApart (Path.file? [] ·.toList)) := by
  refine ⟨⟨by rfl, by decide +kernel, by decide +kernel,
    fun h => ?_⟩, by rfl, by decide +kernel, by decide +kernel, fun h => ?_⟩
  · exact absurd h.nodup (by decide +kernel)
  · exact absurd (h.not_mem "a.bas" (by decide +kernel) [['a', '.', 'b', 'a', 's']]
      (by decide +kernel)) (by decide +kernel)

end Settings

end Lift6502
