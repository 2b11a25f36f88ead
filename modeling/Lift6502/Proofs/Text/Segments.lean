import Lift6502.Text.Lines
import Mathlib.Data.List.Basic

/-!
# Taking lines out of a text

A text is cut into segments, which are its lines with their endings. Every segment but the last ends
with a line feed, and a text from which segments are taken out is still cut in this way, so that its
lines are those of the segments left in it.
-/

namespace Lift6502.Text

/-- The lines of a text, each with its ending. -/
def segments : List Char → List (List Char)
  | [] => []
  | c :: rest =>
    if c = '\n' then [c] :: segments rest
    else match segments rest with
      | [] => [[c]]
      | segment :: others => (c :: segment) :: others

/-- A line without its ending. -/
def chomp (segment : List Char) : List Char :=
  if segment.getLast? = some '\n' then stripReturn segment.dropLast else segment

/-- Whether lines end with a line feed that is in none of them; the last one may lack it, if it is
not empty. -/
inductive Segmented : List (List Char) → Prop where
  | nil : Segmented []
  | last {segment : List Char} (hne : segment ≠ []) (hplain : '\n' ∉ segment) : Segmented [segment]
  | ended {line : List Char} {rest : List (List Char)} (hplain : '\n' ∉ line)
      (hrest : Segmented rest) :
    Segmented ((line ++ ['\n']) :: rest)

theorem segmented_segments (text : List Char) : Segmented (segments text) := by
  induction text with
  | nil => exact .nil
  | cons c rest ih =>
    rw [segments]
    split
    · rename_i hfeed
      rw [hfeed]
      exact .ended List.not_mem_nil ih
    · rename_i hother
      have hplain : '\n' ∉ [c] := by
        intro hmem
        exact hother (List.mem_singleton.mp hmem).symm
      split
      · exact .last (List.cons_ne_nil c []) hplain
      · rename_i segment others hsegments
        rw [hsegments] at ih
        cases ih with
        | last hne hsegment =>
          have hlonger : '\n' ∉ c :: segment := by simp_all
          exact .last (List.cons_ne_nil c segment) hlonger
        | @ended line _ hline hothers =>
          have hlonger : '\n' ∉ c :: line := by simp_all
          exact .ended hlonger hothers

theorem flatten_segments (text : List Char) : (segments text).flatten = text := by
  induction text with
  | nil => rfl
  | cons c rest ih =>
    rw [segments]
    split
    · rw [List.flatten_cons, ih]
      rfl
    · split
      · rename_i hnone
        rw [hnone] at ih
        rw [← ih]
        rfl
      · rename_i segment others hsegments
        rw [hsegments] at ih
        rw [← ih]
        rfl

theorem Segmented.sublist {texts kept : List (List Char)} (h : Segmented texts)
    (hkept : kept.Sublist texts) : Segmented kept := by
  induction h generalizing kept with
  | nil =>
    rw [List.sublist_nil.mp hkept]
    exact .nil
  | last hne hplain =>
    rcases List.sublist_singleton.mp hkept with rfl | rfl
    · exact .nil
    · exact .last hne hplain
  | ended hplain hrest ih =>
    rcases List.sublist_cons_iff.mp hkept with hdropped | ⟨others, rfl, hothers⟩
    · exact ih hdropped
    · exact .ended hplain (ih hothers)

theorem lines_of_plain {text : List Char} (hne : text ≠ []) (hplain : '\n' ∉ text) :
    lines text = [text] := by
  obtain ⟨c, rest, rfl⟩ := List.exists_cons_of_ne_nil hne
  have hsplit : (['\n'].intercalate [c :: rest]).splitOn '\n' = [c :: rest] := by
    apply List.splitOn_intercalate '\n'
    · simpa using hplain
    · exact List.cons_ne_nil _ _
  rw [List.intercalate_singleton] at hsplit
  simp [lines, hsplit]

theorem lines_ended (line rest : List Char) (hplain : '\n' ∉ line) :
    lines (line ++ '\n' :: rest) = stripReturn line :: lines rest := by
  have hne : rest.splitOn '\n' ≠ [] := List.splitOn_ne_nil '\n' rest
  obtain ⟨piece, others, hpieces⟩ := List.exists_cons_of_ne_nil hne
  simp only [lines, List.splitOn_append_cons_self_of_not_mem hplain, hpieces,
    List.dropLast_cons_cons, List.getLast?_cons_cons, List.map_cons]
  split <;> rfl

/-- The lines of segments that follow each other are the segments without their endings. -/
theorem Segmented.lines_flatten {texts : List (List Char)} (h : Segmented texts) :
    lines texts.flatten = texts.map chomp := by
  induction h with
  | nil => rfl
  | @last segment hne hplain =>
    have hlast : segment.getLast? ≠ some '\n' := fun hlast => hplain (List.mem_of_getLast? hlast)
    rw [List.flatten_singleton, lines_of_plain hne hplain, List.map_singleton, chomp, if_neg hlast]
  | @ended line rest hplain hrest ih =>
    have hchomp : chomp (line ++ ['\n']) = stripReturn line := by
      rw [chomp, List.getLast?_concat, if_pos rfl, List.dropLast_concat]
    rw [List.flatten_cons, List.append_assoc, List.singleton_append, lines_ended line _ hplain, ih,
      List.map_cons, hchomp]

theorem lines_eq_map_chomp (text : List Char) : lines text = (segments text).map chomp := by
  have h := (segmented_segments text).lines_flatten
  rwa [flatten_segments] at h

/-- A text without the lines that do not pass a test of their number and their characters. -/
def keepLines (keep : Nat → List Char → Bool) (text : List Char) : List Char :=
  ((((segments text).zipIdx 1).filter fun entry => keep entry.2 (chomp entry.1)).map (·.1)).flatten

theorem lines_keepLines (keep : Nat → List Char → Bool) (text : List Char) :
    lines (keepLines keep text)
      = (((lines text).zipIdx 1).filter fun entry => keep entry.2 entry.1).map (·.1) := by
  have hsublist : ((((segments text).zipIdx 1).filter fun entry => keep entry.2 (chomp entry.1)).map
      (·.1)).Sublist
      (segments text) := by
    have h := (List.filter_sublist (p := fun entry => keep entry.2 (chomp entry.1))
      (l := (segments text).zipIdx 1)).map
      Prod.fst
    rwa [List.zipIdx_map_fst] at h
  rw [keepLines, ((segmented_segments text).sublist hsublist).lines_flatten, lines_eq_map_chomp,
    List.zipIdx_map, List.filter_map, List.map_map, List.map_map]
  rfl

end Lift6502.Text
