import Mathlib.Data.List.DropRight
import SwiftRpc.Proofs.Text
import SwiftRpc.Text.Basic

/-!
# Tidying gives a normal form

Whether a text is tidy can be seen from the text alone (`IsTidy`). Tidying gives such a text and
leaves one that is tidy as it is. In between stand the lines: a tidy text is its lines with a line
feed behind each of them (`TidyLines`), and cutting it gives the same lines back.
-/

namespace SwiftRpc.Text

/-! ## The lines of a text -/

/-- The text has these lines. A line ends at a line feed, or at a carriage return and a line feed;
the last one may end where the text does. -/
inductive HasLines : List Char → List (List Char) → Prop
  | nil : HasLines [] []
  | unended {line : List Char} (hne : line ≠ []) (hline : '\n' ∉ line) : HasLines line [line]
  | feed {line rest : List Char} {more : List (List Char)} (hline : '\n' ∉ line)
      (hreturn : line.getLast? ≠ some '\r') (hrest : HasLines rest more) :
      HasLines (line ++ '\n' :: rest) (line :: more)
  | returned {line rest : List Char} {more : List (List Char)} (hline : '\n' ∉ line)
      (hrest : HasLines rest more) : HasLines (line ++ '\r' :: '\n' :: rest) (line :: more)

/-- Induction along the line feeds of a text. -/
theorem feed_induction {motive : List Char → Prop}
    (last : ∀ line, '\n' ∉ line → motive line)
    (feed : ∀ line rest, '\n' ∉ line → motive rest → motive (line ++ '\n' :: rest))
    (s : List Char) : motive s := by
  have hjoined (l : List (List Char)) (hne : l ≠ []) (hl : ∀ p ∈ l, '\n' ∉ p) :
      motive (List.intercalate ['\n'] l) := by
    induction l with
    | nil => exact absurd rfl hne
    | cons p rest ih =>
      obtain ⟨hp, hrest⟩ := List.forall_mem_cons.1 hl
      cases rest with
      | nil =>
        rw [List.intercalate_singleton]
        exact last p hp
      | cons p' rest =>
        rw [List.intercalate_cons_cons, List.append_assoc, List.singleton_append]
        exact feed p _ hp (ih (List.cons_ne_nil p' rest) hrest)
  have hsplit : ['\n'].intercalate (s.splitOn '\n') = s := List.intercalate_splitOn '\n'
  rw [← hsplit]
  exact hjoined _ (List.splitOn_ne_nil '\n' s) fun p hp => not_mem_of_mem_splitOn hp

theorem lines_of_not_mem {line : List Char} (h : '\n' ∉ line) :
    lines line = if line = [] then [] else [line] := by
  rw [lines, List.splitOn_eq_singleton h]
  rfl

theorem lines_feed {line : List Char} (h : '\n' ∉ line) (rest : List Char) :
    lines (line ++ '\n' :: rest) = dropReturn line :: lines rest := by
  obtain ⟨first, more, hfirst⟩ := splitOn_eq_cons '\n' rest
  have hcut : (line ++ '\n' :: rest).splitOn '\n' = line :: first :: more := by
    rw [List.splitOn_append_cons_self, List.splitOn_eq_singleton h, hfirst, List.singleton_append]
  rw [lines, lines, hcut, hfirst, List.dropLast_cons_cons, List.map_cons, List.getLast?_cons_cons,
    List.cons_append]

theorem dropReturn_of_ne {line : List Char} (h : line.getLast? ≠ some '\r') :
    dropReturn line = line :=
  if_neg h

theorem dropReturn_append (line : List Char) : dropReturn (line ++ ['\r']) = line := by
  simp [dropReturn]

/-- Cutting a text gives its lines, and a text has no other ones. -/
theorem hasLines_iff {s : List Char} {ls : List (List Char)} : HasLines s ls ↔ ls = lines s := by
  constructor
  · intro h
    induction h with
    | nil => rfl
    | unended hne hline => rw [lines_of_not_mem hline, if_neg hne]
    | feed hline hreturn hrest ih => rw [lines_feed hline, dropReturn_of_ne hreturn, ih]
    | @returned line rest more hline hrest ih =>
      have hline' : '\n' ∉ line ++ ['\r'] := by simpa using hline
      have happend : line ++ '\r' :: '\n' :: rest = line ++ ['\r'] ++ '\n' :: rest := by simp
      rw [happend, lines_feed hline', dropReturn_append, ih]
  · rintro rfl
    induction s using feed_induction with
    | last line hline =>
      rw [lines_of_not_mem hline]
      split
      · rename_i hnil
        rw [hnil]
        exact .nil
      · rename_i hne
        exact .unended hne hline
    | feed line rest hline ih =>
      rw [lines_feed hline]
      by_cases hreturn : line.getLast? = some '\r'
      · obtain ⟨front, rfl⟩ := List.getLast?_eq_some_iff.1 hreturn
        have happend : front ++ ['\r'] ++ '\n' :: rest = front ++ '\r' :: '\n' :: rest := by simp
        rw [dropReturn_append, happend]
        exact .returned (fun h => hline (List.mem_append_left _ h)) ih
      · rw [dropReturn_of_ne hreturn]
        exact .feed hline hreturn ih

/-! ## Tidy lines -/

/-- What the lines of a tidy text are: no blanks at their ends, and the last one not empty. -/
structure TidyLines (ls : List (List Char)) : Prop where
  oneLine : ∀ l ∈ ls, '\n' ∉ l
  endTrimmed : ∀ l ∈ ls, EndTrimmed l
  last : ls.getLast? ≠ some []

theorem not_mem_of_mem_lines {s line : List Char} (h : line ∈ lines s) : '\n' ∉ line := by
  have hlines : HasLines s (lines s) := hasLines_iff.2 rfl
  generalize lines s = ls at h hlines
  induction hlines with
  | nil => cases h
  | unended hne hline =>
    rw [List.mem_singleton.1 h]
    exact hline
  | feed hline hreturn hrest ih =>
    rcases List.mem_cons.1 h with rfl | h
    · exact hline
    · exact ih h
  | returned hline hrest ih =>
    rcases List.mem_cons.1 h with rfl | h
    · exact hline
    · exact ih h

theorem tidyLines_eq (s : List Char) :
    tidyLines s = ((lines s).map trimEnd).rdropWhile (· = []) := rfl

/-- The trimmed lines are the ones that are kept and empty ones behind them. -/
theorem map_trimEnd_lines (s : List Char) :
    ∃ n, (lines s).map trimEnd = tidyLines s ++ List.replicate n [] := by
  refine ⟨(((lines s).map trimEnd).rtakeWhile (· = [])).length, ?_⟩
  have hempty : ((lines s).map trimEnd).rtakeWhile (· = []) =
      List.replicate (((lines s).map trimEnd).rtakeWhile (· = [])).length [] := by
    rw [List.eq_replicate_iff]
    exact ⟨rfl, fun l hl => by simpa using List.mem_rtakeWhile_imp hl⟩
  rw [← hempty, tidyLines_eq, List.rdropWhile_append_rtakeWhile]

theorem tidyLines_tidy (s : List Char) : TidyLines (tidyLines s) := by
  have hmem : ∀ l ∈ tidyLines s, ∃ line ∈ lines s, trimEnd line = l := by
    intro l hl
    rw [tidyLines_eq] at hl
    exact List.mem_map.1 ((List.rdropWhile_prefix _ _).subset hl)
  constructor
  · intro l hl hfeed
    obtain ⟨line, hline, rfl⟩ := hmem l hl
    exact not_mem_of_mem_lines hline ((isPrefix_trimEnd line).subset hfeed)
  · intro l hl
    obtain ⟨line, -, rfl⟩ := hmem l hl
    exact endTrimmed_trimEnd line
  · intro hlast
    rw [tidyLines_eq, List.rdropWhile, List.getLast?_reverse] at hlast
    have hne := head?_dropWhile hlast
    simp at hne

/-- Tidy lines are not changed. -/
theorem tidyLines_of_lines {s : List Char} {ls : List (List Char)} (hlines : lines s = ls)
    (h : TidyLines ls) : tidyLines s = ls := by
  have htrim : ls.map trimEnd = ls := by
    refine (List.map_congr_left fun l hl => ?_).trans (List.map_id ls)
    exact trimEnd_of_endTrimmed (h.endTrimmed l hl)
  rw [tidyLines_eq, hlines, htrim, List.rdropWhile, dropWhile_eq_self, List.reverse_reverse]
  rw [List.head?_reverse]
  intro l hl
  have hne : l ≠ [] := fun hnil => h.last (by rw [← hnil]; exact hl)
  simpa using hne

/-- A line that does not end in a blank does not end in a carriage return. -/
theorem EndTrimmed.getLast?_ne_return {line : List Char} (h : EndTrimmed line) :
    line.getLast? ≠ some '\r' := by
  intro hreturn
  have hblank := h '\r' hreturn
  revert hblank
  decide

/-- Lines that have been put together are found again. -/
theorem lines_flatMap {ls : List (List Char)} (h : TidyLines ls) :
    lines (ls.flatMap (· ++ ['\n'])) = ls := by
  obtain ⟨hone, hend, -⟩ := h
  symm
  rw [← hasLines_iff]
  induction ls with
  | nil => exact .nil
  | cons l rest ih =>
    obtain ⟨hl, hone⟩ := List.forall_mem_cons.1 hone
    obtain ⟨hl', hend⟩ := List.forall_mem_cons.1 hend
    rw [List.flatMap_cons, List.append_assoc, List.singleton_append]
    exact .feed hl hl'.getLast?_ne_return (ih hone hend)

/-! ## Tidy text -/

/-- The text ends in one line feed behind a line that is not empty. -/
def EndsLine (s : List Char) : Prop := ∃ front c, s = front ++ [c, '\n'] ∧ c ≠ '\n'

/-- The text is empty or ends in one line feed, and no line of it ends in a blank. -/
structure IsTidy (s : List Char) : Prop where
  ending : s = [] ∨ EndsLine s
  endTrimmed : ∀ line ∈ s.splitOn '\n', EndTrimmed line

theorem splitOn_flatMap {ls : List (List Char)} (h : ∀ l ∈ ls, '\n' ∉ l) :
    (ls.flatMap (· ++ ['\n'])).splitOn '\n' = ls ++ [[]] := by
  induction ls with
  | nil => rfl
  | cons l rest ih =>
    obtain ⟨hl, hrest⟩ := List.forall_mem_cons.1 h
    rw [List.flatMap_cons, List.append_assoc, List.singleton_append, List.splitOn_append_cons_self,
      List.splitOn_eq_singleton hl, ih hrest, List.singleton_append, List.cons_append]

theorem TidyLines.isTidy {ls : List (List Char)} (h : TidyLines ls) :
    IsTidy (ls.flatMap (· ++ ['\n'])) := by
  constructor
  · rcases List.eq_nil_or_concat ls with rfl | ⟨front, l, rfl⟩
    · exact Or.inl rfl
    · -- the last line has a last character, and this is no line feed
      have hl : l ≠ [] := fun hnil => h.last (by simp [hnil])
      obtain ⟨start, c, rfl⟩ := (List.eq_nil_or_concat l).resolve_left hl
      refine Or.inr ⟨front.flatMap (· ++ ['\n']) ++ start, c, by simp, ?_⟩
      rintro rfl
      exact h.oneLine (start ++ ['\n']) (by simp) (by simp)
  · intro line hline
    rw [splitOn_flatMap h.oneLine, List.mem_append, List.mem_singleton] at hline
    rcases hline with hline | rfl
    · exact h.endTrimmed line hline
    · intro c hc
      cases hc

theorem IsTidy.exists_tidyLines {s : List Char} (h : IsTidy s) :
    ∃ ls, TidyLines ls ∧ s = ls.flatMap (· ++ ['\n']) := by
  rcases h.ending with rfl | ⟨front, c, rfl, hc⟩
  · exact ⟨[], ⟨by simp, by simp, by simp⟩, rfl⟩
  · have happend : front ++ [c, '\n'] = front ++ [c] ++ '\n' :: [] := by simp
    have hne := List.splitOn_ne_nil '\n' (front ++ [c])
    have htext : front ++ [c, '\n'] = ((front ++ [c]).splitOn '\n').flatMap (· ++ ['\n']) := by
      rw [flatMap_eq_intercalate '\n' hne, List.intercalate_splitOn, happend]
    refine ⟨(front ++ [c]).splitOn '\n', ⟨fun l hl => not_mem_of_mem_splitOn hl, ?_, ?_⟩, htext⟩
    · intro l hl
      refine h.endTrimmed l ?_
      rw [happend, List.splitOn_append_cons_self]
      exact List.mem_append_left _ hl
    · -- an empty last line would leave a line feed where `c` stands
      intro hlast
      obtain ⟨more, hmore⟩ := List.getLast?_eq_some_iff.1 hlast
      rw [hmore, List.flatMap_append, happend] at htext
      have hfront : front ++ [c] = more.flatMap (· ++ ['\n']) := by
        change front ++ [c] ++ ['\n'] = more.flatMap (· ++ ['\n']) ++ ['\n'] at htext
        exact List.append_cancel_right htext
      rcases List.eq_nil_or_concat more with rfl | ⟨more, l, rfl⟩
      · simp at hfront
      · have hlast := congrArg List.getLast? hfront
        exact hc (by simpa using hlast)

theorem toList_tidy (s : String) :
    (tidy s).toList = (tidyLines s.toList).flatMap (· ++ ['\n']) := by
  rw [tidy, String.toList_ofList]

theorem isTidy_tidy (s : String) : IsTidy (tidy s).toList := by
  rw [toList_tidy]
  exact (tidyLines_tidy s.toList).isTidy

theorem tidy_of_isTidy {s : String} (h : IsTidy s.toList) : tidy s = s := by
  obtain ⟨ls, hls, htext⟩ := h.exists_tidyLines
  have hlines : lines s.toList = ls := by rw [htext, lines_flatMap hls]
  rw [← String.toList_inj, toList_tidy, tidyLines_of_lines hlines hls, htext]

theorem tidy_eq_self_iff {s : String} : tidy s = s ↔ IsTidy s.toList := by
  constructor
  · intro h
    rw [← h]
    exact isTidy_tidy s
  · exact tidy_of_isTidy

/-- **Tidying is a normal form.** The result is tidy. Its lines are those of the text without the
blanks at their ends, up to empty ones that are left out at the end, and it is nothing but these
lines, each with a line feed behind it. A text is not changed exactly if it is tidy, so tidying
twice is tidying once. -/
theorem tidy_normalForm (src : String) :
    IsTidy (tidy src).toList ∧
    (∃ ls kept n, HasLines src.toList ls ∧ HasLines (tidy src).toList kept ∧
      ls.map trimEnd = kept ++ List.replicate n [] ∧
      (tidy src).toList = kept.flatMap (· ++ ['\n'])) ∧
    (tidy src = src ↔ IsTidy src.toList) ∧
    tidy (tidy src) = tidy src := by
  refine ⟨isTidy_tidy src, ?_, tidy_eq_self_iff, tidy_of_isTidy (isTidy_tidy src)⟩
  obtain ⟨n, hn⟩ := map_trimEnd_lines src.toList
  refine ⟨lines src.toList, tidyLines src.toList, n, hasLines_iff.2 rfl, ?_, hn, toList_tidy src⟩
  rw [hasLines_iff, toList_tidy, lines_flatMap (tidyLines_tidy src.toList)]

/-- A carriage return counts as the end of a line only right before a line feed, but it is a blank
everywhere. -/
example : tidy "a \r\n\n b\rc\t\n \r" = "a\n\n b\rc\n" := by decide +kernel

end SwiftRpc.Text
