import Mathlib.Data.List.TakeWhile
import SwiftRpc.Text.Basic

/-!
# Cutting and trimming

Cutting at every separator (`List.splitOn`) gives pieces without one, and cutting at either of two
separators is cutting the pieces again. Cutting at the first separator gives what stands before and
behind it. Trimming gives a text with no blank at either end and leaves such a text alone.
-/

namespace SwiftRpc.Text

/-! ## Pieces -/

theorem splitOn_cons_self (sep : Char) (s : List Char) :
    (sep :: s).splitOn sep = [] :: s.splitOn sep := by
  rw [List.splitOn_cons_eq_if_modifyHead, if_pos (beq_self_eq_true sep)]

theorem splitOn_cons_of_ne {sep c : Char} {s piece : List Char} {more : List (List Char)}
    (hc : c ≠ sep) (hs : s.splitOn sep = piece :: more) :
    (c :: s).splitOn sep = (c :: piece) :: more := by
  rw [List.splitOn_cons_eq_if_modifyHead, if_neg (by simpa using hc), hs, List.modifyHead_cons]

theorem splitOn_eq_cons (sep : Char) (s : List Char) :
    ∃ piece more, s.splitOn sep = piece :: more :=
  List.exists_cons_of_ne_nil (List.splitOn_ne_nil sep s)

theorem splitOn_injective (sep : Char) : Function.Injective (List.splitOn sep) :=
  Function.LeftInverse.injective (g := List.intercalate [sep])
    fun _ => List.intercalate_splitOn sep

theorem not_mem_of_mem_splitOn {sep : Char} {s piece : List Char} (h : piece ∈ s.splitOn sep) :
    sep ∉ piece := by
  induction s generalizing piece with
  | nil =>
    rw [List.splitOn_nil, List.mem_singleton] at h
    rw [h]
    exact List.not_mem_nil
  | cons c rest ih =>
    by_cases hc : c = sep
    · rw [hc, splitOn_cons_self, List.mem_cons] at h
      rcases h with rfl | h
      · exact List.not_mem_nil
      · exact ih h
    · obtain ⟨first, more, hfirst⟩ := splitOn_eq_cons sep rest
      rw [splitOn_cons_of_ne hc hfirst, List.mem_cons] at h
      rw [hfirst] at ih
      rcases h with rfl | h
      · rw [List.mem_cons, not_or]
        exact ⟨Ne.symm hc, ih List.mem_cons_self⟩
      · exact ih (List.mem_cons_of_mem first h)

theorem flatMap_eq_intercalate (sep : Char) {words : List (List Char)} (h : words ≠ []) :
    words.flatMap (· ++ [sep]) = List.intercalate [sep] words ++ [sep] := by
  induction words with
  | nil => exact absurd rfl h
  | cons w rest ih =>
    cases rest with
    | nil => simp
    | cons w' rest =>
      rw [List.flatMap_cons, ih (List.cons_ne_nil w' rest), List.intercalate_cons_cons,
        List.append_assoc, List.append_assoc, List.append_assoc]

theorem mem_of_mem_splitOn {sep c : Char} {s piece : List Char} (hpiece : piece ∈ s.splitOn sep)
    (hc : c ∈ piece) : c ∈ s := by
  have hmem : c ∈ (s.splitOn sep).flatMap (· ++ [sep]) :=
    List.mem_flatMap.2 ⟨piece, hpiece, List.mem_append_left _ hc⟩
  rw [flatMap_eq_intercalate sep (List.splitOn_ne_nil sep s), List.intercalate_splitOn,
    List.mem_append, List.mem_singleton] at hmem
  rcases hmem with hmem | rfl
  · exact hmem
  · exact absurd hc (not_mem_of_mem_splitOn hpiece)

/-- If the dots of a text become underscores, both end words. -/
theorem splitOn_map (dot sep : Char) (s : List Char) :
    (s.map fun c => if c = dot then sep else c).splitOn sep =
      (s.splitOn dot).flatMap (List.splitOn sep) := by
  induction s with
  | nil => rfl
  | cons c rest ih =>
    rw [List.map_cons]
    by_cases hdot : c = dot
    · rw [if_pos hdot, hdot, splitOn_cons_self, splitOn_cons_self, List.flatMap_cons, ih]
      rfl
    · obtain ⟨first, more, hfirst⟩ := splitOn_eq_cons dot rest
      rw [if_neg hdot, splitOn_cons_of_ne hdot hfirst, List.flatMap_cons]
      rw [hfirst, List.flatMap_cons] at ih
      by_cases hsep : c = sep
      · rw [hsep, splitOn_cons_self, splitOn_cons_self, ih, List.cons_append]
      · obtain ⟨word, words, hword⟩ := splitOn_eq_cons sep first
        rw [hword, List.cons_append] at ih
        rw [splitOn_cons_of_ne hsep ih, splitOn_cons_of_ne hsep hword, List.cons_append]

/-! ## The first separator -/

theorem cutAt?_eq (sep : Char) (s : List Char) :
    cutAt? sep s =
      if sep ∈ s then some (s.takeWhile (· ≠ sep), (s.dropWhile (· ≠ sep)).tail) else none := by
  induction s with
  | nil => rfl
  | cons c rest ih =>
    by_cases hc : c = sep
    · simp [cutAt?, hc]
    · by_cases hmem : sep ∈ rest
      · simp [cutAt?, ih, hc, hmem, Ne.symm hc]
      · simp [cutAt?, ih, hc, hmem, Ne.symm hc]

/-- What stands before a separator that is the first one. -/
theorem takeWhile_ne_append {sep : Char} {s : List Char} (h : sep ∉ s) (t : List Char) :
    (s ++ sep :: t).takeWhile (· ≠ sep) = s := by
  rw [List.takeWhile_append_of_pos, List.takeWhile_cons_of_neg (by simp), List.append_nil]
  intro c hc
  have hne : c ≠ sep := ne_of_mem_of_not_mem hc h
  simpa using hne

theorem dropWhile_ne_append {sep : Char} {s : List Char} (h : sep ∉ s) (t : List Char) :
    (s ++ sep :: t).dropWhile (· ≠ sep) = sep :: t := by
  rw [List.dropWhile_append_of_pos, List.dropWhile_cons_of_neg (by simp)]
  intro c hc
  have hne : c ≠ sep := ne_of_mem_of_not_mem hc h
  simpa using hne

/-! ## Trimming -/

/-- No blank at either end. -/
def Trimmed (s : List Char) : Prop :=
  (∀ c ∈ s.head?, isBlank c = false) ∧ ∀ c ∈ s.getLast?, isBlank c = false

theorem trimmed_iff {s : List Char} :
    Trimmed s ↔ s.head?.all (!isBlank ·) = true ∧ s.getLast?.all (!isBlank ·) = true := by
  simp [Trimmed, Option.all_eq_true]

instance (s : List Char) : Decidable (Trimmed s) := decidable_of_iff' _ trimmed_iff

theorem head?_dropWhile {α : Type} {p : α → Bool} {s : List α} {c : α}
    (h : c ∈ (s.dropWhile p).head?) : p c = false := by
  have hstop := List.head?_dropWhile_not p s
  rw [h] at hstop
  exact hstop

theorem dropWhile_eq_self {α : Type} {p : α → Bool} {s : List α}
    (h : ∀ c ∈ s.head?, p c = false) : s.dropWhile p = s := by
  cases s with
  | nil => rfl
  | cons c rest => exact List.dropWhile_cons_of_neg (by simpa using h c rfl)

theorem isPrefix_trimEnd (s : List Char) : trimEnd s <+: s := by
  have h : s.reverse.dropWhile isBlank <:+ s.reverse := List.dropWhile_suffix _
  rw [trimEnd, dropEndWhile, ← List.reverse_suffix, List.reverse_reverse]
  exact h

theorem mem_dropWhile_iff {p : Char → Bool} {s : List Char} {c : Char} (hc : p c = false) :
    c ∈ s.dropWhile p ↔ c ∈ s := by
  constructor
  · intro h
    exact (List.dropWhile_suffix p).subset h
  · intro h
    rw [← List.takeWhile_append_dropWhile (p := p) (l := s), List.mem_append] at h
    rcases h with h | h
    · have hp := List.mem_takeWhile_imp h
      rw [hc] at hp
      cases hp
    · exact h

theorem mem_trim_iff {s : List Char} {c : Char} (hc : isBlank c = false) : c ∈ trim s ↔ c ∈ s := by
  rw [trim, trimEnd, dropEndWhile, List.mem_reverse, mem_dropWhile_iff hc, List.mem_reverse,
    mem_dropWhile_iff hc]

/-- No blank at the end. -/
def EndTrimmed (s : List Char) : Prop := ∀ c ∈ s.getLast?, isBlank c = false

theorem endTrimmed_iff {s : List Char} :
    EndTrimmed s ↔ s.getLast?.all (!isBlank ·) = true := by
  simp [EndTrimmed, Option.all_eq_true]

instance (s : List Char) : Decidable (EndTrimmed s) := decidable_of_iff' _ endTrimmed_iff

theorem endTrimmed_trimEnd (s : List Char) : EndTrimmed (trimEnd s) := by
  intro c hc
  rw [trimEnd, dropEndWhile, List.getLast?_reverse] at hc
  exact head?_dropWhile hc

theorem trimEnd_of_endTrimmed {s : List Char} (h : EndTrimmed s) : trimEnd s = s := by
  rw [trimEnd, dropEndWhile, dropWhile_eq_self, List.reverse_reverse]
  rw [List.head?_reverse]
  exact h

theorem trimmed_trim (s : List Char) : Trimmed (trim s) := by
  refine ⟨?_, endTrimmed_trimEnd _⟩
  intro c hc
  -- what is left of a text by its end starts as the text does
  obtain ⟨blanks, hblanks⟩ := isPrefix_trimEnd (s.dropWhile isBlank)
  refine head?_dropWhile (s := s) ?_
  rw [← hblanks, List.head?_append]
  rw [Option.mem_def] at hc ⊢
  rw [show (trimEnd (s.dropWhile isBlank)).head? = some c from hc, Option.some_or]

theorem trim_of_trimmed {s : List Char} (h : Trimmed s) : trim s = s := by
  rw [trim, dropWhile_eq_self h.1, trimEnd_of_endTrimmed h.2]

end SwiftRpc.Text
