import SwiftRpc.Proofs.Refill
import SwiftRpc.Proofs.Tidy

/-!
# Blanks before line feeds

A text that ends as a tidy one does is tidy exactly if no line feed stands right behind a blank.
Unlike its lines, this can be followed through a text that is put together from parts, and through
a replacement: the places where a line feed comes to stand behind a blank are those where a blank
stood before what has been replaced.
-/

namespace SwiftRpc.Text

/-- A blank inside a line. -/
def IsGap (c : Char) : Prop := isBlank c = true ∧ c ≠ '\n'

instance (c : Char) : Decidable (IsGap c) := inferInstanceAs (Decidable (_ ∧ _))

/-- A blank inside a line stands right before an occurrence of `x`. -/
inductive GapBefore (x : List Char) : List Char → Prop
  | here {c : Char} {rest : List Char} (hc : IsGap c) (hx : x <+: rest) : GapBefore x (c :: rest)
  | later {c : Char} {rest : List Char} (hrest : GapBefore x rest) : GapBefore x (c :: rest)

@[simp]
theorem not_gapBefore_nil (x : List Char) : ¬ GapBefore x [] := nofun

theorem gapBefore_cons {x : List Char} {c : Char} {rest : List Char} :
    GapBefore x (c :: rest) ↔ (IsGap c ∧ x <+: rest) ∨ GapBefore x rest := by
  constructor
  · rintro (⟨hc, hx⟩ | hrest)
    · exact Or.inl ⟨hc, hx⟩
    · exact Or.inr hrest
  · rintro (⟨hc, hx⟩ | hrest)
    · exact .here hc hx
    · exact .later hrest

def decideGapBefore (x : List Char) : (s : List Char) → Decidable (GapBefore x s)
  | [] => isFalse (not_gapBefore_nil x)
  | c :: rest =>
    have := decideGapBefore x rest
    decidable_of_iff ((IsGap c ∧ x <+: rest) ∨ GapBefore x rest) gapBefore_cons.symm

instance (x s : List Char) : Decidable (GapBefore x s) := decideGapBefore x s

theorem not_isGap_feed : ¬ IsGap '\n' := fun h => h.2 rfl

/-! ## Parts of a text -/

theorem GapBefore.isInfix {x s : List Char} (h : GapBefore x s) : x <:+: s := by
  induction h with
  | here _ hx => exact hx.isInfix.trans (List.suffix_cons _ _).isInfix
  | later _ ih => exact ih.trans (List.suffix_cons _ _).isInfix

theorem not_gapBefore_of_not_mem {s : List Char} (h : '\n' ∉ s) : ¬ GapBefore ['\n'] s :=
  fun hgap => h (hgap.isInfix.subset (List.mem_singleton_self _))

theorem feed_isPrefix_iff {s : List Char} : ['\n'] <+: s ↔ s.head? = some '\n' := by
  cases s with
  | nil => simp
  | cons c rest => simp [List.cons_prefix_cons, eq_comm]

/-- Two parts meet without a line feed behind a blank. -/
theorem gapBefore_append {s t : List Char}
    (hjoin : ∀ c ∈ s.getLast?, IsGap c → t.head? ≠ some '\n') :
    GapBefore ['\n'] (s ++ t) ↔ GapBefore ['\n'] s ∨ GapBefore ['\n'] t := by
  induction s with
  | nil => simp
  | cons c rest ih =>
    cases rest with
    | nil =>
      have hc : ¬ (IsGap c ∧ ['\n'] <+: t) :=
        fun h => hjoin c rfl h.1 (feed_isPrefix_iff.1 h.2)
      have hc' : ¬ (IsGap c ∧ ['\n'] <+: []) := by simp
      simp only [List.cons_append, List.nil_append, gapBefore_cons, hc, hc', not_gapBefore_nil,
        false_or]
    | cons d rest =>
      have hrest := ih (by rwa [List.getLast?_cons_cons] at hjoin)
      have hstart : ['\n'] <+: d :: (rest ++ t) ↔ ['\n'] <+: d :: rest := by
        rw [feed_isPrefix_iff, feed_isPrefix_iff]
        rfl
      rw [List.cons_append, gapBefore_cons, gapBefore_cons, hrest, or_assoc, List.cons_append,
        hstart]

/-! ## Tidy text -/

/-- A line feed is behind a blank at the end of a line. -/
theorem gapBefore_line {line : List Char} (h : '\n' ∉ line) (rest : List Char) :
    GapBefore ['\n'] (line ++ '\n' :: rest) ↔ ¬ EndTrimmed line ∨ GapBefore ['\n'] rest := by
  have hfeed : GapBefore ['\n'] ('\n' :: rest) ↔ GapBefore ['\n'] rest := by
    rw [gapBefore_cons, or_iff_right (fun h => not_isGap_feed h.1)]
  rcases List.eq_nil_or_concat line with rfl | ⟨front, c, rfl⟩
  · simp [hfeed, EndTrimmed]
  · rw [List.concat_eq_append] at h ⊢
    have hfront : '\n' ∉ front := fun hmem => h (List.mem_append_left _ hmem)
    have hc : c ≠ '\n' := fun hc => h (by simp [hc])
    have hlast : ¬ EndTrimmed (front ++ [c]) ↔ IsGap c := by
      simp [EndTrimmed, IsGap, hc]
    have hends : GapBefore ['\n'] (c :: '\n' :: rest) ↔ IsGap c ∨ GapBefore ['\n'] rest := by
      rw [gapBefore_cons, hfeed, feed_isPrefix_iff]
      simp
    rw [List.append_assoc, List.singleton_append, gapBefore_append, hends, hlast,
      or_iff_right (not_gapBefore_of_not_mem hfront)]
    intro _ _ _ hhead
    exact hc (Option.some.inj hhead)

theorem forall_endTrimmed_iff (s : List Char) :
    (∀ line ∈ s.splitOn '\n', EndTrimmed line) ↔ ¬ GapBefore ['\n'] (s ++ ['\n']) := by
  induction s using feed_induction with
  | last line hline =>
    rw [List.splitOn_eq_singleton hline, gapBefore_line hline, List.forall_mem_singleton]
    simp
  | feed line rest hline ih =>
    rw [List.splitOn_append_cons_self, List.splitOn_eq_singleton hline, List.singleton_append,
      List.forall_mem_cons, ih,
      List.append_assoc, List.cons_append, gapBefore_line hline, not_or, not_not]

theorem EndsLine.isTidy_iff {s : List Char} (h : EndsLine s) :
    IsTidy s ↔ ¬ GapBefore ['\n'] s := by
  obtain ⟨front, c, rfl, hc⟩ := h
  have hsplit : front ++ [c, '\n'] = front ++ [c] ++ '\n' :: [] := by simp
  have hcut : (∀ line ∈ (front ++ [c, '\n']).splitOn '\n', EndTrimmed line) ↔
      ∀ line ∈ (front ++ [c]).splitOn '\n', EndTrimmed line := by
    rw [hsplit, List.splitOn_append_cons_self, List.forall_mem_append]
    simp [EndTrimmed]
  rw [hsplit, ← forall_endTrimmed_iff, ← hcut]
  constructor
  · intro htidy
    rw [hsplit]
    exact htidy.endTrimmed
  · intro hends
    rw [← hsplit]
    exact ⟨Or.inr ⟨front, c, rfl, hc⟩, hends⟩

theorem EndsLine.getLast?_eq {s : List Char} (h : EndsLine s) : s.getLast? = some '\n' := by
  obtain ⟨front, c, rfl, -⟩ := h
  simp

theorem EndsLine.append {s : List Char} (h : EndsLine s) (t : List Char) : EndsLine (t ++ s) := by
  obtain ⟨front, c, rfl, hc⟩ := h
  exact ⟨t ++ front, c, by rw [List.append_assoc], hc⟩

/-! ## Replacing -/

section Replacing

variable {old new : List Char}

theorem feed_not_mem_replaceFrom {s : List Char} (hnew : '\n' ∉ new) (hs : '\n' ∉ s) :
    '\n' ∉ replaceFrom old new 0 s :=
  fun h => (mem_or_mem_of_mem_replaceFrom h).elim hnew hs

/-- What has been replaced starts with a line feed where the text did, or where it has `old`. -/
theorem head?_replaceFrom (hne : old ≠ []) (hhead : new.head? = some '\n') (s : List Char) :
    (replaceFrom old new 0 s).head? = some '\n' ↔ s.head? = some '\n' ∨ old <+: s := by
  cases s with
  | nil => simp [replaceFrom, hne]
  | cons c rest =>
    by_cases hfound : old <+: c :: rest
    · obtain ⟨t, ht⟩ := hfound
      rw [← ht, replaceFrom_self hne, List.head?_append, hhead]
      simp
    · rw [replaceFrom_cons hfound, or_iff_left hfound]
      rfl

theorem gapBefore_append_of_forall {s : List Char} (h : ∀ c ∈ s, isBlank c = false)
    (x t : List Char) : GapBefore x (s ++ t) ↔ GapBefore x t := by
  induction s with
  | nil => rfl
  | cons c rest ih =>
    obtain ⟨hc, hrest⟩ := List.forall_mem_cons.1 h
    rw [List.cons_append, gapBefore_cons, ih hrest, or_iff_right]
    simp [IsGap, hc]

/-- Lines put in the place of `old` tear a line exactly where a blank stood before. -/
theorem gapBefore_replaceFrom (hne : old ≠ []) (hold : ∀ c ∈ old, isBlank c = false)
    (hhead : new.head? = some '\n') (hlast : new.getLast? = some '\n')
    (hnew : ¬ GapBefore ['\n'] new) (s : List Char) :
    GapBefore ['\n'] (replaceFrom old new 0 s) ↔ GapBefore ['\n'] s ∨ GapBefore old s := by
  induction s using search_induction hne with
  | nil => simp [replaceFrom]
  | found t ih =>
    have hjoin : ∀ c ∈ new.getLast?, IsGap c → (replaceFrom old new 0 t).head? ≠ some '\n' := by
      rw [hlast]
      rintro c ⟨⟩ hc
      exact absurd hc not_isGap_feed
    rw [replaceFrom_self hne, gapBefore_append hjoin, or_iff_right hnew, ih,
      gapBefore_append_of_forall hold, gapBefore_append_of_forall hold]
  | other c rest hno ih =>
    rw [replaceFrom_cons hno]
    simp only [gapBefore_cons, ih, feed_isPrefix_iff, head?_replaceFrom hne hhead, and_or_left]
    exact or_or_or_comm

end Replacing

end SwiftRpc.Text
