import SwiftRpc.Proofs.Casing
import SwiftRpc.Proofs.Words

/-!
# Camel case by words

Camel case reads a name once from the left and keeps a flag; Pascal case cuts it at underscores and
joins the pieces. Both see the same words: leading, doubled and trailing underscores only make empty
pieces, which add nothing. So a name in lower camel case is its first word and the later ones with
a capital each, it has no underscore left, and with a capital at its front it is in Pascal case.
-/

namespace SwiftRpc.Name

open SwiftRpc.Text

/-! ## Reading from the left -/

/-- What was written so far, and whether the next character is raised. -/
structure CamelState where
  written : List Char := []
  raise : Bool := false

/-- An underscore raises what comes next, but only behind something that was written. -/
def CamelState.read (s : CamelState) (c : Char) : CamelState :=
  if c = '_' then { s with raise := !s.written.isEmpty }
  else ⟨s.written ++ (if s.raise then upper c else [c]), false⟩

/-- Once something is written, underscores at the beginning are no longer special. -/
theorem written_foldl_read {written : List Char} (h : written ≠ []) (raise : Bool)
    (s : List Char) :
    (s.foldl CamelState.read ⟨written, raise⟩).written = written ++ camelFrom raise s := by
  induction s generalizing written raise with
  | nil => exact (List.append_nil written).symm
  | cons c rest ih =>
    rw [List.foldl_cons, camelFrom]
    by_cases hc : c = '_'
    · have hread : CamelState.read ⟨written, raise⟩ c = ⟨written, true⟩ := by
        simp [CamelState.read, hc, h]
      rw [hread, if_pos hc, ih h]
    · have hread : CamelState.read ⟨written, raise⟩ c =
          ⟨written ++ (if raise then upper c else [c]), false⟩ := if_neg hc
      rw [hread, if_neg hc, ih (List.append_ne_nil_of_left_ne_nil h _), List.append_assoc]

theorem written_foldl_read_nil (s : List Char) :
    (s.foldl CamelState.read {}).written = lowerCamelChars s := by
  induction s with
  | nil => rfl
  | cons c rest ih =>
    by_cases hc : c = '_'
    · have hread : CamelState.read {} c = {} := if_pos hc
      rw [List.foldl_cons, hread, ih, lowerCamelChars, lowerCamelChars,
        List.dropWhile_cons_of_pos (by simpa using hc)]
    · have hread : CamelState.read {} c = ⟨[c], false⟩ := if_neg hc
      rw [List.foldl_cons, hread, written_foldl_read (List.cons_ne_nil c []), lowerCamelChars,
        List.dropWhile_cons_of_neg (by simpa using hc), camelFrom, if_neg hc]
      rfl

/-! ## Words -/

/-- What stands between underscores, without the empty pieces. -/
def wordChars (s : List Char) : List (List Char) := (s.splitOn '_').filter (· ≠ [])

theorem wordChars_underscore (s : List Char) : wordChars ('_' :: s) = wordChars s := by
  rw [wordChars, splitOn_cons_self, List.filter_cons_of_neg (by simp), wordChars]

theorem wordChars_dropWhile (s : List Char) :
    wordChars (s.dropWhile (· = '_')) = wordChars s := by
  induction s with
  | nil => rfl
  | cons c rest ih =>
    by_cases hc : c = '_'
    · rw [hc, wordChars_underscore, ← ih, List.dropWhile_cons_of_pos (by simp)]
    · rw [List.dropWhile_cons_of_neg (by simpa using hc)]

/-- An empty piece has nothing to put a capital to. -/
theorem flatMap_capitalizeChars_filter (ws : List (List Char)) :
    (ws.filter (· ≠ [])).flatMap capitalizeChars = ws.flatMap capitalizeChars := by
  induction ws with
  | nil => rfl
  | cons w rest ih =>
    by_cases hw : w = []
    · rw [hw, List.filter_cons_of_neg (by simp), ih]
      rfl
    · rw [List.filter_cons_of_pos (by simpa using hw), List.flatMap_cons, List.flatMap_cons, ih]

theorem pascalChars_eq_words (s : List Char) :
    pascalChars s = (wordChars s).flatMap capitalizeChars := by
  rw [wordChars, flatMap_capitalizeChars_filter, pascalChars]

theorem lowerCamelChars_eq_words (s : List Char) :
    lowerCamelChars s =
      match wordChars s with
      | [] => []
      | w :: ws => w ++ ws.flatMap capitalizeChars := by
  rw [lowerCamelChars, ← wordChars_dropWhile]
  -- behind the leading underscores a name is over, or its first word starts
  cases ht : s.dropWhile (· = '_') with
  | nil => rfl
  | cons c rest =>
    have hc : c ≠ '_' := by
      have hstop : decide (c = '_') = false := head?_dropWhile (s := s) (by rw [ht]; rfl)
      exact of_decide_eq_false hstop
    obtain ⟨first, more, hfirst⟩ := splitOn_eq_cons '_' rest
    have hcut := splitOn_cons_of_ne hc hfirst
    rw [(camelFrom_splitOn (c :: rest)).2 _ _ hcut, wordChars, hcut,
      List.filter_cons_of_pos (by simp)]
    exact congrArg _ (flatMap_capitalizeChars_filter more).symm

/-! ## What camel case leaves -/

theorem underscore_not_mem_lowerCamelChars (s : List Char) : '_' ∉ lowerCamelChars s := by
  intro h
  refine forall_mem_camelFrom (p := (· ≠ '_')) ?_ false '_' h rfl
  intro c _ hc
  refine ⟨hc, ?_⟩
  rintro d hd rfl
  exact underscore_not_mem_upper hc hd

theorem lowerCamelChars_of_not_mem {s : List Char} (h : '_' ∉ s) : lowerCamelChars s = s := by
  have hhead : s.head? ≠ some '_' := fun hhead => h (List.mem_of_head? hhead)
  rw [lowerCamelChars_of_head hhead (List.splitOn_eq_singleton h), List.flatMap_nil,
    List.append_nil]

theorem lowerCamelChars_idem (s : List Char) :
    lowerCamelChars (lowerCamelChars s) = lowerCamelChars s :=
  lowerCamelChars_of_not_mem (underscore_not_mem_lowerCamelChars s)

theorem capitalizeChars_append {w : List Char} (h : w ≠ []) (s : List Char) :
    capitalizeChars (w ++ s) = capitalizeChars w ++ s := by
  obtain ⟨c, rest, rfl⟩ := List.exists_cons_of_ne_nil h
  rw [List.cons_append, capitalizeChars, capitalizeChars, List.append_assoc]

theorem capitalizeChars_lowerCamelChars (s : List Char) :
    capitalizeChars (lowerCamelChars s) = pascalChars s := by
  rw [lowerCamelChars_eq_words, pascalChars_eq_words]
  cases hwords : wordChars s with
  | nil => rfl
  | cons w ws =>
    have hw : w ≠ [] := by
      have hmem : w ∈ wordChars s := by rw [hwords]; exact List.mem_cons_self
      simpa using (List.mem_filter.1 hmem).2
    rw [List.flatMap_cons]
    exact capitalizeChars_append hw _

/-! ## The two case styles -/

def words (s : String) : List String := (wordChars s.toList).map String.ofList

theorem toList_join_capitalize (ws : List (List Char)) :
    (String.join ((ws.map String.ofList).map capitalize)).toList =
      ws.flatMap capitalizeChars := by
  rw [String.toList_join, List.map_map, List.flatMap_map]
  refine List.flatMap_congr fun w _ => ?_
  rw [Function.comp_apply, capitalize, String.toList_ofList, String.toList_ofList]

theorem lowerCamel_eq_words (s : String) :
    lowerCamel s =
      match words s with
      | [] => ""
      | w :: ws => w ++ String.join (ws.map capitalize) := by
  rw [lowerCamel, lowerCamelChars_eq_words, words]
  cases wordChars s.toList with
  | nil => rfl
  | cons w ws =>
    show String.ofList (w ++ ws.flatMap capitalizeChars) = String.ofList w ++ _
    rw [← toList_join_capitalize, String.ofList_append, String.ofList_toList]

/-- **Camel case by words.** Of every name lower camel case is what is read from the left with a
flag, and it is the first word and then the later ones with a capital each. No underscore is left, a
second time changes nothing, and with a capital at the front it is Pascal case. -/
theorem lowerCamel_agrees (s : String) :
    lowerCamel s = String.ofList (s.toList.foldl CamelState.read {}).written ∧
    (lowerCamel s =
      match words s with
      | [] => ""
      | w :: ws => w ++ String.join (ws.map capitalize)) ∧
    '_' ∉ (lowerCamel s).toList ∧
    lowerCamel (lowerCamel s) = lowerCamel s ∧
    capitalize (lowerCamel s) = pascal s := by
  refine ⟨?_, lowerCamel_eq_words s, ?_, ?_, ?_⟩
  · rw [written_foldl_read_nil, lowerCamel]
  · rw [lowerCamel, String.toList_ofList]
    exact underscore_not_mem_lowerCamelChars s.toList
  · rw [lowerCamel, lowerCamel, String.toList_ofList, lowerCamelChars_idem]
  · rw [capitalize, lowerCamel, String.toList_ofList, capitalizeChars_lowerCamelChars, pascal]

/-- One letter may become two. -/
example : lowerCamel "_a__ßo_" = "aSSo" ∧ pascal "_a__ßo_" = "ASSo" := by decide +kernel

end SwiftRpc.Name
