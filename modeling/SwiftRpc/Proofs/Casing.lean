import Mathlib.Data.List.Basic
import SwiftRpc.Name
import SwiftRpc.Proofs.Text

/-!
# Words in the case styles

A conventional name is made of words (`Snake`): each a letter and then letters and digits, with
underscores between them. Lower camel case keeps the first word and puts a capital at the start of
each later one, so the capitals tell where the underscores were (`snakeChars`). From Pascal case to
upper snake case the same capitals become underscores again. Of any identifier camel case makes one
word.
-/

namespace SwiftRpc.Text

/-! ## ASCII letters -/

/-- What holds of the characters below 128 one by one holds of each of them. -/
theorem forall_ascii {p : Char → Prop} (h : ∀ n < 128, p (Char.ofNat n)) {c : Char}
    (hc : c.toNat < 128) : p c := by
  rw [← Char.ofNat_toNat c]
  exact h c.toNat hc

theorem covers_of_first_gt {r : Run} {n : Nat} (h : n < r.first) : r.covers n = false := by
  simp [Run.covers, Nat.not_le.2 h]

/-- Below 128 only the first run of a table counts, if all else starts later. -/
theorem mapCase_ascii {sequences : List (Nat × List Nat)} {run : CaseRun} {runs : List CaseRun}
    (hsequences : ∀ q ∈ sequences, 128 ≤ q.1) (hruns : ∀ r ∈ runs, 128 ≤ r.first) {c : Char}
    (hc : c.toNat < 128) : mapCase sequences (run :: runs) c = mapCase [] [run] c := by
  have hlookup : sequences.lookup c.toNat = none := by
    rw [List.lookup_eq_none_iff]
    intro q hq
    have hq' := hsequences q hq
    simp only [bne_iff_ne, ne_eq]
    omega
  have hfind : runs.find? (·.covers c.toNat) = none := by
    rw [List.find?_eq_none]
    intro r hr
    rw [covers_of_first_gt (Nat.lt_of_lt_of_le hc (hruns r hr))]
    decide
  rw [mapCase, mapCase, hlookup, List.find?_cons, List.find?_cons, hfind]
  rfl

theorem upper_of_ascii {c : Char} (hc : c.toNat < 128) : upper c = [c.toUpper] := by
  have htable : upper c = mapCase upperSequences (⟨⟨0x61, 0x7A, 1⟩, -32⟩ :: upperRuns.tail) c := rfl
  rw [htable, mapCase_ascii (by decide +kernel) (by decide +kernel) hc]
  refine forall_ascii (p := fun c => mapCase [] [⟨⟨0x61, 0x7A, 1⟩, -32⟩] c = [c.toUpper]) ?_ hc
  decide +kernel

theorem isUppercase_of_ascii {c : Char} (hc : c.toNat < 128) : isUppercase c = c.isUpper := by
  have hlate : ∀ r ∈ uppercaseRuns.tail, 128 ≤ r.first := by decide +kernel
  have hnone : uppercaseRuns.tail.any (·.covers c.toNat) = false := by
    rw [List.any_eq_false]
    intro r hr
    rw [covers_of_first_gt (Nat.lt_of_lt_of_le hc (hlate r hr))]
    decide
  have hsmall : isUppercase c =
      (Run.covers ⟨0x41, 0x5A, 1⟩ c.toNat || uppercaseRuns.tail.any (·.covers c.toNat)) := rfl
  rw [hsmall, hnone, Bool.or_false]
  refine forall_ascii (p := fun c => Run.covers ⟨0x41, 0x5A, 1⟩ c.toNat = c.isUpper) ?_ hc
  decide +kernel

theorem isAlphanum_iff {c : Char} :
    c.isAlphanum = true ↔ (c.isUpper = true ∨ c.isLower = true) ∨ c.isDigit = true := by
  show ((c.isUpper || c.isLower) || c.isDigit) = true ↔ _
  rw [Bool.or_eq_true, Bool.or_eq_true]

theorem isAlphanum_of_upper {c : Char} (h : c.isUpper = true ∨ c.isDigit = true) :
    c.isAlphanum = true :=
  isAlphanum_iff.2 (h.imp_left Or.inl)

theorem isAlphanum_of_lower {c : Char} (h : c.isLower = true ∨ c.isDigit = true) :
    c.isAlphanum = true :=
  isAlphanum_iff.2 (h.imp_left Or.inr)

theorem ascii_of_isAlphanum {c : Char} (h : c.isAlphanum = true) : c.toNat < 128 := by
  rw [isAlphanum_iff] at h
  change (decide (c.val ≥ 'A'.val ∧ c.val ≤ 'Z'.val) = true ∨
    (decide (c.val ≥ 'a'.val) && decide (c.val ≤ 'z'.val)) = true) ∨
    (decide (c.val ≥ '0'.val) && decide (c.val ≤ '9'.val)) = true at h
  simp only [Bool.and_eq_true, decide_eq_true_eq, ge_iff_le, UInt32.le_iff_toNat_le] at h
  change ((65 ≤ c.toNat ∧ c.toNat ≤ 90) ∨ (97 ≤ c.toNat ∧ c.toNat ≤ 122)) ∨
    (48 ≤ c.toNat ∧ c.toNat ≤ 57) at h
  omega

/-- A fact about letters and digits can be checked for each of them. -/
theorem forall_alphanum {p : Char → Prop}
    (h : ∀ n < 128, (Char.ofNat n).isAlphanum = true → p (Char.ofNat n)) {c : Char}
    (hc : c.isAlphanum = true) : p c :=
  forall_ascii (p := fun c => c.isAlphanum = true → p c) h (ascii_of_isAlphanum hc) hc

end SwiftRpc.Text

namespace SwiftRpc.Name

open SwiftRpc.Text

/-! ## Camel case -/

/-- Every piece between underscores starts with a capital, but for the first one where nothing was
raised. -/
theorem camelFrom_splitOn (s : List Char) :
    camelFrom true s = pascalChars s ∧
      ∀ piece more, s.splitOn '_' = piece :: more →
        camelFrom false s = piece ++ more.flatMap capitalizeChars := by
  induction s with
  | nil =>
    refine ⟨rfl, ?_⟩
    intro piece more h
    cases h
    rfl
  | cons c rest ih =>
    obtain ⟨first, more, hfirst⟩ := splitOn_eq_cons '_' rest
    obtain ⟨htrue, hfalse⟩ := ih
    by_cases hc : c = '_'
    · subst hc
      have hcut : ('_' :: rest).splitOn '_' = [] :: rest.splitOn '_' := splitOn_cons_self '_' rest
      have hpascal : pascalChars ('_' :: rest) = pascalChars rest := by
        rw [pascalChars, hcut]
        rfl
      refine ⟨?_, ?_⟩
      · rw [camelFrom, if_pos rfl, htrue, hpascal]
      · intro piece more h
        rw [hcut] at h
        cases h
        rw [camelFrom, if_pos rfl, htrue]
        rfl
    · have hcut := splitOn_cons_of_ne hc hfirst
      refine ⟨?_, ?_⟩
      · rw [camelFrom, if_neg hc, if_pos rfl, hfalse first more hfirst, pascalChars, hcut,
          List.flatMap_cons, capitalizeChars, List.append_assoc]
      · intro piece more' h
        rw [hcut] at h
        cases h
        rw [camelFrom, if_neg hc, hfalse first more hfirst]
        rfl

theorem lowerCamelChars_of_head {s piece : List Char} {more : List (List Char)}
    (hhead : s.head? ≠ some '_') (h : s.splitOn '_' = piece :: more) :
    lowerCamelChars s = piece ++ more.flatMap capitalizeChars := by
  rw [lowerCamelChars, dropWhile_eq_self, (camelFrom_splitOn s).2 piece more h]
  intro c hc
  have hne : c ≠ '_' := fun heq => hhead (by rw [← heq]; exact hc)
  simpa using hne

/-- What holds of the characters of a name, as they are and raised, holds in camel case. -/
theorem forall_mem_camelFrom {p : Char → Prop} {s : List Char}
    (h : ∀ c ∈ s, c ≠ '_' → p c ∧ ∀ d ∈ upper c, p d) (raise : Bool) :
    ∀ c ∈ camelFrom raise s, p c := by
  induction s generalizing raise with
  | nil =>
    intro c hc
    cases hc
  | cons d rest ih =>
    obtain ⟨hd, hrest⟩ := List.forall_mem_cons.1 h
    intro c hc
    rw [camelFrom] at hc
    split at hc
    · exact ih hrest true c hc
    · rename_i hne
      obtain ⟨hsame, hraised⟩ := hd hne
      rcases List.mem_append.1 hc with hc | hc
      · cases raise with
        | false =>
          rw [List.mem_singleton.1 hc]
          exact hsame
        | true => exact hraised c hc
      · exact ih hrest false c hc

theorem isAlphanum_of_mem_camelFrom {raise : Bool} {s : List Char}
    (h : ∀ c ∈ s, c.isAlphanum = true ∨ c = '_') :
    ∀ c ∈ camelFrom raise s, c.isAlphanum = true := by
  refine forall_mem_camelFrom (fun c hc hne => ?_) raise
  have halnum : c.isAlphanum = true := (h c hc).resolve_right hne
  refine ⟨halnum, ?_⟩
  rw [upper_of_ascii (ascii_of_isAlphanum halnum), List.forall_mem_singleton]
  exact forall_alphanum (p := fun c => c.toUpper.isAlphanum = true) (by decide +kernel) halnum

/-! ## Conventional names -/

/-- A letter, then letters and digits. -/
def IsWord (letter : Char → Bool) : List Char → Prop
  | [] => False
  | c :: rest => letter c = true ∧ ∀ d ∈ rest, letter d = true ∨ d.isDigit = true

instance (letter : Char → Bool) : DecidablePred (IsWord letter)
  | [] => isFalse id
  | c :: rest =>
    decidable_of_iff (letter c = true ∧ rest.all (fun d => letter d || d.isDigit) = true)
      (by simp [IsWord])

/-- Words with underscores between them. -/
def Snake (letter : Char → Bool) (s : List Char) : Prop := ∀ w ∈ s.splitOn '_', IsWord letter w

instance (letter : Char → Bool) (s : List Char) : Decidable (Snake letter s) :=
  inferInstanceAs (Decidable (∀ w ∈ s.splitOn '_', IsWord letter w))

section Words

variable {letter : Char → Bool} {w : List Char}

theorem IsWord.exists_cons (h : IsWord letter w) :
    ∃ c rest, w = c :: rest ∧ letter c = true ∧ ∀ d ∈ rest, letter d = true ∨ d.isDigit = true := by
  cases w with
  | nil => exact h.elim
  | cons c rest => exact ⟨c, rest, rfl, h⟩

theorem IsWord.mem (h : IsWord letter w) {d : Char} (hd : d ∈ w) :
    letter d = true ∨ d.isDigit = true := by
  obtain ⟨c, rest, rfl, hc, hrest⟩ := h.exists_cons
  rcases List.mem_cons.1 hd with rfl | hd
  · exact Or.inl hc
  · exact hrest d hd

/-- A text of words is its first word and an underscore before each later one. -/
theorem intercalate_cons_eq (sep : Char) (w : List Char) (ws : List (List Char)) :
    List.intercalate [sep] (w :: ws) = w ++ ws.flatMap (sep :: ·) := by
  induction ws generalizing w with
  | nil => simp
  | cons w' ws ih =>
    rw [List.intercalate_cons_cons, ih, List.flatMap_cons, List.append_assoc,
      List.singleton_append, List.cons_append]

/-- The first word, and the later ones each with its underscore. -/
theorem Snake.exists_words {s : List Char} (h : Snake letter s) :
    ∃ w ws, s.splitOn '_' = w :: ws ∧ IsWord letter w ∧ (∀ v ∈ ws, IsWord letter v) ∧
      s = w ++ ws.flatMap ('_' :: ·) := by
  obtain ⟨w, ws, hcut⟩ := splitOn_eq_cons '_' s
  obtain ⟨hw, hws⟩ := List.forall_mem_cons.1 (hcut ▸ h : ∀ v ∈ w :: ws, IsWord letter v)
  refine ⟨w, ws, hcut, hw, hws, ?_⟩
  rw [← intercalate_cons_eq, ← hcut, List.intercalate_splitOn]

end Words

/-! ## Back to snake case -/

/-- From `createdAt` to `created_at`. -/
def snakeChars (s : List Char) : List Char :=
  s.flatMap fun c => if c.isUpper then ['_', c.toLower] else [c]

theorem snakeChars_append (s t : List Char) :
    snakeChars (s ++ t) = snakeChars s ++ snakeChars t :=
  List.flatMap_append

theorem snakeChars_lower {s : List Char} (h : ∀ c ∈ s, c.isLower = true ∨ c.isDigit = true) :
    snakeChars s = s := by
  have hone : ∀ c ∈ s, (if c.isUpper then ['_', c.toLower] else [c]) = [c] := by
    intro c hc
    refine forall_alphanum (p := fun c => c.isLower = true ∨ c.isDigit = true →
      (if c.isUpper then ['_', c.toLower] else [c]) = [c]) ?_
      (isAlphanum_of_lower (h c hc)) (h c hc)
    decide +kernel
  rw [snakeChars, List.flatMap_congr hone, List.flatMap_singleton']

theorem snakeChars_capitalizeChars {w : List Char} (h : IsWord Char.isLower w) :
    snakeChars (capitalizeChars w) = '_' :: w := by
  obtain ⟨c, rest, rfl, hc, hrest⟩ := h.exists_cons
  have halnum := isAlphanum_of_lower (Or.inl hc)
  have hcapital : snakeChars [c.toUpper] = ['_', c] := by
    refine forall_alphanum (p := fun c => c.isLower = true → snakeChars [c.toUpper] = ['_', c])
      ?_ halnum hc
    decide +kernel
  rw [capitalizeChars, upper_of_ascii (ascii_of_isAlphanum halnum), snakeChars_append, hcapital,
    snakeChars_lower hrest]
  rfl

theorem snakeChars_flatMap {ws : List (List Char)} (h : ∀ w ∈ ws, IsWord Char.isLower w) :
    snakeChars (ws.flatMap capitalizeChars) = ws.flatMap ('_' :: ·) := by
  induction ws with
  | nil => rfl
  | cons w rest ih =>
    obtain ⟨hw, hrest⟩ := List.forall_mem_cons.1 h
    rw [List.flatMap_cons, snakeChars_append, snakeChars_capitalizeChars hw, ih hrest,
      List.flatMap_cons]

theorem Snake.head?_ne {s : List Char} (h : Snake Char.isLower s) : s.head? ≠ some '_' := by
  obtain ⟨w, ws, -, hw, -, rfl⟩ := h.exists_words
  obtain ⟨c, rest, rfl, hc, -⟩ := hw.exists_cons
  intro hhead
  have hunder : c = '_' := by simpa using hhead
  rw [hunder] at hc
  cases hc

/-- The capitals of camel case tell where the words start. -/
theorem snakeChars_lowerCamelChars {s : List Char} (h : Snake Char.isLower s) :
    snakeChars (lowerCamelChars s) = s := by
  obtain ⟨w, ws, hcut, hw, hws, htext⟩ := h.exists_words
  rw [lowerCamelChars_of_head h.head?_ne hcut, snakeChars_append,
    snakeChars_lower fun c hc => hw.mem hc, snakeChars_flatMap hws, ← htext]

/-! ## Upper snake case -/

/-- What upper snake case makes of a character that is not the first one. -/
def upperSnakeStep (c : Char) : List Char := if isUppercase c then '_' :: upper c else upper c

theorem upperSnakeChars_cons (c : Char) (rest : List Char) :
    upperSnakeChars (c :: rest) = upper c ++ rest.flatMap upperSnakeStep := rfl

theorem upperSnakeStep_lower {c : Char} (h : c.isLower = true ∨ c.isDigit = true) :
    upperSnakeStep c = [c.toUpper] := by
  have halnum := isAlphanum_of_lower h
  have hupper : c.isUpper = false := by
    refine forall_alphanum (p := fun c => c.isLower = true ∨ c.isDigit = true → c.isUpper = false)
      ?_ halnum h
    decide +kernel
  have hascii := ascii_of_isAlphanum halnum
  rw [upperSnakeStep, isUppercase_of_ascii hascii, hupper, upper_of_ascii hascii]
  rfl

theorem flatMap_upperSnakeStep_lower {s : List Char}
    (h : ∀ c ∈ s, c.isLower = true ∨ c.isDigit = true) :
    s.flatMap upperSnakeStep = s.map Char.toUpper := by
  rw [List.flatMap_congr fun c hc => upperSnakeStep_lower (h c hc), List.map_eq_flatMap]

theorem isUpper_toUpper {c : Char} (h : c.isLower = true) :
    c.toUpper.isUpper = true ∧ c.toUpper.toUpper = c.toUpper := by
  refine forall_alphanum (p := fun c => c.isLower = true →
    c.toUpper.isUpper = true ∧ c.toUpper.toUpper = c.toUpper) ?_ (isAlphanum_of_lower (Or.inl h)) h
  decide +kernel

theorem upper_toUpper {c : Char} (h : c.isLower = true) : upper c.toUpper = [c.toUpper] := by
  obtain ⟨hupper, hstays⟩ := isUpper_toUpper h
  rw [upper_of_ascii (ascii_of_isAlphanum (isAlphanum_of_upper (Or.inl hupper))), hstays]

theorem upperSnakeStep_toUpper {c : Char} (h : c.isLower = true) :
    upperSnakeStep c.toUpper = ['_', c.toUpper] := by
  obtain ⟨hupper, -⟩ := isUpper_toUpper h
  have hascii := ascii_of_isAlphanum (isAlphanum_of_upper (Or.inl hupper))
  rw [upperSnakeStep, isUppercase_of_ascii hascii, if_pos hupper, upper_toUpper h]

/-- A word with a capital, not at the beginning. -/
theorem flatMap_upperSnakeStep_word {w : List Char} (h : IsWord Char.isLower w) :
    (w.modifyHead Char.toUpper).flatMap upperSnakeStep = '_' :: w.map Char.toUpper := by
  obtain ⟨c, rest, rfl, hc, hrest⟩ := h.exists_cons
  rw [List.modifyHead_cons, List.flatMap_cons, upperSnakeStep_toUpper hc,
    flatMap_upperSnakeStep_lower hrest]
  rfl

/-- From Pascal case to upper snake case no word is lost. -/
theorem upperSnakeChars_words {words : List (List Char)} (hne : words ≠ [])
    (h : ∀ w ∈ words, IsWord Char.isLower w) :
    upperSnakeChars (words.flatMap (·.modifyHead Char.toUpper)) =
      List.intercalate ['_'] (words.map (·.map Char.toUpper)) := by
  obtain ⟨w, ws, rfl⟩ := List.exists_cons_of_ne_nil hne
  obtain ⟨hw, hws⟩ := List.forall_mem_cons.1 h
  obtain ⟨c, rest, rfl, hc, hrest⟩ := hw.exists_cons
  have hlater : (ws.flatMap (·.modifyHead Char.toUpper)).flatMap upperSnakeStep =
      (ws.map (·.map Char.toUpper)).flatMap ('_' :: ·) := by
    rw [List.flatMap_assoc, List.flatMap_map]
    exact List.flatMap_congr fun w hw => flatMap_upperSnakeStep_word (hws w hw)
  rw [List.flatMap_cons, List.modifyHead_cons, List.cons_append, upperSnakeChars_cons,
    upper_toUpper hc, List.flatMap_append, flatMap_upperSnakeStep_lower hrest, hlater,
    List.map_cons, intercalate_cons_eq]
  rfl

/-! ## Words in capitals -/

/-- A character that is no letter is in lower case only where it was before. -/
theorem toLower_eq_iff {c d : Char} (hd : d.isAlpha = false) : c.toLower = d ↔ c = d := by
  cases hc : c.isUpper with
  | false =>
    have hstays : c.toLower = c := dif_neg (of_decide_eq_false hc)
    rw [hstays]
  | true =>
    have halpha : c.isAlpha = true ∧ c.toLower.isAlpha = true := by
      refine forall_alphanum
        (p := fun c => c.isUpper = true → c.isAlpha = true ∧ c.toLower.isAlpha = true) ?_
        (isAlphanum_of_upper (Or.inl hc)) hc
      decide +kernel
    refine iff_of_false ?_ ?_
    · rintro rfl
      exact Bool.noConfusion (hd.symm.trans halpha.2)
    · rintro rfl
      exact Bool.noConfusion (hd.symm.trans halpha.1)

/-- In lower case a name has the same words, in lower case. -/
theorem splitOn_lowerAscii (s : List Char) :
    (lowerAscii s).splitOn '_' = (s.splitOn '_').map lowerAscii := by
  induction s with
  | nil => rfl
  | cons c rest ih =>
    by_cases hc : c = '_'
    · rw [hc, splitOn_cons_self, List.map_cons, ← ih]
      exact splitOn_cons_self '_' _
    · obtain ⟨first, more, hfirst⟩ := splitOn_eq_cons '_' rest
      have hlower : c.toLower ≠ '_' := fun h => hc ((toLower_eq_iff (by decide)).1 h)
      rw [hfirst, List.map_cons] at ih
      rw [splitOn_cons_of_ne hc hfirst]
      exact splitOn_cons_of_ne hlower ih

theorem isLower_toLower {c : Char} (h : c.isUpper = true ∨ c.isDigit = true) :
    (c.toLower.isLower = true ∨ c.toLower.isDigit = true) ∧
      (c.isUpper = true → c.toLower.isLower = true) ∧ c.toLower.toUpper = c := by
  refine forall_alphanum (p := fun c => c.isUpper = true ∨ c.isDigit = true →
    (c.toLower.isLower = true ∨ c.toLower.isDigit = true) ∧
      (c.isUpper = true → c.toLower.isLower = true) ∧ c.toLower.toUpper = c) ?_
    (isAlphanum_of_upper h) h
  decide +kernel

theorem IsWord.toLower {w : List Char} (h : IsWord Char.isUpper w) :
    IsWord Char.isLower (lowerAscii w) := by
  obtain ⟨c, rest, rfl, hc, hrest⟩ := h.exists_cons
  refine ⟨(isLower_toLower (Or.inl hc)).2.1 hc, List.forall_mem_map.2 ?_⟩
  intro d hd
  exact (isLower_toLower (hrest d hd)).1

theorem Snake.toLower {s : List Char} (h : Snake Char.isUpper s) :
    Snake Char.isLower (lowerAscii s) := by
  unfold Snake
  rw [splitOn_lowerAscii, List.forall_mem_map]
  intro w hw
  exact (h w hw).toLower

theorem Snake.mem {letter : Char → Bool} {s : List Char} (h : Snake letter s) {c : Char}
    (hc : c ∈ s) : (letter c = true ∨ c.isDigit = true) ∨ c = '_' := by
  obtain ⟨w, ws, -, hw, hws, rfl⟩ := h.exists_words
  rcases List.mem_append.1 hc with hc | hc
  · exact Or.inl (hw.mem hc)
  · obtain ⟨v, hv, hc⟩ := List.mem_flatMap.1 hc
    rcases List.mem_cons.1 hc with rfl | hc
    · exact Or.inr rfl
    · exact Or.inl ((hws v hv).mem hc)

/-- Nothing is lost in lower case, as all letters are capitals. -/
theorem Snake.map_toUpper_lowerAscii {s : List Char} (h : Snake Char.isUpper s) :
    (lowerAscii s).map Char.toUpper = s := by
  rw [lowerAscii, List.map_map]
  refine (List.map_congr_left fun c hc => ?_).trans (List.map_id s)
  rcases h.mem hc with hc | rfl
  · exact (isLower_toLower hc).2.2
  · rfl

/-! ## Identifiers -/

/-- A letter, then letters, digits and underscores in any order. -/
def IsIdentifier : List Char → Prop
  | [] => False
  | c :: rest => c.isAlpha = true ∧ ∀ d ∈ rest, d.isAlphanum = true ∨ d = '_'

instance : DecidablePred IsIdentifier
  | [] => isFalse id
  | c :: rest =>
    decidable_of_iff (c.isAlpha = true ∧ rest.all (fun d => d.isAlphanum || d == '_') = true)
      (by simp [IsIdentifier])

theorem isAlphanum_of_isAlpha {c : Char} (h : c.isAlpha = true) : c.isAlphanum = true := by
  show (c.isAlpha || c.isDigit) = true
  rw [h, Bool.true_or]

theorem IsIdentifier.mem {s : List Char} (h : IsIdentifier s) {c : Char} (hc : c ∈ s) :
    c.isAlphanum = true ∨ c = '_' := by
  cases s with
  | nil => exact h.elim
  | cons d rest =>
    rcases List.mem_cons.1 hc with rfl | hc
    · exact Or.inl (isAlphanum_of_isAlpha h.1)
    · exact h.2 c hc

/-- From a letter on, any part of an identifier up to its end is one. -/
theorem IsIdentifier.of_suffix {s rest : List Char} {c : Char} (h : IsIdentifier s)
    (hsuffix : c :: rest <:+ s) (hc : c.isAlpha = true) : IsIdentifier (c :: rest) := by
  refine ⟨hc, ?_⟩
  intro d hd
  exact h.mem (hsuffix.subset (List.mem_cons_of_mem c hd))

theorem isAlpha_toLower {c : Char} (h : c.isAlphanum = true) :
    c.toLower.isAlphanum = true ∧ (c.isAlpha = true → c.toLower.isAlpha = true) := by
  refine forall_alphanum (p := fun c => c.toLower.isAlphanum = true ∧
    (c.isAlpha = true → c.toLower.isAlpha = true)) ?_ h
  decide +kernel

theorem IsIdentifier.toLower {s : List Char} (h : IsIdentifier s) :
    IsIdentifier (lowerAscii s) := by
  cases s with
  | nil => exact h.elim
  | cons c rest =>
    refine ⟨(isAlpha_toLower (isAlphanum_of_isAlpha h.1)).2 h.1, List.forall_mem_map.2 ?_⟩
    intro d hd
    rcases h.2 d hd with hd | rfl
    · exact Or.inl (isAlpha_toLower hd).1
    · exact Or.inr rfl

/-- The first letter of an identifier stays, so camel case neither empties it nor brings a digit to
its front. -/
theorem IsIdentifier.isWord_lowerCamelChars {s : List Char} (h : IsIdentifier s) :
    IsWord Char.isAlpha (lowerCamelChars s) := by
  cases s with
  | nil => exact h.elim
  | cons c rest =>
    have hc : c ≠ '_' := by
      rintro rfl
      cases h.1
    have hfirst : lowerCamelChars (c :: rest) = c :: camelFrom false rest := by
      rw [lowerCamelChars, List.dropWhile_cons_of_neg (by simpa using hc), camelFrom, if_neg hc]
      rfl
    rw [hfirst]
    refine ⟨h.1, ?_⟩
    intro d hd
    exact Bool.or_eq_true_iff.1 (isAlphanum_of_mem_camelFrom h.2 d hd)

end SwiftRpc.Name
