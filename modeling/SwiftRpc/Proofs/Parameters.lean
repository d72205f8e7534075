import Mathlib.Data.List.Forall2
import SwiftRpc.Options.Parameters
import SwiftRpc.Proofs.Dictionary
import SwiftRpc.Proofs.Outcome
import SwiftRpc.Proofs.Text

/-!
# The grammar of parameters

A text of parameters is read as the list of its pairs, and a pair as a key and a value around its
first equals sign. `WellFormed` pairs are accepted, `Faults` says how any other pair is refused, and
`LastBinds` says which pair a key is read from. Reading is exact with respect to these, and it
undoes writing: bindings whose texts cannot be taken for separators come back whatever their order.
-/

namespace SwiftRpc.Parameters

open SwiftRpc.Text

/-! ## Pairs -/

def pairs (text : String) : List (List Char) := text.toList.splitOn ','

/-- What stands before the first equals sign, without blanks around it. -/
def keyOf (pair : List Char) : String := String.ofList (trim (pair.takeWhile (· ≠ '=')))

/-- What stands behind the first equals sign, as written. -/
def valueOf (pair : List Char) : String := String.ofList (pair.dropWhile (· ≠ '=')).tail

def bindingOf (pair : List Char) : String × String := (keyOf pair, valueOf pair)

structure WellFormed (pair : List Char) : Prop where
  separated : '=' ∈ pair
  keyed : keyOf pair ≠ ""

/-- What is reported of a pair that is not well-formed; it is quoted as written. -/
inductive Faults (pair : List Char) : ParameterError → Prop where
  | missingSeparator (h : '=' ∉ pair) : Faults pair (.missingSeparator (String.ofList pair))
  | emptyKey (hsep : '=' ∈ pair) (hkey : keyOf pair = "") :
      Faults pair (.emptyKey (String.ofList pair))

theorem keyOf_eq_empty {pair : List Char} :
    keyOf pair = "" ↔ trim (pair.takeWhile (· ≠ '=')) = [] := by
  rw [keyOf, ← String.toList_inj, String.toList_ofList]
  rfl

theorem parsePair_eq_ok {pair : List Char} {b : String × String} :
    parsePair pair = .ok b ↔ WellFormed pair ∧ b = bindingOf pair := by
  rw [parsePair, cutAt?_eq]
  by_cases hsep : '=' ∈ pair
  · simp only [if_pos hsep, Outcome.guarded_eq_ok, ← keyOf_eq_empty]
    exact and_congr_left fun _ => ⟨fun hkey => ⟨hsep, hkey⟩, fun h => h.keyed⟩
  · simp only [if_neg hsep, reduceCtorEq, false_iff]
    exact fun h => hsep h.1.separated

theorem parsePair_eq_error {pair : List Char} {e : ParameterError} :
    parsePair pair = .error e ↔ Faults pair e := by
  rw [parsePair, cutAt?_eq]
  by_cases hsep : '=' ∈ pair
  · simp only [if_pos hsep, Outcome.guarded_eq_error, ← keyOf_eq_empty]
    constructor
    · rintro ⟨hkey, rfl⟩
      exact .emptyKey hsep hkey
    · rintro (h | ⟨-, hkey⟩)
      · exact absurd hsep h
      · exact ⟨hkey, rfl⟩
  · simp only [if_neg hsep, Except.error.injEq]
    constructor
    · rintro rfl
      exact .missingSeparator hsep
    · rintro (- | ⟨h, -⟩)
      · rfl
      · exact absurd h hsep

/-! ## Texts -/

theorem parse_eq {text : String} (h : text ≠ "") :
    parse (some text) = ((pairs text).mapM parsePair).map Dictionary.ofList := by
  have hne : text.toList ≠ [] := by simpa using h
  obtain ⟨c, rest, hcons⟩ := List.exists_cons_of_ne_nil hne
  simp only [parse, Option.getD_some, pairs, hcons]

theorem parse_eq_ok {text : String} (h : text ≠ "") {ps : Parameters} :
    parse (some text) = .ok ps ↔
      (∀ pair ∈ pairs text, WellFormed pair) ∧
        ps = Dictionary.ofList ((pairs text).map bindingOf) := by
  simp only [parse_eq h, Outcome.map_eq_ok,
    Outcome.mapM_eq_ok_iff_map (fun _ _ => parsePair_eq_ok)]
  constructor
  · rintro ⟨bindings, ⟨hpairs, rfl⟩, rfl⟩
    exact ⟨hpairs, rfl⟩
  · rintro ⟨hpairs, rfl⟩
    exact ⟨_, ⟨hpairs, rfl⟩, rfl⟩

theorem parse_eq_error {text : String} (h : text ≠ "") {e : ParameterError} :
    parse (some text) = .error e ↔ ∃ before pair after, pairs text = before ++ pair :: after ∧
      (∀ p ∈ before, WellFormed p) ∧ Faults pair e := by
  simp only [parse_eq h, Outcome.map_eq_error, Outcome.mapM_eq_error, parsePair_eq_ok,
    parsePair_eq_error, exists_and_left, exists_eq, and_true]

/-! ## Last bindings -/

/-- The last of the pairs with this key has this value. -/
def LastBinds (pairs : List (List Char)) (key value : String) : Prop :=
  ∃ before pair after, pairs = before ++ pair :: after ∧ keyOf pair = key ∧ valueOf pair = value ∧
    ∀ p ∈ after, keyOf p ≠ key

/-- The value of the last pair with this key. -/
def lastValue? (text? : Option String) (key : String) : Option String :=
  ((pairs (text?.getD "")).map bindingOf).reverse.lookup key

theorem lookup_reverse_bindings {l : List (List Char)} {key value : String} :
    (l.map bindingOf).reverse.lookup key = some value ↔ LastBinds l key value := by
  rw [← List.map_reverse, List.lookup_eq_some_iff]
  constructor
  · rintro ⟨later, earlier, hsplit, hlater⟩
    obtain ⟨after, rest, hrest, rfl, hmore⟩ := List.map_eq_append_iff.1 hsplit
    obtain ⟨pair, before, rfl, hpair, -⟩ := List.map_eq_cons_iff.1 hmore
    obtain ⟨hkey, hvalue⟩ := Prod.mk.inj hpair
    refine ⟨before.reverse, pair, after.reverse, ?_, hkey, hvalue, fun p hp => ?_⟩
    · rw [← List.reverse_reverse l, hrest]
      simp
    · have hne := hlater (bindingOf p) (List.mem_map_of_mem (List.mem_reverse.1 hp))
      exact Ne.symm (bne_iff_ne.1 hne)
  · rintro ⟨before, pair, after, rfl, rfl, rfl, hafter⟩
    refine ⟨(after.map bindingOf).reverse, (before.map bindingOf).reverse, by simp [bindingOf], ?_⟩
    intro b hb
    obtain ⟨p, hp, rfl⟩ := List.mem_map.1 (List.mem_reverse.1 hb)
    exact bne_iff_ne.2 (Ne.symm (hafter p hp))

/-- What is found under a key is its last value. The text without pairs is one piece without a
key, so the empty key is left out. -/
theorem get?_of_parse {text? : Option String} {ps : Parameters} (h : parse text? = .ok ps)
    {key : String} (hkey : key ≠ "") : ps.get? key = lastValue? text? key := by
  by_cases htext : text?.getD "" = ""
  · have hps : ps = Dictionary.empty := by
      rw [parse, htext] at h
      exact (Except.ok.inj h).symm
    have hpairs : (pairs "").map bindingOf = [("", "")] := by decide
    rw [hps, lastValue?, htext, hpairs]
    simp [Dictionary.get?, Dictionary.empty, beq_false_of_ne hkey]
  · have h : parse (some (text?.getD "")) = .ok ps := h
    rw [((parse_eq_ok htext).1 h).2, Dictionary.get?_ofList, lastValue?]

theorem comma_not_mem_of_lastValue? {text? : Option String} {key value : String}
    (h : lastValue? text? key = some value) : ',' ∉ value.toList := by
  obtain ⟨before, pair, after, hpairs, -, rfl, -⟩ := lookup_reverse_bindings.1 h
  have hin : pair ∈ pairs (text?.getD "") := hpairs ▸ by simp
  have hpair : ',' ∉ pair := not_mem_of_mem_splitOn hin
  rw [valueOf, String.toList_ofList]
  intro hmem
  exact hpair ((List.dropWhile_suffix _).subset (List.mem_of_mem_tail hmem))

/-! ## Writing -/

/-- The bindings as pairs with commas between them. -/
def print (bindings : List (String × String)) : String :=
  String.intercalate "," (bindings.map fun b => b.1 ++ "=" ++ b.2)

/-- A binding whose text has its separator and its ends where they are meant. -/
structure Printable (b : String × String) : Prop where
  named : b.1 ≠ ""
  trimmed : Trimmed b.1.toList
  no_equals : '=' ∉ b.1.toList
  no_comma : ',' ∉ b.1.toList
  value_no_comma : ',' ∉ b.2.toList

def written (b : String × String) : List Char := b.1.toList ++ '=' :: b.2.toList

theorem bindingOf_written {b : String × String} (h : Printable b) : bindingOf (written b) = b := by
  have hkey : keyOf (written b) = b.1 := by
    rw [keyOf, written, takeWhile_ne_append h.no_equals, trim_of_trimmed h.trimmed,
      String.ofList_toList]
  have hvalue : valueOf (written b) = b.2 := by
    rw [valueOf, written, dropWhile_ne_append h.no_equals, List.tail_cons, String.ofList_toList]
  rw [bindingOf, hkey, hvalue]

theorem wellFormed_written {b : String × String} (h : Printable b) : WellFormed (written b) := by
  refine ⟨by simp [written], ?_⟩
  rw [show keyOf (written b) = b.1 from congrArg Prod.fst (bindingOf_written h)]
  exact h.named

theorem pairs_print {bindings : List (String × String)} (hne : bindings ≠ [])
    (h : ∀ b ∈ bindings, Printable b) : pairs (print bindings) = bindings.map written := by
  have htext : (print bindings).toList = List.intercalate [','] (bindings.map written) := by
    rw [print, String.toList_intercalate, List.map_map]
    refine congrArg _ (List.map_congr_left fun b _ => ?_)
    simp [written]
  rw [pairs, htext, List.splitOn_intercalate ',' ?_ (by simpa using hne)]
  intro piece hpiece
  obtain ⟨b, hb, rfl⟩ := List.mem_map.1 hpiece
  simp [written, (h b hb).no_comma, (h b hb).value_no_comma]

/-- Reading undoes writing. -/
theorem parse_print {bindings : List (String × String)} (hnodup : (bindings.map (·.1)).Nodup)
    (h : ∀ b ∈ bindings, Printable b) : parse (some (print bindings)) = .ok ⟨bindings⟩ := by
  cases bindings with
  | nil => rfl
  | cons b rest =>
    have hpairs := pairs_print (List.cons_ne_nil b rest) h
    have htext : print (b :: rest) ≠ "" := by
      intro hempty
      rw [hempty] at hpairs
      -- the empty text is one empty piece
      have hfirst : [[]] = written b :: rest.map written := hpairs
      simp [written] at hfirst
    have hback : ((b :: rest).map written).map bindingOf = b :: rest := by
      rw [List.map_map]
      exact (List.map_congr_left fun c hc => bindingOf_written (h c hc)).trans (List.map_id _)
    rw [parse_eq_ok htext, hpairs, hback, Dictionary.ofList_of_nodup hnodup]
    refine ⟨fun pair hpair => ?_, rfl⟩
    obtain ⟨c, hc, rfl⟩ := List.mem_map.1 hpair
    exact wellFormed_written (h c hc)

/-! ## The whole grammar -/

/-- **Reading parameters is exact and undoes writing.** A text that is not empty is accepted if and
only if all its pairs are well-formed; then the keys are those of the pairs, each once, and each is
bound to the value of its last pair. Otherwise the first pair that is not well-formed is reported.
Conversely, the bindings of a finite map are read back to that map, in whatever order they are
written, if no key is empty, has blanks around it or holds a separator, and no value holds a
comma. -/
theorem parse_exact :
    (∀ text : String, text ≠ "" →
      ((∃ ps, parse (some text) = .ok ps) ↔ ∀ pair ∈ pairs text, WellFormed pair) ∧
      (∀ ps, parse (some text) = .ok ps →
        ps.keys.Nodup ∧ (∀ key, key ∈ ps.keys ↔ ∃ pair ∈ pairs text, keyOf pair = key) ∧
        ∀ key value, ps.get? key = some value ↔ LastBinds (pairs text) key value) ∧
      ∀ e, parse (some text) = .error e ↔
        ∃ before pair after, pairs text = before ++ pair :: after ∧
          (∀ p ∈ before, WellFormed p) ∧ Faults pair e) ∧
    ∀ d : Parameters, d.keys.Nodup → (∀ b ∈ d.entries, Printable b) →
      ∀ bindings, bindings.Perm d.entries →
        ∃ ps, parse (some (print bindings)) = .ok ps ∧ ps.entries.Perm d.entries ∧
          ∀ key, ps.get? key = d.get? key := by
  constructor
  · intro text htext
    refine ⟨?_, ?_, fun e => parse_eq_error htext⟩
    · simp only [parse_eq_ok htext, exists_and_left, exists_eq, and_true]
    · intro ps hps
      obtain ⟨-, rfl⟩ := (parse_eq_ok htext).1 hps
      refine ⟨Dictionary.nodup_keys_ofList _, fun key => ?_, fun key value => ?_⟩
      · rw [Dictionary.mem_keys_ofList, List.map_map, List.mem_map]
        rfl
      · rw [Dictionary.get?_ofList, lookup_reverse_bindings]
  · intro d hnodup hprintable bindings hperm
    have hbindings : (bindings.map (·.1)).Nodup := (hperm.map Prod.fst).nodup_iff.2 hnodup
    exact ⟨⟨bindings⟩, parse_print hbindings fun b hb => hprintable b (hperm.mem_iff.1 hb), hperm,
      Dictionary.get?_of_perm hnodup hperm⟩

/-- A value with an equals sign in it, a key with blanks around it and a key that comes again; two
pairs that are refused, of which the first is reported; and a map that is written backwards. -/
theorem parse_exact_mixed :
    (∃ ps, parse (some "k=a=b, b =x=,k=") = .ok ps ∧
      ps.get? "k" = some "" ∧ ps.get? "b" = some "x=") ∧
    parse (some "a=1, =2,b") = .error (.emptyKey " =2") ∧
    ∃ ps, parse (some "b=x=y,a=") = .ok ps ∧ ps.get? "a" = some "" ∧ ps.get? "b" = some "x=y" := by
  obtain ⟨hread, hwrite⟩ := parse_exact
  refine ⟨?_, ?_, ?_⟩
  · have hpairs : pairs "k=a=b, b =x=,k=" =
        ["k=a=b".toList, " b =x=".toList, "k=".toList] := by decide +kernel
    obtain ⟨haccept, hvalues, -⟩ := hread "k=a=b, b =x=,k=" (by decide)
    obtain ⟨ps, hps⟩ := haccept.2 (by
      rw [hpairs]
      simp only [List.forall_mem_cons, List.not_mem_nil, false_implies, implies_true, and_true]
      exact ⟨⟨by decide +kernel, by decide +kernel⟩, ⟨by decide +kernel, by decide +kernel⟩,
        by decide +kernel, by decide +kernel⟩)
    obtain ⟨-, -, hget⟩ := hvalues ps hps
    refine ⟨ps, hps, (hget _ _).2 ?_, (hget _ _).2 ?_⟩
    · exact ⟨["k=a=b".toList, " b =x=".toList], "k=".toList, [], hpairs, by decide +kernel,
        by decide +kernel, by simp⟩
    · exact ⟨["k=a=b".toList], " b =x=".toList, ["k=".toList], hpairs, by decide +kernel,
        by decide +kernel, by decide +kernel⟩
  · obtain ⟨-, -, herror⟩ := hread "a=1, =2,b" (by decide)
    have hpairs : pairs "a=1, =2,b" = ["a=1".toList] ++ " =2".toList :: ["b".toList] := by
      decide +kernel
    refine (herror _).2 ⟨_, _, _, hpairs, ?_, .emptyKey (by decide +kernel) (by decide +kernel)⟩
    rw [List.forall_mem_singleton]
    exact ⟨by decide +kernel, by decide +kernel⟩
  · have hprintable : ∀ b ∈ [("a", ""), ("b", "x=y")], Printable b := by
      rw [List.forall_mem_cons, List.forall_mem_singleton]
      constructor
      all_goals exact ⟨by decide, by decide +kernel, by decide, by decide, by decide⟩
    obtain ⟨ps, hps, -, hget⟩ := hwrite ⟨[("a", ""), ("b", "x=y")]⟩ (by decide) hprintable
      [("b", "x=y"), ("a", "")] (List.Perm.swap _ _ _)
    exact ⟨ps, hps, hget "a", hget "b"⟩

end SwiftRpc.Parameters
