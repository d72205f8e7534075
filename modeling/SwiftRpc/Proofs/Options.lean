import Mathlib.Data.List.TakeWhile
import SwiftRpc.Options.Basic
import SwiftRpc.Proofs.Parameters

/-!
# What options are read from

Options are read from the last values of three keys (`Known`), and nothing else of an accepted text
matters: neither the order of the pairs, nor other keys, nor values that were replaced, allowed or
not. Of several values that are not allowed the one whose key comes first in `Known.all` is
reported.

Accepted options can be written as a text again (`print`). The extension is trimmed before the dots
in front of it are dropped, so a blank behind these dots stays. Without such a blank the text is
read back to the same options.
-/

namespace SwiftRpc.Options

open SwiftRpc.Text
open SwiftRpc.Parameters

/-! ## The known keys -/

inductive Known where
  | ext | log | models
deriving DecidableEq

namespace Known

/-- In the order in which bad values are reported. -/
def all : List Known := [.ext, .log, .models]

def key : Known → String
  | .ext => "ext"
  | .log => "log"
  | .models => "models"

def expected : Known → String
  | .ext => "a non-empty file extension"
  | .log => "one of trace, debug, info, warn, error, off"
  | .models => "true or false"

/-- Blanks around a value do not count. -/
def Allows : Known → String → Prop
  | .ext, value => '/' ∉ value.toList ∧ (trim value.toList).any (· ≠ '.') = true
  | .log, value => String.ofList (lowerAscii (trim value.toList)) ∈ levels
  | .models, value => String.ofList (trim value.toList) ∈ ["true", "1", "false", "0"]

instance (k : Known) (value : String) : Decidable (k.Allows value) :=
  match k with
  | .ext => inferInstanceAs (Decidable (_ ∧ _))
  | .log => inferInstanceAs (Decidable (_ ∈ _))
  | .models => inferInstanceAs (Decidable (_ ∈ _))

theorem key_ne_empty (k : Known) : k.key ≠ "" := by
  cases k <;> decide

end Known

/-- `e` reports the value of the key, which is given and not allowed. -/
def Refuses (value? : String → Option String) (k : Known) (e : ParameterError) : Prop :=
  ∃ value, value? k.key = some value ∧ ¬ k.Allows value ∧
    e = .invalidValue k.key value k.expected

/-! ## Reading -/

theorem ext?_eq_none {value : String} : ext? value = none ↔ ¬ Known.ext.Allows value := by
  have hslash : '/' ∈ (trim value.toList).dropWhile (· = '.') ↔ '/' ∈ value.toList := by
    rw [mem_dropWhile_iff (by decide), mem_trim_iff (by decide)]
  have hdots : (trim value.toList).dropWhile (· = '.') = [] ↔
      ¬ (trim value.toList).any (· ≠ '.') = true := by
    simp [List.dropWhile_eq_nil_iff]
  rw [Known.Allows, not_and_or, not_not, ← hslash, ← hdots, or_comm]
  simp only [ext?]
  split
  · rename_i h
    exact iff_of_true rfl h
  · rename_i h
    exact iff_of_false (Option.some_ne_none _) h

theorem level?_eq_none {value : String} : level? value = none ↔ ¬ Known.log.Allows value := by
  simp [level?, Known.Allows]

theorem flag?_eq_none {value : String} : flag? value = none ↔ ¬ Known.models.Allows value := by
  simp only [flag?, Known.Allows, List.mem_cons, List.not_mem_nil, or_false]
  split
  · rename_i h
    rcases h with h | h <;> simp [h]
  · rename_i h
    rw [not_or] at h
    simp [h]

theorem setting_eq_error {α : Type} {ps : Parameters} {key : String} {default : α}
    {read : String → Option α} {expected : String} {e : ParameterError} :
    setting ps key default read expected = .error e ↔
      ∃ value, ps.get? key = some value ∧ read value = none ∧
        e = .invalidValue key value expected := by
  unfold setting
  cases ps.get? key with
  | none => simp
  | some value => cases hread : read value <;> simp [hread, eq_comm]

theorem setting_eq_ok {α : Type} {ps : Parameters} {key : String} {default : α}
    {read : String → Option α} {expected : String} {a : α} :
    setting ps key default read expected = .ok a ↔
      (ps.get? key = none ∧ a = default) ∨
        ∃ value, ps.get? key = some value ∧ read value = some a := by
  unfold setting
  cases ps.get? key with
  | none => simp [eq_comm]
  | some value => cases hread : read value <;> simp [hread]

/-- Reading one of the keys, without its value. -/
def check (ps : Parameters) (k : Known) : Except ParameterError Unit :=
  match k with
  | .ext => (setting ps k.key "swift" ext? k.expected).map fun _ => ()
  | .log => (setting ps k.key defaultLevel level? k.expected).map fun _ => ()
  | .models => (setting ps k.key true flag? k.expected).map fun _ => ()

theorem check_eq_error {ps : Parameters} {k : Known} {e : ParameterError} :
    check ps k = .error e ↔ Refuses ps.get? k e := by
  cases k with
  | ext => simp only [check, Outcome.map_eq_error, setting_eq_error, ext?_eq_none, Refuses]
  | log => simp only [check, Outcome.map_eq_error, setting_eq_error, level?_eq_none, Refuses]
  | models => simp only [check, Outcome.map_eq_error, setting_eq_error, flag?_eq_none, Refuses]

theorem exists_check_eq_ok {ps : Parameters} {k : Known} :
    (∃ u, check ps k = .ok u) ↔ ∀ e, ¬ Refuses ps.get? k e := by
  simp only [← check_eq_error]
  cases check ps k with
  | error e => simp
  | ok u => simp

/-- The keys are checked one after the other. -/
theorem ofParameters_eq_error_iff {ps : Parameters} {e : ParameterError} :
    ofParameters ps = .error e ↔ Known.all.mapM (check ps) = .error e := by
  simp only [ofParameters, Known.all, List.mapM_cons, List.mapM_nil, check, Known.key,
    Known.expected]
  cases setting ps "ext" "swift" ext? "a non-empty file extension" with
  | error _ => simp [bind, Except.bind, Except.map]
  | ok _ =>
    cases setting ps "log" defaultLevel level? "one of trace, debug, info, warn, error, off" with
    | error _ => simp [bind, Except.bind, Except.map]
    | ok _ =>
      cases setting ps "models" true flag? "true or false" with
      | error _ => simp [bind, Except.bind, Except.map]
      | ok _ => simp [bind, Except.bind, Except.map, pure, Except.pure]

/-- The first key with a value that is not allowed is reported. -/
theorem ofParameters_eq_error {ps : Parameters} {e : ParameterError} :
    ofParameters ps = .error e ↔ ∃ before k after, Known.all = before ++ k :: after ∧
      (∀ k' ∈ before, ∀ e', ¬ Refuses ps.get? k' e') ∧ Refuses ps.get? k e := by
  rw [ofParameters_eq_error_iff, Outcome.mapM_eq_error]
  simp only [exists_check_eq_ok, check_eq_error]

theorem ofParameters_congr {ps ps' : Parameters} (h : ∀ k : Known, ps.get? k.key = ps'.get? k.key) :
    ofParameters ps = ofParameters ps' := by
  have hext : ps.get? "ext" = ps'.get? "ext" := h .ext
  have hlog : ps.get? "log" = ps'.get? "log" := h .log
  have hmodels : ps.get? "models" = ps'.get? "models" := h .models
  simp only [ofParameters, setting, hext, hlog, hmodels]

theorem parse_of_accepted {text? : Option String} {ps : Parameters}
    (h : Parameters.parse text? = .ok ps) : parse text? = ofParameters ps := by
  rw [parse, h]
  rfl

/-- **Options are read from the last values of three keys.** Accepted texts that agree on these
values, or on their absence, give the same options or the same error, whatever else is in them. A
text with values that are not allowed gives the error for the first of `ext`, `log` and `models`
whose last value is one of them. -/
theorem parse_lastValues {text? : Option String} {ps : Parameters}
    (h : Parameters.parse text? = .ok ps) :
    (∀ text'? ps', Parameters.parse text'? = .ok ps' →
      (∀ k : Known, lastValue? text? k.key = lastValue? text'? k.key) →
        parse text? = parse text'?) ∧
    ∀ e, parse text? = .error e ↔ ∃ before k after, Known.all = before ++ k :: after ∧
      (∀ k' ∈ before, ∀ e', ¬ Refuses (lastValue? text?) k' e') ∧
        Refuses (lastValue? text?) k e := by
  have hvalue : ∀ k : Known, ps.get? k.key = lastValue? text? k.key :=
    fun k => get?_of_parse h k.key_ne_empty
  constructor
  · intro text'? ps' h' hagree
    rw [parse_of_accepted h, parse_of_accepted h']
    apply ofParameters_congr
    intro k
    rw [hvalue, hagree, get?_of_parse h' k.key_ne_empty]
  · intro e
    rw [parse_of_accepted h, ofParameters_eq_error]
    simp only [Refuses, hvalue]

/-- Both texts report `log`. An extension that was replaced, a key that is not known, the bad value
of `models` and the order of the pairs do not matter. -/
theorem parse_lastValues_replaced :
    let first := some "ext=a/b,models=maybe, log =loud,x=1,ext=.swift"
    let second := some "ext=.swift,log=off,log=loud,models=maybe"
    parse first = .error (.invalidValue "log" "loud" Known.log.expected) ∧
      parse second = parse first := by
  intro first second
  obtain ⟨ps, hps⟩ : ∃ ps, Parameters.parse first = .ok ps :=
    Outcome.exists_eq_ok_iff.2 (by decide +kernel)
  obtain ⟨ps', hps'⟩ : ∃ ps, Parameters.parse second = .ok ps :=
    Outcome.exists_eq_ok_iff.2 (by decide +kernel)
  obtain ⟨hsame, herror⟩ := parse_lastValues hps
  constructor
  · refine (herror _).2 ⟨[.ext], .log, [.models], rfl, ?_, "loud", by decide +kernel,
      by decide +kernel, rfl⟩
    rw [List.forall_mem_singleton]
    rintro e ⟨value, hvalue, hnot, -⟩
    have hlast : lastValue? first Known.ext.key = some ".swift" := by decide +kernel
    rw [hlast] at hvalue
    cases hvalue
    exact hnot (by decide +kernel)
  · refine (hsame second ps' hps' fun k => ?_).symm
    cases k <;> decide +kernel

/-! ## Accepted options -/

theorem ext?_eq_some {value ext : String} :
    ext? value = some ext ↔
      ext.toList = (trim value.toList).dropWhile (· = '.') ∧ ext ≠ "" ∧ '/' ∉ ext.toList := by
  simp only [ext?, Option.ite_none_left_eq_some, Option.some.injEq, not_or]
  constructor
  · rintro ⟨⟨hne, hslash⟩, rfl⟩
    rw [String.toList_ofList]
    exact ⟨rfl, by simpa using hne, hslash⟩
  · rintro ⟨htext, hne, hslash⟩
    rw [← htext, String.ofList_toList]
    exact ⟨⟨by simpa using hne, hslash⟩, rfl⟩

theorem mem_levels_of_level? {value level : String} (h : level? value = some level) :
    level ∈ levels := by
  obtain ⟨hlevel, hsame⟩ := Option.ite_none_right_eq_some.1 h
  rwa [← Option.some.inj hsame]

theorem ofParameters_eq_ok {ps : Parameters} {o : Options} :
    ofParameters ps = .ok o ↔
      setting ps "ext" "swift" ext? Known.ext.expected = .ok o.ext ∧
      setting ps "log" defaultLevel level? Known.log.expected = .ok o.log ∧
      setting ps "models" true flag? Known.models.expected = .ok o.models := by
  simp only [ofParameters, Outcome.bind_eq_ok, Outcome.pure_eq_ok]
  constructor
  · rintro ⟨ext, hext, log, hlog, models, hmodels, rfl⟩
    exact ⟨hext, hlog, hmodels⟩
  · rintro ⟨hext, hlog, hmodels⟩
    exact ⟨_, hext, _, hlog, _, hmodels, rfl⟩

/-- What is true of all options that were read from a text. -/
structure Accepted (o : Options) : Prop where
  ext_ne_empty : o.ext ≠ ""
  no_slash : '/' ∉ o.ext.toList
  no_comma : ',' ∉ o.ext.toList
  no_dot : o.ext.toList.head? ≠ some '.'
  no_blank : ∀ c ∈ o.ext.toList.getLast?, isBlank c = false
  level : o.log ∈ levels

/-- The extension is the default, or what the last value of its key is read as. -/
theorem ext_of_parse {text? : Option String} {o : Options} (h : parse text? = .ok o) :
    (lastValue? text? Known.ext.key = none ∧ o.ext = "swift") ∨
      ∃ value, lastValue? text? Known.ext.key = some value ∧ ext? value = some o.ext := by
  obtain ⟨ps, hps, ho⟩ := Outcome.bind_eq_ok.1 h
  rw [← get?_of_parse hps Known.ext.key_ne_empty]
  exact setting_eq_ok.1 (ofParameters_eq_ok.1 ho).1

theorem accepted_of_parse {text? : Option String} {o : Options} (h : parse text? = .ok o) :
    Accepted o := by
  have hlevel : o.log ∈ levels := by
    obtain ⟨ps, -, ho⟩ := Outcome.bind_eq_ok.1 h
    rcases setting_eq_ok.1 (ofParameters_eq_ok.1 ho).2.1 with ⟨-, hlog⟩ | ⟨value, -, hlog⟩
    · rw [hlog]
      decide
    · exact mem_levels_of_level? hlog
  rcases ext_of_parse h with ⟨-, hext⟩ | ⟨value, hvalue, hext⟩
  · have htrimmed : Trimmed "swift".toList := by decide
    rw [← hext] at htrimmed
    refine ⟨?_, ?_, ?_, ?_, htrimmed.2, hlevel⟩
    all_goals
      rw [hext]
      decide
  · obtain ⟨htext, hne, hslash⟩ := ext?_eq_some.1 hext
    refine ⟨hne, hslash, ?_, ?_, ?_, hlevel⟩
    · rw [htext, mem_dropWhile_iff (by decide), mem_trim_iff (by decide)]
      exact comma_not_mem_of_lastValue? hvalue
    · intro hdot
      rw [htext] at hdot
      simpa using head?_dropWhile hdot
    · intro c hc
      -- the extension is the end of the trimmed value
      obtain ⟨dots, hdots⟩ := List.dropWhile_suffix (l := trim value.toList) (· = '.')
      refine (trimmed_trim value.toList).2 c ?_
      rw [← hdots, ← htext, List.getLast?_append, Option.mem_def, Option.mem_def.1 hc,
        Option.some_or]

/-! ## Writing options -/

def flagText : Bool → String
  | true => "true"
  | false => "false"

/-- Options as a text of parameters. -/
def print (o : Options) : String :=
  Parameters.print
    [(Known.ext.key, o.ext), (Known.models.key, flagText o.models), (Known.log.key, o.log)]

theorem printable_known (k : Known) {value : String} (h : ',' ∉ value.toList) :
    Printable (k.key, value) := by
  obtain ⟨htrimmed, hequals, hcomma⟩ :
      Trimmed k.key.toList ∧ '=' ∉ k.key.toList ∧ ',' ∉ k.key.toList := by
    cases k <;> decide +kernel
  exact ⟨k.key_ne_empty, htrimmed, hequals, hcomma, h⟩

theorem parse_print {o : Options} (h : Accepted o) :
    Parameters.parse (some (print o)) = .ok
      ⟨[(Known.ext.key, o.ext), (Known.models.key, flagText o.models),
        (Known.log.key, o.log)]⟩ := by
  have hlog : ∀ level ∈ levels, ',' ∉ level.toList := by decide +kernel
  have hflag : ',' ∉ (flagText o.models).toList := by
    cases o.models <;> decide
  apply Parameters.parse_print
  · show [Known.ext.key, Known.models.key, Known.log.key].Nodup
    decide
  · simp only [List.forall_mem_cons, List.not_mem_nil, false_implies, implies_true, and_true]
    exact ⟨printable_known .ext h.no_comma, printable_known .models hflag,
      printable_known .log (hlog _ h.level)⟩

/-- An extension that was read is read as itself if no blank comes first. -/
theorem ext?_self {o : Options} (h : Accepted o) :
    ext? o.ext = some o.ext ↔ Trimmed o.ext.toList := by
  rw [ext?_eq_some]
  constructor
  · rintro ⟨htext, -⟩
    refine ⟨?_, h.no_blank⟩
    have hlength : o.ext.toList.length ≤ (o.ext.toList.dropWhile isBlank).length := by
      conv_lhs => rw [htext]
      exact (List.dropWhile_suffix _).length_le.trans (isPrefix_trimEnd _).length_le
    have hself := (List.dropWhile_suffix isBlank).eq_of_length_le hlength
    intro c hc
    rw [← hself] at hc
    exact head?_dropWhile hc
  · intro htrimmed
    have hdot : ∀ c ∈ o.ext.toList.head?, decide (c = '.') = false := by
      rintro c hc
      have hne : c ≠ '.' := fun hdot => h.no_dot (hdot ▸ hc)
      simpa using hne
    rw [trim_of_trimmed htrimmed, dropWhile_eq_self hdot]
    exact ⟨rfl, h.ext_ne_empty, h.no_slash⟩

theorem parse_print_eq_ok {o : Options} (h : Accepted o) :
    parse (some (print o)) = .ok o ↔ Trimmed o.ext.toList := by
  have hlevel : ∀ level ∈ levels, level? level = some level := by decide +kernel
  have hflag : flag? (flagText o.models) = some o.models := by
    cases o.models <;> decide +kernel
  rw [parse_of_accepted (parse_print h), ofParameters_eq_ok, ← ext?_self h]
  simp [setting_eq_ok, Dictionary.get?, List.lookup_cons, Known.key, hlevel _ h.level, hflag]

/-! ## A blank behind the dots -/

/-- The last value for the extension has dots in front, and behind them a blank. -/
def BlankBehindDots (text? : Option String) : Prop :=
  ∃ value dots c rest, lastValue? text? Known.ext.key = some value ∧
    trim value.toList = dots ++ c :: rest ∧ dots ≠ [] ∧ (∀ d ∈ dots, d = '.') ∧ isBlank c = true

theorem trimmed_ext_iff {text? : Option String} {o : Options} (h : parse text? = .ok o) :
    Trimmed o.ext.toList ↔ ¬ BlankBehindDots text? := by
  rcases ext_of_parse h with ⟨hvalue, hext⟩ | ⟨value, hvalue, hext⟩
  · rw [hext]
    refine iff_of_true (by decide +kernel) ?_
    rintro ⟨value, -, -, -, hsome, -⟩
    rw [hvalue] at hsome
    cases hsome
  · obtain ⟨htext, hne, -⟩ := ext?_eq_some.1 hext
    constructor
    · rintro htrimmed ⟨value', dots, c, rest, hvalue', hsplit, -, hdots, hblank⟩
      rw [hvalue] at hvalue'
      cases hvalue'
      have hc : c ≠ '.' := by
        rintro rfl
        exact absurd hblank (by decide)
      -- all the dots go, and the blank comes first
      rw [hsplit, List.dropWhile_append_of_pos (by simpa using hdots),
        List.dropWhile_cons_of_neg (by simpa using hc)] at htext
      have hfirst := htrimmed.1 c (by rw [htext]; rfl)
      rw [hblank] at hfirst
      cases hfirst
    · intro hnone
      refine ⟨fun c hc => ?_, (accepted_of_parse h).no_blank⟩
      by_contra hblank
      obtain ⟨rest, hrest⟩ := List.head?_eq_some_iff.1 hc
      have hsplit := List.takeWhile_append_dropWhile (p := (· = '.')) (l := trim value.toList)
      rw [← htext, hrest] at hsplit
      refine hnone ⟨value, _, c, rest, hvalue, hsplit.symm, ?_, ?_, by simpa using hblank⟩
      · intro hnil
        -- without dots the blank would be the first character of a trimmed text
        rw [hnil, List.nil_append] at hsplit
        exact hblank ((trimmed_trim value.toList).1 c (by rw [← hsplit]; rfl))
      · intro d hd
        simpa using List.mem_takeWhile_imp hd

/-- **Accepted options are normal, but for a blank behind the dots.** An accepted extension is not
empty, has no slash in it, no dot in front and no blank at the end. The text that is written for
accepted options is read back to the same options exactly if the extension has no blank in front
either, and that is so unless the extension was given with dots and a blank behind them. -/
theorem parse_normal {text? : Option String} {o : Options} (h : parse text? = .ok o) :
    o.ext ≠ "" ∧ '/' ∉ o.ext.toList ∧ o.ext.toList.head? ≠ some '.' ∧
    (∀ c ∈ o.ext.toList.getLast?, isBlank c = false) ∧
    (parse (some (print o)) = .ok o ↔ Trimmed o.ext.toList) ∧
    (Trimmed o.ext.toList ↔ ¬ BlankBehindDots text?) := by
  have ho := accepted_of_parse h
  exact ⟨ho.ext_ne_empty, ho.no_slash, ho.no_dot, ho.no_blank, parse_print_eq_ok ho,
    trimmed_ext_iff h⟩

/-- Dots and blanks around an extension go, and what is left is written and read back. -/
theorem parse_normal_dots :
    let o : Options := { ext := "tar.gz", models := false, log := "debug" }
    parse (some "log=DEBUG,ext= ..tar.gz ,models= 0") = .ok o ∧
      print o = "ext=tar.gz,models=false,log=debug" ∧ parse (some (print o)) = .ok o := by
  intro o
  have ho : parse (some "log=DEBUG,ext= ..tar.gz ,models= 0") = .ok o := by decide +kernel
  obtain ⟨-, -, -, -, hback, -⟩ := parse_normal ho
  exact ⟨ho, by decide +kernel, hback.2 (by decide +kernel)⟩

/-- A blank behind the dots stays in the extension. Written and read again, the extension is another
one, or it is not accepted any more. -/
theorem parse_blankBehindDots :
    parse (some "ext=. dart") = .ok { ext := " dart" } ∧
    parse (some (print { ext := " dart" })) = .ok { ext := "dart" } ∧
    parse (some "ext=. .") = .ok { ext := " ." } ∧
    parse (some (print { ext := " ." })) =
      .error (.invalidValue "ext" " ." Known.ext.expected) := by
  decide +kernel

end SwiftRpc.Options
