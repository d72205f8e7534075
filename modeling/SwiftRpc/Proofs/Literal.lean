import SwiftRpc.Proofs.Template
import SwiftRpc.Swift.Spelling

/-!
# Reading text literals

A literal is read from the left: a backslash stands for the character behind it, and the first quote
that is met otherwise ends the literal. Quoting a text is two searches, for backslashes and then for
quotes. The second one leaves alone what the first one put in, so reading gives the text back and
stops at the last character of the literal, whatever is written behind it.
-/

namespace SwiftRpc.Text

/-- A search for one character looks at every character by itself. -/
theorem replaceFrom_singleton (c : Char) (new s : List Char) :
    replaceFrom [c] new 0 s = s.flatMap fun d => if d = c then new else [d] := by
  induction s with
  | nil => rfl
  | cons d rest ih =>
    rw [List.flatMap_cons, ← ih]
    by_cases hd : d = c
    · rw [if_pos hd, hd]
      exact replaceFrom_self (List.cons_ne_nil c []) new rest
    · rw [if_neg hd, List.singleton_append]
      apply replaceFrom_cons
      rintro ⟨more, hmore⟩
      exact hd (List.cons.inj hmore).1.symm

end SwiftRpc.Text

namespace SwiftRpc.Swift

open SwiftRpc.Text

/-! ## Quoting -/

theorem quoteChars_eq_flatMap (s : List Char) :
    quoteChars s = s.flatMap fun c => if c = '\\' ∨ c = '"' then ['\\', c] else [c] := by
  induction s with
  | nil => rfl
  | cons c rest ih =>
    rw [quoteChars, List.flatMap_cons, ← ih]
    split
    · rfl
    · rfl

/-- What is put in front of a backslash is no quote, so it is not met again. -/
theorem quoteChars_eq_replaceFrom (s : List Char) :
    quoteChars s = replaceFrom ['"'] ['\\', '"'] 0 (replaceFrom ['\\'] ['\\', '\\'] 0 s) := by
  rw [replaceFrom_singleton, replaceFrom_singleton, List.flatMap_assoc, quoteChars_eq_flatMap]
  apply List.flatMap_congr
  intro c _
  by_cases hback : c = '\\'
  · rw [hback]
    rfl
  · rw [if_neg hback, List.flatMap_singleton]
    by_cases hquote : c = '"'
    · rw [hquote]
      rfl
    · rw [if_neg hquote, if_neg (by rintro (h | h) <;> contradiction)]

theorem textLiteral_eq_replaceAll (s : String) :
    textLiteral s =
      "\"" ++ replaceAll "\"" "\\\"" (replaceAll "\\" "\\\\" s) ++ "\"" := by
  have hback : "\\".toList = ['\\'] ∧ "\\\\".toList = ['\\', '\\'] := by decide
  have hquote : "\"".toList = ['"'] ∧ "\\\"".toList = ['\\', '"'] := by decide
  rw [textLiteral, quoteChars_eq_replaceFrom, replaceAll, replaceAll, hback.1, hback.2, hquote.1,
    hquote.2, String.toList_ofList]

theorem toList_textLiteral (s : String) :
    (textLiteral s).toList = '"' :: (quoteChars s.toList ++ ['"']) := by
  simp [textLiteral]

/-! ## Reading -/

/-- What the text between the quotes of a literal says. It must not hold a quote of its own, nor end
in a backslash that stands for nothing. -/
def unquote? : List Char → Option (List Char)
  | [] => some []
  | ['\\'] => none
  | '\\' :: c :: rest => (unquote? rest).map (c :: ·)
  | c :: rest => if c = '"' then none else (unquote? rest).map (c :: ·)

/-- Reads up to the quote that ends a literal: what the literal says, and what follows it. -/
def readToQuote? : List Char → Option (List Char × List Char)
  | [] => none
  | ['\\'] => none
  | '\\' :: c :: rest => (readToQuote? rest).map fun read => (c :: read.1, read.2)
  | c :: rest =>
    if c = '"' then some ([], rest)
    else (readToQuote? rest).map fun read => (c :: read.1, read.2)

/-- Reads the literal that a text starts with. -/
def readLiteral? : List Char → Option (List Char × List Char)
  | '"' :: rest => readToQuote? rest
  | _ => none

theorem unquote?_cons {c : Char} (h : c ≠ '\\') (rest : List Char) :
    unquote? (c :: rest) = if c = '"' then none else (unquote? rest).map (c :: ·) := by
  rw [unquote?.eq_def]
  simp [h]

theorem readToQuote?_cons {c : Char} (h : c ≠ '\\') (rest : List Char) :
    readToQuote? (c :: rest) =
      if c = '"' then some ([], rest)
      else (readToQuote? rest).map fun read => (c :: read.1, read.2) := by
  rw [readToQuote?.eq_def]
  simp [h]

theorem unquote?_quoteChars (s : List Char) : unquote? (quoteChars s) = some s := by
  induction s with
  | nil => rfl
  | cons c rest ih =>
    rw [quoteChars]
    split
    · show (unquote? (quoteChars rest)).map (c :: ·) = some (c :: rest)
      rw [ih]
      rfl
    · rename_i hplain
      rw [not_or] at hplain
      rw [unquote?_cons hplain.1, if_neg hplain.2, ih]
      rfl

/-- What can be read to its end is left at the first quote behind it, and nowhere before. -/
theorem readToQuote?_append {body text : List Char} (h : unquote? body = some text)
    (rest : List Char) : readToQuote? (body ++ '"' :: rest) = some (text, rest) := by
  fun_induction unquote? body generalizing text with
  | case1 =>
    cases h
    rfl
  | case2 => cases h
  | case3 c body ih =>
    obtain ⟨tail, htail, rfl⟩ := Option.map_eq_some_iff.1 h
    show (readToQuote? (body ++ '"' :: rest)).map _ = _
    rw [ih htail]
    rfl
  | case4 => cases h
  | case5 c body hend hback hquote ih =>
    obtain ⟨tail, htail, rfl⟩ := Option.map_eq_some_iff.1 h
    have hc : c ≠ '\\' := by
      rintro rfl
      cases body with
      | nil => exact hend rfl rfl
      | cons d body => exact hback d body rfl rfl
    rw [List.cons_append, readToQuote?_cons hc, if_neg hquote, ih htail]
    rfl

/-- A literal is read to its end and no further, whatever is written behind it. -/
theorem readLiteral?_textLiteral (s : String) (rest : List Char) :
    readLiteral? ((textLiteral s).toList ++ rest) = some (s.toList, rest) := by
  rw [toList_textLiteral, List.cons_append, List.append_assoc]
  exact readToQuote?_append (unquote?_quoteChars s.toList) rest

theorem textLiteral_injective : Function.Injective textLiteral := by
  intro s t h
  have hs := readLiteral?_textLiteral s []
  rw [h, readLiteral?_textLiteral t []] at hs
  exact String.toList_inj.1 (Prod.mk.inj (Option.some.inj hs)).1.symm

/-- **Literals say what was quoted.** Quoting puts a backslash in front of every backslash and then
in front of every quote. Read from the left, the text between the two outer quotes is used up and
gives back what was quoted. So the literal ends at its last character in whatever text it stands,
and different texts have different literals. -/
theorem textLiteral_reads :
    (∀ s : String,
      textLiteral s = "\"" ++ replaceAll "\"" "\\\"" (replaceAll "\\" "\\\\" s) ++ "\"" ∧
      (∃ body, (textLiteral s).toList = '"' :: (body ++ ['"']) ∧ unquote? body = some s.toList) ∧
      ∀ rest, readLiteral? ((textLiteral s).toList ++ rest) = some (s.toList, rest)) ∧
    Function.Injective textLiteral := by
  refine ⟨?_, textLiteral_injective⟩
  intro s
  refine ⟨textLiteral_eq_replaceAll s, ?_, readLiteral?_textLiteral s⟩
  exact ⟨quoteChars s.toList, toList_textLiteral s, unquote?_quoteChars s.toList⟩

/-- In the other order the backslash of a quote is doubled, and the quote stands alone. -/
example : replaceAll "\\" "\\\\" (replaceAll "\"" "\\\"" "a\"b") = "a\\\\\"b" := by
  decide +kernel

end SwiftRpc.Swift
