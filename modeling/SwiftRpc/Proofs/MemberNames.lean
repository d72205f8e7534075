import Mathlib.Data.Set.Function
import SwiftRpc.Proofs.Casing
import SwiftRpc.Swift.Spelling

/-!
# The names of properties and cases

A property is called as its field in camel case, a case as its value without the name of the
enumeration in front. For names that keep to the conventions nothing is lost on the way: the name of
the schema can be read off the Swift name again, so no two members of a type fall together. For any
identifier the name is one that Swift accepts.
-/

namespace SwiftRpc.Swift

open SwiftRpc.Text
open SwiftRpc.Name (IsIdentifier IsWord Snake snakeChars)

/-! ## Escaping -/

/-- A name without the backticks around it. -/
def unescape (name : String) : List Char := name.toList.filter (· ≠ '\x60')

theorem unescape_escape {name : String} (h : '\x60' ∉ name.toList) :
    unescape (escape name) = name.toList := by
  have hkeep : name.toList.filter (· ≠ '\x60') = name.toList := by
    rw [List.filter_eq_self]
    intro c hc
    simpa using ne_of_mem_of_not_mem hc h
  unfold escape unescape
  split
  · have hquote : "\x60".toList.filter (· ≠ '\x60') = [] := by decide
    rw [String.toList_append, String.toList_append, List.filter_append, List.filter_append, hkeep,
      hquote, List.nil_append, List.append_nil]
  · exact hkeep

/-! ## Properties -/

/-- The field's name is read off the property's name. -/
theorem snakeChars_propertyName {field : String} (h : Snake Char.isLower field.toList) :
    snakeChars (unescape (propertyName field)) = field.toList := by
  have hplain : '\x60' ∉ (Name.lowerCamel field).toList := by
    intro hmem
    rw [Name.lowerCamel, String.toList_ofList, Name.lowerCamelChars] at hmem
    have halnum : ∀ c ∈ field.toList.dropWhile (· = '_'), c.isAlphanum = true ∨ c = '_' := by
      intro c hc
      have hc' := h.mem ((List.dropWhile_suffix _).subset hc)
      exact hc'.imp_left isAlphanum_of_lower
    cases Name.isAlphanum_of_mem_camelFrom halnum _ hmem
  rw [propertyName, unescape_escape hplain, Name.lowerCamel, String.toList_ofList,
    Name.snakeChars_lowerCamelChars h]

/-! ## Cases -/

/-- The name of the enumeration is dropped if a letter follows it. -/
theorem bareValueName_append (enumeration rest : String) :
    bareValueName enumeration (Name.upperSnake enumeration ++ "_" ++ rest) =
      if rest.toList.head?.any Char.isAlpha then rest
      else Name.upperSnake enumeration ++ "_" ++ rest := by
  have htext : (Name.upperSnake enumeration ++ "_" ++ rest).toList =
      (Name.upperSnakeChars enumeration.toList ++ ['_']) ++ rest.toList := by
    simp [Name.upperSnake]
  rw [bareValueName, htext, if_pos (List.isPrefixOf_iff_prefix.2 (List.prefix_append _ _)),
    List.drop_left]
  cases hrest : rest.toList with
  | nil => rfl
  | cons c more =>
    have hback : String.ofList (c :: more) = rest := by rw [← hrest, String.ofList_toList]
    show (if c.isAlpha = true then String.ofList (c :: more) else _) = _
    rw [hback]
    rfl

theorem caseName_append (enumeration rest : String) :
    caseName enumeration (Name.upperSnake enumeration ++ "_" ++ rest) =
      escape (Name.lowerCamel (String.ofList (lowerAscii
        (if rest.toList.head?.any Char.isAlpha then rest
          else Name.upperSnake enumeration ++ "_" ++ rest).toList))) := by
  rw [caseName, bareValueName_append]

theorem head?_isAlpha_of_snake {s : List Char} (h : Snake Char.isUpper s) :
    s.head?.any Char.isAlpha = true := by
  obtain ⟨w, ws, -, hw, -, rfl⟩ := h.exists_words
  obtain ⟨c, rest, rfl, hc, -⟩ := hw.exists_cons
  show (c.isUpper || c.isLower) = true
  rw [hc, Bool.true_or]

/-- A case whose value has only the name of the enumeration in front is called as a property. -/
theorem caseName_of_snake (enumeration : String) {w : String} (h : Snake Char.isUpper w.toList) :
    caseName enumeration (Name.upperSnake enumeration ++ "_" ++ w) =
      propertyName (String.ofList (lowerAscii w.toList)) := by
  rw [caseName_append, if_pos (head?_isAlpha_of_snake h), propertyName]

/-- The rest of the value's name is read off the case's name. -/
theorem map_toUpper_caseName (enumeration : String) {w : String}
    (h : Snake Char.isUpper w.toList) :
    (snakeChars (unescape (caseName enumeration
      (Name.upperSnake enumeration ++ "_" ++ w)))).map Char.toUpper = w.toList := by
  have hlower : Snake Char.isLower (String.ofList (lowerAscii w.toList)).toList := by
    rw [String.toList_ofList]
    exact h.toLower
  rw [caseName_of_snake enumeration h, snakeChars_propertyName hlower, String.toList_ofList,
    h.map_toUpper_lowerAscii]

/-! ## Conventional members -/

/-- **Conventional members have distinct names.** Different fields in snake case have different
properties. Different values of an enumeration that have its name in front and go on in capitals
have different cases. -/
theorem memberNames_injOn :
    Set.InjOn propertyName {field | Snake Char.isLower field.toList} ∧
    ∀ enumeration : String, Set.InjOn (caseName enumeration)
      {value | ∃ w : String, Snake Char.isUpper w.toList ∧
        value = Name.upperSnake enumeration ++ "_" ++ w} := by
  refine ⟨?_, ?_⟩
  · intro a ha b hb heq
    rw [← String.toList_inj, ← snakeChars_propertyName ha, heq, snakeChars_propertyName hb]
  · rintro enumeration _ ⟨w, hw, rfl⟩ _ ⟨w', hw', rfl⟩ heq
    have hrest : w = w' := by
      rw [← String.toList_inj, ← map_toUpper_caseName enumeration hw, heq,
        map_toUpper_caseName enumeration hw']
    rw [hrest]

/-- Reserved words are put between backticks and stay apart from their neighbours. -/
theorem memberNames_injOn_reserved :
    propertyName "default" ≠ propertyName "de_fault" ∧
      caseName "TrackType" "TRACK_TYPE_SELF" ≠ caseName "TrackType" "TRACK_TYPE_SEL_F" := by
  constructor
  · intro h
    exact absurd (memberNames_injOn.1 (by decide +kernel) (by decide +kernel) h) (by decide)
  · intro h
    refine absurd (memberNames_injOn.2 "TrackType" ⟨"SELF", ?_, ?_⟩ ⟨"SEL_F", ?_, ?_⟩ h) (by decide)
    all_goals decide +kernel

/-- Without the conventions members do fall together. -/
example : propertyName "created_at" = propertyName "createdAt" := by decide +kernel

/-- **The name of an enumeration is dropped from its values.** If the enumeration is called by words
with capitals, its name in front of a value is the same words in capitals, with underscores between
them. What follows it and an underscore gives the case if it starts with a letter; otherwise the
whole value does. -/
theorem caseName_conventional {words : List (List Char)} (hne : words ≠ [])
    (hwords : ∀ w ∈ words, IsWord Char.isLower w) :
    let enumeration := String.ofList (words.flatMap (·.modifyHead Char.toUpper))
    let lead := String.ofList (List.intercalate ['_'] (words.map (·.map Char.toUpper)))
    Name.upperSnake enumeration = lead ∧
    ∀ rest : String,
      (rest.toList.head?.any Char.isAlpha = true →
        caseName enumeration (lead ++ "_" ++ rest) =
          escape (Name.lowerCamel (String.ofList (lowerAscii rest.toList)))) ∧
      (rest.toList.head?.any Char.isAlpha = false →
        caseName enumeration (lead ++ "_" ++ rest) =
          escape (Name.lowerCamel (String.ofList (lowerAscii (lead ++ "_" ++ rest).toList)))) := by
  intro enumeration lead
  have hlead : Name.upperSnake enumeration = lead := by
    rw [Name.upperSnake, String.toList_ofList, Name.upperSnakeChars_words hne hwords]
  refine ⟨hlead, ?_⟩
  intro rest
  have hcase := caseName_append enumeration rest
  rw [hlead] at hcase
  constructor
  · intro hletter
    rw [hcase, if_pos hletter]
  · intro hno
    rw [hcase, if_neg (by simp [hno])]

/-- Digits inside the words of `Mp3Track`, and values that go on with a letter, with a digit and
with nothing. -/
theorem caseName_conventional_digits :
    caseName "Mp3Track" "MP3_TRACK_IN" = "\x60in\x60" ∧
      caseName "Mp3Track" "MP3_TRACK_2" = "mp3Track2" ∧
      caseName "Mp3Track" "MP3_TRACK_" = "mp3Track" := by
  have hwords : ∀ w ∈ ["mp3".toList, "track".toList], IsWord Char.isLower w := by decide +kernel
  obtain ⟨-, hcases⟩ := caseName_conventional (List.cons_ne_nil _ _) hwords
  refine ⟨((hcases "IN").1 ?_).trans ?_, ((hcases "2").2 ?_).trans ?_, ((hcases "").2 ?_).trans ?_⟩
  all_goals decide +kernel

/-! ## Valid names -/

/-- What may stand for a member: a word that is not reserved, or a reserved one between
backticks. -/
def IsMemberName (name : String) : Prop :=
  (IsWord Char.isAlpha name.toList ∧ name ∉ reservedWords) ∨
    ∃ w ∈ reservedWords, IsWord Char.isAlpha w.toList ∧ name = "\x60" ++ w ++ "\x60"

theorem isMemberName_escape {name : String} (h : IsWord Char.isAlpha name.toList) :
    IsMemberName (escape name) := by
  unfold escape
  split
  · rename_i hreserved
    exact Or.inr ⟨name, hreserved, h, rfl⟩
  · rename_i hfree
    exact Or.inl ⟨h, hfree⟩

theorem isMemberName_lowerCamel {name : String} (h : IsIdentifier name.toList) :
    IsMemberName (escape (Name.lowerCamel name)) := by
  apply isMemberName_escape
  rw [Name.lowerCamel, String.toList_ofList]
  exact h.isWord_lowerCamelChars

/-- The name of the enumeration is dropped only where a letter follows it. -/
theorem isIdentifier_bareValueName (enumeration : String) {value : String}
    (h : IsIdentifier value.toList) : IsIdentifier (bareValueName enumeration value).toList := by
  unfold bareValueName
  dsimp only
  split
  · split
    · rename_i c rest hdrop
      split
      · rename_i hc
        rw [String.toList_ofList]
        exact h.of_suffix (hdrop ▸ List.drop_suffix _ _) hc
      · exact h
    · exact h
  · exact h

/-- **Members have valid names.** A property or a case that comes from an identifier of the schema
is called by a word that is not reserved, or by a reserved word between one pair of backticks,
whatever the enumeration is called. -/
theorem memberNames_valid {name : String} (h : IsIdentifier name.toList) :
    IsMemberName (propertyName name) ∧
      ∀ enumeration : String, IsMemberName (caseName enumeration name) := by
  refine ⟨isMemberName_lowerCamel h, ?_⟩
  intro enumeration
  apply isMemberName_lowerCamel
  rw [String.toList_ofList]
  exact (isIdentifier_bareValueName enumeration h).toLower

/-- The enumeration `ß` is `SS` in capitals. A reserved word is left of the first value, a digit
would be left of the second one. -/
theorem memberNames_valid_sharp :
    (IsIdentifier "SS_IN".toList ∧ IsMemberName (propertyName "SS_IN") ∧
      caseName "ß" "SS_IN" = "\x60in\x60" ∧ IsMemberName (caseName "ß" "SS_IN")) ∧
    IsIdentifier "SS__9".toList ∧ IsMemberName (propertyName "SS__9") ∧
      caseName "ß" "SS__9" = "ss9" ∧ IsMemberName (caseName "ß" "SS__9") := by
  have hin : IsIdentifier "SS_IN".toList := by decide +kernel
  have hnine : IsIdentifier "SS__9".toList := by decide +kernel
  obtain ⟨hproperty, hcase⟩ := memberNames_valid hin
  obtain ⟨hproperty', hcase'⟩ := memberNames_valid hnine
  exact ⟨⟨hin, hproperty, by decide +kernel, hcase "ß"⟩,
    hnine, hproperty', by decide +kernel, hcase' "ß"⟩

end SwiftRpc.Swift
