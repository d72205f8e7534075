import Mathlib.Data.List.Chain
import SwiftRpc.Proofs.Outcome
import SwiftRpc.Swift.Client

/-!
# Filling a template is substituting

The slots of a template are filled one after the other, each by a search through the whole text. A
value that was filled in may hold braces, and so could be taken for a marker, alone or together with
the text beside it. In a template that is `Spaced` this takes two braces inside the value: a slot
has text on both sides that neither starts nor ends with a brace. So as long as the values that
later searches go through have no two braces in a row, filling puts every value in the place of its
slots and changes nothing else (`substitute`). The last value may be anything.
-/

namespace SwiftRpc.Text

/-- Every marker starts with two braces. -/
def Unbraced (s : List Char) : Prop := ¬ ['\x7b', '\x7b'] <:+: s

instance (s : List Char) : Decidable (Unbraced s) := inferInstanceAs (Decidable (¬ _))

/-! ## Replacing -/

theorem replaceFrom_skip (old new s t : List Char) :
    replaceFrom old new s.length (s ++ t) = replaceFrom old new 0 t := by
  induction s with
  | nil => rfl
  | cons c rest ih => exact ih

theorem replaceFrom_self {old : List Char} (hne : old ≠ []) (new t : List Char) :
    replaceFrom old new 0 (old ++ t) = new ++ replaceFrom old new 0 t := by
  obtain ⟨c, rest, rfl⟩ := List.exists_cons_of_ne_nil hne
  have hfound : (c :: rest).isPrefixOf (c :: (rest ++ t)) = true :=
    List.isPrefixOf_iff_prefix.2 (List.prefix_append (c :: rest) t)
  rw [List.cons_append, replaceFrom, if_pos hfound, List.length_cons, Nat.add_sub_cancel,
    replaceFrom_skip]

theorem replaceFrom_cons {old : List Char} {c : Char} {s : List Char} (h : ¬ old <+: c :: s)
    (new : List Char) : replaceFrom old new 0 (c :: s) = c :: replaceFrom old new 0 s := by
  rw [replaceFrom, if_neg]
  rwa [List.isPrefixOf_iff_prefix]

/-- A marker is searched for behind a text that it cannot start in. -/
theorem replaceFrom_append {name s : List Char} (hs : Unbraced s) {t : List Char}
    (hjoin : ¬ (s.getLast? = some '\x7b' ∧ t.head? = some '\x7b')) (new : List Char) :
    replaceFrom ('\x7b' :: '\x7b' :: name) new 0 (s ++ t) =
      s ++ replaceFrom ('\x7b' :: '\x7b' :: name) new 0 t := by
  induction s with
  | nil => rfl
  | cons c rest ih =>
    have hstart : ¬ '\x7b' :: '\x7b' :: name <+: c :: (rest ++ t) := by
      rw [List.cons_prefix_cons]
      rintro ⟨rfl, hnext⟩
      cases rest with
      | nil =>
        obtain ⟨more, hmore⟩ := hnext
        exact hjoin ⟨rfl, by rw [← List.nil_append t, ← hmore]; rfl⟩
      | cons d rest =>
        rw [List.cons_append, List.cons_prefix_cons] at hnext
        rw [← hnext.1] at hs
        exact hs (List.prefix_append ['\x7b', '\x7b'] rest).isInfix
    have hrest : Unbraced rest := fun h => hs (h.trans (List.suffix_cons c rest).isInfix)
    rw [List.cons_append, replaceFrom_cons hstart, ih hrest, List.cons_append]
    rintro ⟨hlast, hhead⟩
    cases rest with
    | nil => cases hlast
    | cons d rest => exact hjoin ⟨by rwa [List.getLast?_cons_cons], hhead⟩

end SwiftRpc.Text

namespace SwiftRpc.Swift

open SwiftRpc.Api
open SwiftRpc.Text

/-! ## Markers -/

namespace Slot

/-- After its first brace a marker has no two braces in a row and does not end with one. -/
theorem marker_eq (s : Slot) :
    ∃ name, s.marker.toList = '\x7b' :: '\x7b' :: name ∧ Unbraced ('\x7b' :: name) ∧
      ('\x7b' :: name).getLast? ≠ some '\x7b' := by
  refine ⟨s.marker.toList.drop 2, ?_⟩
  cases s <;> decide +kernel

theorem not_prefix_marker {s s' : Slot} (h : s ≠ s') (t : List Char) :
    ¬ s.marker.toList <+: s'.marker.toList ++ t := by
  have hmarkers : ∀ a ∈ all, ∀ b ∈ all, a.marker.toList <+: b.marker.toList → a = b := by
    decide +kernel
  have hall : ∀ a : Slot, a ∈ all := by
    intro a
    cases a <;> decide
  intro hbegin
  -- of two beginnings of one text one is the beginning of the other
  rcases List.prefix_or_prefix_of_prefix hbegin (List.prefix_append _ t) with hle | hle
  · exact h (hmarkers s (hall s) s' (hall s') hle)
  · exact h (hmarkers s' (hall s') s (hall s) hle).symm

end Slot

/-! ## Segments -/

namespace Segment

def toList : Segment → List Char
  | .text s => s.toList
  | .slot s => s.marker.toList

/-- A slot becomes its value. -/
def put (slot : Slot) (value : String) : Segment → Segment
  | .text s => .text s
  | .slot s => if s = slot then .text value else .slot s

/-- Text that starts and ends with something else than a brace. -/
def Solid : Segment → Prop
  | .text s =>
    s.toList ≠ [] ∧ s.toList.head? ≠ some '\x7b' ∧ s.toList.getLast? ≠ some '\x7b'
  | .slot _ => False

/-- Text without two braces in a row, or a slot. -/
def Quiet : Segment → Prop
  | .text s => Unbraced s.toList
  | .slot _ => True

theorem Solid.put {seg : Segment} (h : seg.Solid) (slot : Slot) (value : String) :
    (seg.put slot value).Solid := by
  cases seg with
  | text s => exact h
  | slot s => exact h.elim

theorem Quiet.put {seg : Segment} (h : seg.Quiet) (slot : Slot) {value : String}
    (hvalue : Unbraced value.toList) : (seg.put slot value).Quiet := by
  cases seg with
  | text s => exact h
  | slot s =>
    rw [Segment.put]
    split
    · exact hvalue
    · trivial

end Segment

/-! ## Templates -/

namespace Template

/-- Every slot replaced by its value, all at once. -/
def substitute (t : Template) (values : Slot → String) : String :=
  String.join <| t.map fun
    | .text s => s
    | .slot s => values s

def put (t : Template) (slot : Slot) (value : String) : Template := t.map (·.put slot value)

/-- No two braces in a row but in markers, and of two neighbours one is solid. -/
structure Spaced (t : Template) : Prop where
  quiet : ∀ seg ∈ t, seg.Quiet
  solid : t.IsChain fun a b => a.Solid ∨ b.Solid

variable {t : Template}

theorem Spaced.put (h : t.Spaced) (slot : Slot) {value : String}
    (hvalue : Unbraced value.toList) : (t.put slot value).Spaced := by
  constructor
  · intro seg hseg
    obtain ⟨old, hold, rfl⟩ := List.mem_map.1 hseg
    exact (h.quiet old hold).put slot hvalue
  · rw [Template.put, List.isChain_map]
    refine h.solid.imp fun a b hab => ?_
    rcases hab with ha | hb
    · exact Or.inl (ha.put slot value)
    · exact Or.inr (hb.put slot value)

theorem toList_source (t : Template) : t.source.toList = t.flatMap (·.toList) := by
  rw [source, String.toList_join, List.flatMap_map]
  refine List.flatMap_congr fun seg _ => ?_
  cases seg <;> rfl

/-- No marker starts where a text meets what follows it. -/
theorem Spaced.not_joined {s : String} {rest : Template} (h : Spaced (.text s :: rest)) :
    ¬ (s.toList.getLast? = some '\x7b' ∧ (rest.flatMap (·.toList)).head? = some '\x7b') := by
  rintro ⟨hlast, hhead⟩
  cases rest with
  | nil => cases hhead
  | cons seg rest =>
    rcases (List.isChain_cons_cons.1 h.solid).1 with ⟨-, -, hne⟩ | hseg
    · exact hne hlast
    · cases seg with
      | text s' =>
        obtain ⟨hfull, hne, -⟩ := hseg
        rw [List.flatMap_cons, Segment.toList, List.head?_append_of_ne_nil _ hfull] at hhead
        exact hne hhead
      | slot s' => exact hseg.elim

/-- One search puts the value in the place of its slots. -/
theorem replaceFrom_source (h : t.Spaced) (slot : Slot) (value : String) :
    replaceFrom slot.marker.toList value.toList 0 (t.flatMap (·.toList)) =
      (t.put slot value).flatMap (·.toList) := by
  obtain ⟨name, hname, -⟩ := slot.marker_eq
  induction t with
  | nil => rfl
  | cons seg rest ih =>
    have hrest : Spaced rest :=
      ⟨fun other hother => h.quiet other (List.mem_cons_of_mem seg hother), h.solid.tail⟩
    rw [put, List.map_cons, List.flatMap_cons, List.flatMap_cons, ← put, ← ih hrest]
    cases seg with
    | text s =>
      rw [hname]
      exact replaceFrom_append (h.quiet _ List.mem_cons_self) h.not_joined _
    | slot s =>
      by_cases hs : s = slot
      · rw [Segment.put, if_pos hs, ← hs]
        exact replaceFrom_self (by rw [hs, hname]; simp) _ _
      · -- another marker: its first brace does not start this one, and no other one could
        obtain ⟨name', hname', hquiet, hlast⟩ := s.marker_eq
        have hstart := Slot.not_prefix_marker (Ne.symm hs) (rest.flatMap (·.toList))
        rw [Segment.put, if_neg hs]
        show replaceFrom _ _ 0 (s.marker.toList ++ _) = s.marker.toList ++ _
        rw [hname', List.cons_append] at hstart ⊢
        rw [replaceFrom_cons hstart, hname, replaceFrom_append hquiet (fun hjoin => hlast hjoin.1)]
        rfl

theorem replaceAll_source (h : t.Spaced) (slot : Slot) (value : String) :
    replaceAll slot.marker value t.source = (t.put slot value).source := by
  rw [replaceAll, toList_source, replaceFrom_source h, ← toList_source, String.ofList_toList]

/-- The searches one after the other put each value in the place of its slots. -/
theorem foldl_replaceAll (h : t.Spaced) (values : Slot → String) (slots : List Slot)
    (hvalues : ∀ s ∈ slots, Unbraced (values s).toList) :
    slots.foldl (fun text s => replaceAll s.marker (values s) text) t.source =
        (slots.foldl (fun t s => t.put s (values s)) t).source ∧
      Spaced (slots.foldl (fun t s => t.put s (values s)) t) := by
  induction slots generalizing t with
  | nil => exact ⟨rfl, h⟩
  | cons s rest ih =>
    obtain ⟨hs, hrest⟩ := List.forall_mem_cons.1 hvalues
    rw [List.foldl_cons, List.foldl_cons, replaceAll_source h]
    exact ih (h.put s hs) hrest

/-- The value of the slot that is filled last is not searched any more. -/
theorem fill_eq_substitute (h : t.Spaced) {values : Slot → String}
    (hvalues : ∀ s, s ≠ .methods → Unbraced (values s).toList) :
    t.fill values = t.substitute values := by
  obtain ⟨htext, hspaced⟩ :=
    foldl_replaceAll h values [.serviceType, .serviceFullName] (by simp [hvalues])
  have hall : Slot.all = [.serviceType, .serviceFullName] ++ [.methods] := rfl
  rw [fill, hall, List.foldl_append, htext]
  show replaceAll Slot.methods.marker (values .methods) _ = _
  rw [replaceAll_source hspaced, source, substitute]
  simp only [List.foldl_cons, List.foldl_nil, put, List.map_map]
  refine congrArg String.join (List.map_congr_left fun seg _ => ?_)
  cases seg with
  | text s => rfl
  | slot s => cases s <;> rfl

/-- A marker in a value that is not the last one is filled as well. -/
example :
    let t : Template := [.slot .serviceType, .text "-", .slot .methods]
    let values : Slot → String
      | .serviceType => Slot.methods.marker
      | .serviceFullName => ""
      | .methods => "call"
    t.fill values = "call-call" ∧ t.substitute values = Slot.methods.marker ++ "-call" := by
  decide +kernel

end Template

theorem clientTemplate_spaced : clientTemplate.Spaced := by
  -- the texts are long, so they are opened literal by literal and not evaluated as a whole
  constructor
  · simp only [clientTemplate, List.forall_mem_cons, List.not_mem_nil, false_implies, implies_true,
      and_true, true_and, Segment.Quiet, String.toList_append]
    refine ⟨?_, ?_, ?_, ?_⟩
    all_goals
      repeat rw [String.toList_ofList]
      decide +kernel
  · simp only [clientTemplate, List.isChain_cons_cons, List.isChain_singleton, and_true,
      Segment.Solid, or_false, false_or, String.toList_append]
    refine ⟨?_, ?_, ?_, ?_, ?_, ?_⟩
    all_goals
      repeat rw [String.toList_ofList]
      decide +kernel

/-- **A client is its template with all slots filled at once.** If the Swift name and the full name
of a service have no two braces in a row, its client is the template with the Swift name, the full
name and the methods in the places of their slots: one block for each method, in the order of the
methods, each after an empty line. Whatever stands in the blocks stays as it is. -/
theorem renderService_substitute {index : TypeIndex} {s : Service} {text : String}
    (h : renderService index s = .ok text)
    (htype : Unbraced (packageLead s.package ++ s.name).toList)
    (hname : Unbraced s.fullName.toList) :
    ∃ methods, List.Forall₂ (fun m c => ClientMethod.ofMethod index s.fullName m = .ok c)
        s.methods methods ∧
      text = clientTemplate.substitute fun
        | .serviceType => packageLead s.package ++ s.name
        | .serviceFullName => s.fullName
        | .methods => String.join (methods.map fun c => "\n" ++ c.render) := by
  obtain ⟨client, hclient, rfl⟩ := Outcome.map_eq_ok.1 h
  obtain ⟨methods, hmethods, hc⟩ := Outcome.bind_eq_ok.1 hclient
  rw [Outcome.pure_eq_ok.1 hc]
  refine ⟨methods, Outcome.mapM_eq_ok.1 hmethods, ?_⟩
  rw [Client.render, Template.fill_eq_substitute clientTemplate_spaced]
  · refine congrArg clientTemplate.substitute (funext fun slot => ?_)
    cases slot <;> rfl
  · intro slot hslot
    cases slot with
    | serviceType => exact htype
    | serviceFullName => exact hname
    | methods => exact absurd rfl hslot

/-- Markers in the name and in the argument of a method are left alone. -/
theorem renderService_substitute_markers :
    let index : TypeIndex := Dictionary.ofList [TypeIndex.binding "a" "Ping" .message]
    let ping : Method :=
      { name := Slot.methods.marker, inputArg := Slot.serviceType.marker, inputType := "a.Ping",
        outputType := ".a.Ping" }
    let block : ClientMethod :=
      { function := Slot.methods.marker, argument := Slot.serviceType.marker,
        inputType := "A_Ping", outputType := "A_Ping", path := Slot.methods.marker }
    renderService index { name := "Desk", package := "a", methods := [ping] } =
      .ok (clientTemplate.substitute fun
        | .serviceType => "A_Desk"
        | .serviceFullName => "a.Desk"
        | .methods => "\n" ++ block.render) := by
  intro index ping block
  obtain ⟨text, htext⟩ : ∃ text,
      renderService index { name := "Desk", package := "a", methods := [ping] } = .ok text :=
    Outcome.exists_eq_ok_iff.2 (by decide +kernel)
  obtain ⟨methods, hmethods, hsubstitute⟩ :=
    renderService_substitute htext (by decide +kernel) (by decide +kernel)
  obtain ⟨c, rest, hc, hrest, rfl⟩ := List.forall₂_cons_left_iff.1 hmethods
  obtain rfl := List.forall₂_nil_left_iff.1 hrest
  have hblock : ClientMethod.ofMethod index "a.Desk" ping = .ok block := by decide +kernel
  obtain rfl : c = block := Except.ok.inj (hc.symm.trans hblock)
  rw [htext, hsubstitute]
  refine congrArg (fun values => Except.ok (clientTemplate.substitute values)) ?_
  funext slot
  cases slot with
  | serviceType => decide +kernel
  | serviceFullName => decide +kernel
  | methods => simp [String.join]

end SwiftRpc.Swift
