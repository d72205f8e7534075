import SwiftRpc.Proofs.Template

/-!
# What filling makes of any values

A search for a marker goes through the whole text, also through the values that were filled in
before. It cannot run over the end of a value, though, if the text behind each slot starts with a
character of which no marker is made (`Fenced`). So whatever the values are, each of them is
searched on its own: what stands in the place of a slot at the end is its value, filled with the
values of the slots that come later.
-/

namespace SwiftRpc.Text

/-! ## Replacing, from the left -/

section Replacing

variable {old : List Char}

/-- Induction along a search: what is searched for is found at the front, or one character is
passed. -/
theorem search_induction (hne : old ≠ []) {motive : List Char → Prop} (nil : motive [])
    (found : ∀ t, motive t → motive (old ++ t))
    (other : ∀ c rest, ¬ old <+: c :: rest → motive rest → motive (c :: rest)) (s : List Char) :
    motive s := by
  have hlength : 0 < old.length := List.length_pos_iff.2 hne
  induction hs : s.length using Nat.strong_induction_on generalizing s with
  | _ n ih =>
    cases s with
    | nil => exact nil
    | cons c rest =>
      by_cases hfound : old <+: c :: rest
      · obtain ⟨t, ht⟩ := hfound
        have hsum := congrArg List.length ht
        rw [List.length_append] at hsum
        rw [← ht]
        exact found t (ih t.length (by omega) t rfl)
      · rw [List.length_cons] at hs
        exact other c rest hfound (ih rest.length (by omega) rest rfl)

/-- No occurrence goes over into a text that starts with a foreign character. -/
theorem isPrefix_append_fence {s t : List Char} (hfence : ∀ c ∈ t.head?, c ∉ old)
    (h : old <+: s ++ t) : old <+: s := by
  rcases List.prefix_or_prefix_of_prefix h (List.prefix_append s t) with hle | ⟨more, rfl⟩
  · exact hle
  · cases more with
    | nil => simp
    | cons c more =>
      obtain ⟨rest, hrest⟩ := (List.prefix_append_right_inj s).1 h
      rw [← hrest] at hfence
      exact absurd (by simp) (hfence c rfl)

theorem replaceFrom_append_fence (hne : old ≠ []) (new s : List Char) {t : List Char}
    (hfence : ∀ c ∈ t.head?, c ∉ old) :
    replaceFrom old new 0 (s ++ t) = replaceFrom old new 0 s ++ replaceFrom old new 0 t := by
  induction s using search_induction hne with
  | nil => rfl
  | found s ih =>
    rw [List.append_assoc, replaceFrom_self hne, replaceFrom_self hne, ih, List.append_assoc]
  | other c rest hno ih =>
    have hno' : ¬ old <+: c :: (rest ++ t) := fun h => hno (isPrefix_append_fence hfence h)
    rw [List.cons_append, replaceFrom_cons hno', replaceFrom_cons hno, ih, List.cons_append]

theorem mem_or_mem_of_mem_replaceFrom {new s : List Char} {skip : Nat} {c : Char}
    (h : c ∈ replaceFrom old new skip s) : c ∈ new ∨ c ∈ s := by
  induction s generalizing skip with
  | nil => simp [replaceFrom] at h
  | cons d rest ih =>
    have hrest {n : Nat} (h : c ∈ replaceFrom old new n rest) : c ∈ new ∨ c ∈ d :: rest :=
      (ih h).imp_right (List.mem_cons_of_mem d)
    cases skip with
    | succ skip => exact hrest h
    | zero =>
      rw [replaceFrom] at h
      split at h
      · exact (List.mem_append.1 h).elim Or.inl hrest
      · rcases List.mem_cons.1 h with rfl | h
        · exact Or.inr List.mem_cons_self
        · exact hrest h

end Replacing

end SwiftRpc.Text

namespace SwiftRpc.Swift

open SwiftRpc.Text

/-! ## Slots -/

namespace Slot

theorem marker_ne_nil (s : Slot) : s.marker.toList ≠ [] := by
  obtain ⟨name, hname, -⟩ := s.marker_eq
  rw [hname]
  exact List.cons_ne_nil _ _

theorem replaceFrom_marker_self (s : Slot) (new : List Char) :
    replaceFrom s.marker.toList new 0 s.marker.toList = new := by
  have h := replaceFrom_self s.marker_ne_nil new []
  rwa [List.append_nil, replaceFrom, List.append_nil] at h

/-- A search for a marker finds none in a text without two braces in a row. -/
theorem replaceFrom_of_unbraced (slot : Slot) {s : List Char} (h : Unbraced s) (new : List Char) :
    replaceFrom slot.marker.toList new 0 s = s := by
  obtain ⟨name, hname, -⟩ := slot.marker_eq
  have hnone : replaceFrom ('\x7b' :: '\x7b' :: name) new 0 (s ++ []) = _ :=
    replaceFrom_append h (by simp) new
  rwa [replaceFrom, List.append_nil, ← hname] at hnone

/-- A marker is left alone by the search for another one. -/
theorem replaceFrom_marker_of_ne {s s' : Slot} (h : s ≠ s') (new : List Char) :
    replaceFrom s.marker.toList new 0 s'.marker.toList = s'.marker.toList := by
  obtain ⟨name', hname', hquiet, -⟩ := s'.marker_eq
  have hstart := not_prefix_marker h []
  rw [List.append_nil, hname'] at hstart
  rw [hname', replaceFrom_cons hstart, s.replaceFrom_of_unbraced hquiet]

end Slot

/-! ## Segments -/

namespace Segment

/-- What a segment stands for if the slots hold `held`. -/
def content (held : Slot → List Char) : Segment → List Char
  | .text s => s.toList
  | .slot s => held s

/-- No marker starts with the end of the text. -/
def Closed : Segment → Prop
  | .text s => s.toList.getLast? ≠ some '\x7b'
  | .slot _ => True

/-- Text that starts with a character of which no marker is made. -/
def Fence : Segment → Prop
  | .text s => ∃ c, s.toList.head? = some c ∧ ∀ slot : Slot, c ∉ slot.marker.toList
  | .slot _ => False

end Segment

/-! ## Templates -/

namespace Template

/-- The text has no markers of its own, and a slot has a fence behind it. -/
structure Fenced (t : Template) : Prop where
  quiet : ∀ seg ∈ t, seg.Quiet
  closed : ∀ seg ∈ t, seg.Closed
  fence : t.IsChain fun a b => ∀ slot, a = .slot slot → b.Fence

variable {t : Template}

theorem Fenced.tail {seg : Segment} {rest : Template} (h : Fenced (seg :: rest)) :
    Fenced rest :=
  ⟨fun s hs => h.quiet s (List.mem_cons_of_mem seg hs),
    fun s hs => h.closed s (List.mem_cons_of_mem seg hs), h.fence.tail⟩

theorem Fenced.head_content {slot slot' : Slot} {rest : Template} (h : Fenced (.slot slot :: rest))
    (held : Slot → List Char) :
    ∀ c ∈ (rest.flatMap (·.content held)).head?, c ∉ slot'.marker.toList := by
  intro c hc
  cases rest with
  | nil => cases hc
  | cons seg rest =>
    have hfence := (List.isChain_cons_cons.1 h.fence).1 slot rfl
    cases seg with
    | slot s => exact hfence.elim
    | text s =>
      obtain ⟨d, hd, hno⟩ := hfence
      have hhead : (Segment.text s :: rest).flatMap (·.content held) =
          s.toList ++ rest.flatMap (·.content held) := rfl
      rw [hhead, List.head?_append, hd, Option.some_or] at hc
      rw [← Option.some.inj hc]
      exact hno slot'

/-- A search goes through each slot on its own. -/
theorem replaceFrom_content (h : t.Fenced) (slot : Slot) (new : List Char)
    (held : Slot → List Char) :
    replaceFrom slot.marker.toList new 0 (t.flatMap (·.content held)) =
      t.flatMap (·.content fun s => replaceFrom slot.marker.toList new 0 (held s)) := by
  induction t with
  | nil => rfl
  | cons seg rest ih =>
    rw [List.flatMap_cons, List.flatMap_cons, ← ih h.tail]
    cases seg with
    | text s =>
      obtain ⟨name, hname, -⟩ := slot.marker_eq
      rw [hname]
      refine replaceFrom_append (h.quiet _ List.mem_cons_self) (fun hjoin => ?_) new
      exact h.closed _ List.mem_cons_self hjoin.1
    | slot s => exact replaceFrom_append_fence slot.marker_ne_nil new _ (h.head_content held)

/-- The slots as they are before anything is filled. -/
theorem toList_source_eq (t : Template) :
    t.source.toList = t.flatMap (·.content fun s => s.marker.toList) := by
  rw [toList_source]
  refine List.flatMap_congr fun seg _ => ?_
  cases seg <;> rfl

/-- Searches one after the other go through each slot on its own. -/
theorem foldl_replaceAll_content (h : t.Fenced) (values : Slot → String) (slots : List Slot)
    (text : String) (held : Slot → List Char) (htext : text.toList = t.flatMap (·.content held)) :
    (slots.foldl (fun text s => replaceAll s.marker (values s) text) text).toList =
      t.flatMap (·.content fun s => slots.foldl
        (fun text k => replaceFrom k.marker.toList (values k).toList 0 text) (held s)) := by
  induction slots generalizing text held with
  | nil => exact htext
  | cons k rest ih =>
    refine ih _ (fun s => replaceFrom k.marker.toList (values k).toList 0 (held s)) ?_
    show (replaceAll k.marker (values k) text).toList = _
    rw [replaceAll, String.toList_ofList, htext, replaceFrom_content h]

/-- What stands in the place of a slot at the end. -/
def refilled (values : Slot → String) : Slot → List Char
  | .serviceType =>
    replaceFrom Slot.methods.marker.toList (values .methods).toList 0
      (replaceFrom Slot.serviceFullName.marker.toList (values .serviceFullName).toList 0
        (values .serviceType).toList)
  | .serviceFullName =>
    replaceFrom Slot.methods.marker.toList (values .methods).toList 0
      (values .serviceFullName).toList
  | .methods => (values .methods).toList

/-- Each slot becomes its value, in which the slots that come later have been filled. -/
theorem toList_fill (h : t.Fenced) (values : Slot → String) :
    (t.fill values).toList = t.flatMap (·.content (refilled values)) := by
  rw [fill, foldl_replaceAll_content h values Slot.all t.source _ (toList_source_eq t)]
  refine congrArg (fun held => t.flatMap (·.content held)) (funext fun slot => ?_)
  simp only [Slot.all, List.foldl_cons, List.foldl_nil]
  cases slot with
  | serviceType => rw [Slot.replaceFrom_marker_self, refilled]
  | serviceFullName =>
    rw [Slot.replaceFrom_marker_of_ne (by decide), Slot.replaceFrom_marker_self, refilled]
  | methods =>
    rw [Slot.replaceFrom_marker_of_ne (by decide), Slot.replaceFrom_marker_of_ne (by decide),
      Slot.replaceFrom_marker_self, refilled]

end Template

theorem clientTemplate_fenced : clientTemplate.Fenced := by
  have hforeign (slot : Slot) : ' ' ∉ slot.marker.toList ∧ '/' ∉ slot.marker.toList ∧
      '\n' ∉ slot.marker.toList := by
    cases slot <;> decide +kernel
  refine ⟨clientTemplate_spaced.quiet, ?_, ?_⟩
  · simp only [clientTemplate, List.forall_mem_cons, List.not_mem_nil, false_implies, implies_true,
      and_true, true_and, Segment.Closed, String.toList_append]
    refine ⟨?_, ?_, ?_, ?_⟩
    all_goals
      repeat rw [String.toList_ofList]
      decide +kernel
  · simp only [clientTemplate, List.isChain_cons_cons, List.isChain_singleton, and_true,
      reduceCtorEq, false_implies, implies_true, true_and, Segment.Fence, String.toList_append]
    refine ⟨fun _ _ => ⟨' ', ?_, fun slot => (hforeign slot).1⟩,
      fun _ _ => ⟨'/', ?_, fun slot => (hforeign slot).2.1⟩,
      fun _ _ => ⟨'\n', ?_, fun slot => (hforeign slot).2.2⟩⟩
    all_goals
      repeat rw [String.toList_ofList]
      rfl

end SwiftRpc.Swift
