import Mathlib.Data.List.Nodup
import SwiftRpc.Api.Registry
import SwiftRpc.Proofs.Dictionary

/-!
# Index and arena stay in step

A registry keeps models and enumerations twice: in a list, where the position is the identity, and
in an index from names to positions. `Registry.Valid` says that the two agree. Every addition keeps
it, the refused ones included, so every registry that grew from the empty one has it.

With it a look-up by name is membership (`Valid.model?_eq_some`), and no proof about a user of the
registry has to open the index again.
-/

namespace SwiftRpc

/-! ## An index of a list of names -/

namespace Dictionary

/-- The dictionary binds every name of the list to its position, and nothing else. -/
def Indexes (d : Dictionary Nat) (names : List String) : Prop :=
  ∀ name id, d.get? name = some id ↔ names[id]? = some name

namespace Indexes

variable {d : Dictionary Nat} {names : List String}

theorem empty : (Dictionary.empty : Dictionary Nat).Indexes [] := by
  intro name id
  simp [get?, Dictionary.empty]

theorem nodup (h : d.Indexes names) : names.Nodup := by
  rw [List.nodup_iff_getElem?_ne_getElem?]
  intro i j hij hj heq
  have hi : names[i]? = some names[j] := by rw [heq, List.getElem?_eq_getElem hj]
  have hid := (h _ _).2 hi
  rw [(h _ _).2 (List.getElem?_eq_getElem hj)] at hid
  exact absurd (Option.some.inj hid) (Nat.ne_of_gt hij)

theorem get?_isSome (h : d.Indexes names) (name : String) :
    (d.get? name).isSome = true ↔ name ∈ names := by
  rw [Option.isSome_iff_exists, List.mem_iff_getElem?]
  exact exists_congr fun id => h name id

theorem push (h : d.Indexes names) {name : String} (hn : name ∉ names) :
    (d.insert name names.length).Indexes (names ++ [name]) := by
  intro other id
  rw [get?_insert]
  by_cases ho : other = name
  · rw [if_pos ho, ho]
    constructor
    · intro hid
      rw [← Option.some.inj hid]
      simp
    · intro hid
      -- the new name stands at the end and nowhere else
      rcases Nat.lt_trichotomy id names.length with hlt | heq | hgt
      · rw [List.getElem?_append_left hlt] at hid
        exact absurd (List.mem_of_getElem? hid) hn
      · rw [heq]
      · have hlen := (List.getElem?_eq_some_iff.1 hid).1
        simp only [List.length_append, List.length_singleton] at hlen
        omega
  · rw [if_neg ho, h]
    constructor
    · intro hid
      rw [List.getElem?_append_left (List.getElem?_eq_some_iff.1 hid).1, hid]
    · intro hid
      by_cases hlt : id < names.length
      · rwa [List.getElem?_append_left hlt] at hid
      · rw [List.getElem?_append_right (Nat.le_of_not_lt hlt)] at hid
        exact absurd (List.mem_singleton.1 (List.mem_of_getElem? hid)) ho

/-- What is found through the index: the member with that key. -/
theorem bind_eq_some {β : Type} {l : List β} {key : β → String} (h : d.Indexes (l.map key))
    {name : String} {b : β} :
    ((d.get? name).bind (l[·]?)) = some b ↔ b ∈ l ∧ key b = name := by
  rw [Option.bind_eq_some_iff]
  constructor
  · rintro ⟨id, hid, hb⟩
    have hk := (h _ _).1 hid
    rw [List.getElem?_map, hb] at hk
    exact ⟨List.mem_of_getElem? hb, Option.some.inj hk⟩
  · rintro ⟨hb, hk⟩
    obtain ⟨id, hid⟩ := List.mem_iff_getElem?.1 hb
    exact ⟨id, (h _ _).2 (by rw [List.getElem?_map, hid, ← hk]; rfl), hid⟩

end Indexes

end Dictionary

namespace Api

/-! ## Valid registries -/

namespace Registry

structure Valid (r : Registry) : Prop where
  models : r.modelIndex.Indexes r.modelNames
  enums : r.enumIndex.Indexes r.enumNames
  services : r.serviceNames.Nodup

theorem valid_empty : empty.Valid :=
  ⟨Dictionary.Indexes.empty, Dictionary.Indexes.empty, List.nodup_nil⟩

namespace Valid

variable {r : Registry}

theorem modelId?_eq_some (h : r.Valid) {name : String} {id : Nat} :
    r.modelId? name = some id ↔ ∃ m, r.models[id]? = some m ∧ m.name = name := by
  rw [modelId?, h.models, modelNames, List.getElem?_map, Option.map_eq_some_iff]

theorem modelId?_isSome (h : r.Valid) (name : String) :
    (r.modelId? name).isSome = true ↔ name ∈ r.modelNames :=
  h.models.get?_isSome name

theorem model?_eq_some (h : r.Valid) {name : String} {m : Model} :
    r.model? name = some m ↔ m ∈ r.models ∧ m.name = name :=
  h.models.bind_eq_some

theorem enumeration?_eq_some (h : r.Valid) {name : String} {e : Enumeration} :
    r.enumeration? name = some e ↔ e ∈ r.enums ∧ e.name = name :=
  h.enums.bind_eq_some

theorem service?_eq_some (h : r.Valid) {name : String} {s : Service} :
    r.service? name = some s ↔ s ∈ r.services ∧ s.fullName = name := by
  constructor
  · intro hs
    exact ⟨List.mem_of_find?_eq_some hs, by simpa using List.find?_some hs⟩
  · rintro ⟨hs, rfl⟩
    obtain ⟨t, ht⟩ : ∃ t, r.service? s.fullName = some t := by
      rw [service?, ← Option.isSome_iff_exists, List.find?_isSome]
      exact ⟨s, hs, by simp⟩
    -- the first service of that name is the only one
    have hn : t.fullName = s.fullName := by simpa using List.find?_some ht
    rw [ht, List.inj_on_of_nodup_map h.services (List.mem_of_find?_eq_some ht) hs hn]

theorem pushModel (h : r.Valid) {m : Model} (hm : m.name ∉ r.modelNames) :
    (r.pushModel m).Valid := by
  refine ⟨?_, h.enums, h.services⟩
  have hp := h.models.push hm
  rwa [modelNames, List.length_map, ← List.map_singleton, ← List.map_append] at hp

theorem pushEnum (h : r.Valid) {e : Enumeration} (he : e.name ∉ r.enumNames) :
    (r.pushEnum e).Valid := by
  refine ⟨h.models, ?_, h.services⟩
  have hp := h.enums.push he
  rwa [enumNames, List.length_map, ← List.map_singleton, ← List.map_append] at hp

theorem pushService (h : r.Valid) {s : Service} (hs : s.fullName ∉ r.serviceNames) :
    (r.pushService s).Valid := by
  refine ⟨h.models, h.enums, ?_⟩
  have hn : (r.pushService s).serviceNames = r.serviceNames ++ [s.fullName] := by
    simp [serviceNames, Registry.pushService]
  rw [hn]
  exact List.nodup_append.2
    ⟨h.services, List.nodup_singleton _, fun a ha b hb hab =>
      hs (List.mem_singleton.1 hb ▸ hab ▸ ha)⟩

end Valid

end Registry

/-! ## Additions -/

/-- One call that adds to a registry. -/
inductive Addition where
  | model (m : Model)
  | enum (e : Enumeration)
  | service (s : Service)

/-- The refusal of an addition whose name is taken. -/
def Addition.duplicate : Addition → RegistryError
  | .model m => .duplicateModel m.name
  | .enum e => .duplicateEnum e.name
  | .service s => .duplicateService s.fullName

namespace Registry

def add (r : Registry) : Addition → Except RegistryError Registry
  | .model m => (r.addModel m).map (·.2)
  | .enum e => r.addEnum e
  | .service s => r.addService s

/-- What an addition puts in, if nothing stands in its way. -/
def push (r : Registry) : Addition → Registry
  | .model m => r.pushModel m
  | .enum e => r.pushEnum e
  | .service s => r.pushService s

/-- Whether the name of an addition is not taken in its kind. -/
def Free (r : Registry) : Addition → Prop
  | .model m => m.name ∉ r.modelNames
  | .enum e => e.name ∉ r.enumNames
  | .service s => s.fullName ∉ r.serviceNames

theorem Valid.push {r : Registry} (h : r.Valid) {a : Addition} (ha : r.Free a) :
    (r.push a).Valid := by
  cases a with
  | model m => exact h.pushModel ha
  | enum e => exact h.pushEnum ha
  | service s => exact h.pushService ha

theorem add_of_free {r : Registry} (h : r.Valid) {a : Addition} (ha : r.Free a) :
    r.add a = .ok (r.push a) := by
  cases a with
  | model m =>
    have hm : ¬ (r.modelId? m.name).isSome = true := mt (h.modelId?_isSome m.name).1 ha
    rw [add, addModel, if_neg hm]
    rfl
  | enum e => exact if_neg (mt (h.enums.get?_isSome e.name).1 ha)
  | service s =>
    refine if_neg ?_
    intro hany
    obtain ⟨t, ht, hn⟩ := List.any_eq_true.1 hany
    exact ha (List.mem_map.2 ⟨t, ht, by simpa using hn⟩)

theorem add_eq_duplicate {r : Registry} (h : r.Valid) {a : Addition} (ha : ¬ r.Free a) :
    r.add a = .error a.duplicate := by
  cases a with
  | model m =>
    have hm : (r.modelId? m.name).isSome = true :=
      (h.modelId?_isSome m.name).2 (not_not.1 ha)
    rw [add, addModel, if_pos hm]
    rfl
  | enum e => exact if_pos ((h.enums.get?_isSome e.name).2 (not_not.1 ha))
  | service s =>
    refine if_pos ?_
    obtain ⟨t, ht, hn⟩ := List.mem_map.1 (not_not.1 ha)
    exact List.any_eq_true.2 ⟨t, ht, by simpa using hn⟩

theorem add_of_not_free {r : Registry} (h : r.Valid) {a : Addition} (ha : ¬ r.Free a) :
    ∃ e, r.add a = .error e :=
  ⟨_, add_eq_duplicate h ha⟩

end Registry

end Api

end SwiftRpc
