import Mathlib.Data.List.Basic
import SwiftRpc.Proofs.Containment
import SwiftRpc.Proofs.Outcome
import SwiftRpc.Proofs.TypeIndex
import SwiftRpc.Swift.Source

/-!
# What can be rendered

For each part of the generated text, from the type of a field up to a whole file, the condition
under which it can be rendered. Every condition is about descriptors, the registered models and the
index of types; none of them mentions the text.
-/

namespace SwiftRpc.Swift

open SwiftRpc.Api

/-! ## Fields -/

section Fields

variable {r : Registry} {index : TypeIndex}

/-- One value of the field has a type in Swift. -/
def HasType (index : TypeIndex) (f : Field) : Prop :=
  f.scalar.isSome = true ∨ ∃ e, index.resolve? f.typeName = some e

theorem exists_elementType {f : Field} (referrer : String) :
    (∃ s, elementType index f referrer = .ok s) ↔ HasType index f := by
  unfold elementType HasType
  cases f.scalar with
  | some s => simp
  | none => simp [TypeIndex.exists_swiftName]

/-- The field is a list of the registered map entries `entry`. -/
structure IsMap (r : Registry) (f : Field) (entry : Model) : Prop where
  message : f.isMessage = true
  repeated : f.isRepeated = true
  registered : entry ∈ r.models
  name : entry.name = f.typeName
  mapEntry : entry.isMapEntry = true

theorem entryModel?_eq_some (hr : r.Valid) {f : Field} {entry : Model} :
    entryModel? r f = some entry ↔ IsMap r f entry := by
  unfold entryModel?
  constructor
  · intro h
    split at h
    · rename_i hf
      rw [Bool.and_eq_true] at hf
      obtain ⟨hmodel, hentry⟩ := Option.filter_eq_some_iff.1 h
      obtain ⟨hmem, hname⟩ := hr.model?_eq_some.1 hmodel
      exact ⟨hf.1, hf.2, hmem, hname, hentry⟩
    · cases h
  · rintro ⟨hm, hrep, hmem, hname, hentry⟩
    rw [if_pos (by simp [hm, hrep]), Option.filter_eq_some_iff]
    exact ⟨hr.model?_eq_some.2 ⟨hmem, hname⟩, hentry⟩

theorem entryModel?_eq_none (hr : r.Valid) {f : Field} :
    entryModel? r f = none ↔ ∀ entry, ¬ IsMap r f entry := by
  rw [Option.eq_none_iff_forall_ne_some]
  exact forall_congr' fun entry => not_congr (entryModel?_eq_some hr)

theorem mapType_eq_ok {entry : Model} {referrer type : String} :
    mapType index entry referrer = .ok type ↔
      ∃ key value keyType valueType,
        entry.field? "key" = some key ∧ entry.field? "value" = some value ∧
        elementType index key referrer = .ok keyType ∧
        elementType index value referrer = .ok valueType ∧
        type = "[" ++ keyType ++ ": " ++ valueType ++ "]" := by
  unfold mapType
  cases hkey : entry.field? "key" with
  | none =>
    constructor
    · intro h
      cases h
    · rintro ⟨key, value, keyType, valueType, hk, -⟩
      cases hk
  | some key =>
    cases hvalue : entry.field? "value" with
    | none =>
      constructor
      · intro h
        cases h
      · rintro ⟨key, value, keyType, valueType, -, hv, -⟩
        cases hv
    | some value =>
      simp only [Outcome.bind_eq_ok, Outcome.pure_eq_ok]
      constructor
      · rintro ⟨keyType, hk, valueType, hv, rfl⟩
        exact ⟨key, value, keyType, valueType, rfl, rfl, hk, hv, rfl⟩
      · rintro ⟨key', value', keyType, valueType, hkey', hvalue', hk, hv, rfl⟩
        cases hkey'
        cases hvalue'
        exact ⟨keyType, hk, valueType, hv, rfl⟩

/-- The entries have a key and a value, and both have a type. -/
def HasMapType (index : TypeIndex) (entry : Model) : Prop :=
  ∃ key value, entry.field? "key" = some key ∧ entry.field? "value" = some value ∧
    HasType index key ∧ HasType index value

theorem exists_mapType {entry : Model} {referrer : String} :
    (∃ s, mapType index entry referrer = .ok s) ↔ HasMapType index entry := by
  simp only [mapType_eq_ok, HasMapType, ← exists_elementType referrer]
  constructor
  · rintro ⟨_, key, value, keyType, valueType, hkey, hvalue, hk, hv, -⟩
    exact ⟨key, value, hkey, hvalue, ⟨keyType, hk⟩, valueType, hv⟩
  · rintro ⟨key, value, hkey, hvalue, ⟨keyType, hk⟩, valueType, hv⟩
    exact ⟨_, key, value, keyType, valueType, hkey, hvalue, hk, hv, rfl⟩

/-- The field is a map that has a type, or no map and has one. -/
def Renderable (r : Registry) (index : TypeIndex) (f : Field) : Prop :=
  (∃ entry, IsMap r f entry ∧ HasMapType index entry) ∨
    ((∀ entry, ¬ IsMap r f entry) ∧ HasType index f)

theorem exists_property (hr : r.Valid) {m : Model} {f : Field} :
    (∃ p, Property.ofField r index m f = .ok p) ↔ Renderable r index f := by
  unfold Property.ofField Renderable
  cases hentry : entryModel? r f with
  | some entry =>
    have hmap := (entryModel?_eq_some hr).1 hentry
    simp only [Outcome.exists_map_eq_ok, exists_mapType]
    constructor
    · intro h
      exact Or.inl ⟨entry, hmap, h⟩
    · rintro (⟨entry', hmap', h⟩ | ⟨hno, -⟩)
      · rw [(entryModel?_eq_some hr).2 hmap'] at hentry
        exact Option.some.inj hentry ▸ h
      · exact absurd hmap (hno entry)
  | none =>
    have hno := (entryModel?_eq_none hr).1 hentry
    simp only [Outcome.exists_map_eq_ok, exists_elementType]
    constructor
    · intro h
      exact Or.inr ⟨hno, h⟩
    · rintro (⟨entry, hmap, -⟩ | ⟨-, h⟩)
      · exact absurd hmap (hno entry)
      · exact h

theorem ofModel_eq_ok {m : Model} {s : Struct} :
    Struct.ofModel r index m = .ok s ↔
      r.containsItself m = false ∧ ∃ name properties,
        index.swiftName m.name ("model `" ++ m.name ++ "`") = .ok name ∧
        List.Forall₂ (fun f p => Property.ofField r index m f = .ok p) m.fields properties ∧
        s = { name, properties, encodable := m.encodable, decodable := m.decodable } := by
  simp only [Struct.ofModel, Outcome.refused_eq_ok, Outcome.bind_eq_ok, Outcome.pure_eq_ok,
    Outcome.mapM_eq_ok, Bool.not_eq_true]
  constructor
  · rintro ⟨hself, name, hname, properties, hproperties, rfl⟩
    exact ⟨hself, name, properties, hname, hproperties, rfl⟩
  · rintro ⟨hself, name, properties, hname, hproperties, rfl⟩
    exact ⟨hself, name, hname, properties, hproperties, rfl⟩

theorem exists_struct (hr : r.Valid) {m : Model} :
    (∃ s, Struct.ofModel r index m = .ok s) ↔
      r.containsItself m = false ∧ (∃ e, index.resolve? m.name = some e) ∧
        ∀ f ∈ m.fields, Renderable r index f := by
  simp only [← exists_property hr (m := m), ← Outcome.exists_forall₂, ofModel_eq_ok]
  constructor
  · rintro ⟨s, hself, name, properties, hname, hproperties, -⟩
    exact ⟨hself, TypeIndex.exists_swiftName.1 ⟨name, hname⟩, properties, hproperties⟩
  · rintro ⟨hself, hname, properties, hproperties⟩
    obtain ⟨name, hname⟩ := TypeIndex.exists_swiftName.2 hname
    exact ⟨_, hself, name, properties, hname, hproperties, rfl⟩

theorem exists_renderEnum {e : Enumeration} :
    (∃ text, renderEnum index e = .ok text) ↔ ∃ entry, index.resolve? e.name = some entry := by
  simp only [renderEnum, Outcome.exists_bind_eq_ok, Outcome.exists_pure_eq_ok, and_true]
  exact TypeIndex.exists_swiftName

end Fields

/-! ## Services -/

/-- The reference is to a message. -/
def IsMessage (index : TypeIndex) (reference : String) : Prop :=
  ∃ e, index.resolve? reference = some e ∧ e.kind = .message

/-- The method is a function from message to message. -/
structure Callable (index : TypeIndex) (k : Descriptor.Method) : Prop where
  clientStreaming : k.clientStreaming = false
  serverStreaming : k.serverStreaming = false
  input : IsMessage index k.inputType
  output : IsMessage index k.outputType

theorem exists_clientMethod {index : TypeIndex} {service : String} {k : Descriptor.Method} :
    (∃ c, ClientMethod.ofMethod index service (Method.described k) = .ok c) ↔
      Callable index k := by
  have hin : (Method.described k).inputType = Name.absolute k.inputType := rfl
  have hout : (Method.described k).outputType = Name.absolute k.outputType := rfl
  have hstream : (Method.described k).isStreaming = (k.clientStreaming || k.serverStreaming) := rfl
  simp only [ClientMethod.ofMethod, Outcome.refused_eq_ok, Outcome.bind_eq_ok, Outcome.pure_eq_ok,
    hin, hout, hstream, Bool.or_eq_true, not_or, Bool.not_eq_true]
  constructor
  · rintro ⟨c, ⟨hclient, hserver⟩, input, hinput, output, houtput, -⟩
    have hi := TypeIndex.exists_swiftMessageName.1 ⟨input, hinput⟩
    have ho := TypeIndex.exists_swiftMessageName.1 ⟨output, houtput⟩
    rw [TypeIndex.resolve?_absolute] at hi ho
    exact ⟨hclient, hserver, hi, ho⟩
  · rintro ⟨hclient, hserver, hi, ho⟩
    rw [IsMessage, ← TypeIndex.resolve?_absolute] at hi ho
    obtain ⟨input, hinput⟩ := TypeIndex.exists_swiftMessageName.2 hi
    obtain ⟨output, houtput⟩ := TypeIndex.exists_swiftMessageName.2 ho
    exact ⟨_, ⟨hclient, hserver⟩, input, hinput, output, houtput, rfl⟩

theorem exists_renderService {index : TypeIndex} {f : Descriptor.File} {s : Descriptor.Service} :
    (∃ text, renderService index (Service.described f s) = .ok text) ↔
      ∀ k ∈ s.methods, Callable index k := by
  rw [renderService, Outcome.exists_map_eq_ok]
  simp only [Client.ofService, Outcome.exists_bind_eq_ok, Outcome.exists_pure_eq_ok, and_true,
    Outcome.exists_mapM_eq_ok, Service.described, List.forall_mem_map, exists_clientMethod]

end SwiftRpc.Swift
