import Mathlib.Data.List.Nodup
import SwiftRpc.Api.Declare
import SwiftRpc.Descriptor
import SwiftRpc.Proofs.Outcome
import SwiftRpc.Proofs.Registry

/-!
# Registering files is registering their declarations

Walking a file recursively does the same as going through the flat list of its declarations
(`addFile_eq_overList`). A single declaration is registered exactly if it is well formed and its
name is free (`declare_eq`, `declare_of_not_wellFormed`); what it registers is described without
any checks (`Declaration.entry`). So a list of declarations goes through exactly if all of them are
well formed and the names of each kind are distinct.
-/

namespace SwiftRpc

namespace Api

open SwiftRpc.Descriptor

/-! ## What fields hold -/

/-- The type of the field is a group, a message or an enumeration. -/
def IsReference (d : Descriptor.Field) : Prop :=
  d.type? = some 10 ∨ d.type? = some 11 ∨ d.type? = some 14

theorem mem_contentTable_of_contentOf {d : Descriptor.Field} {content : Content}
    (h : contentOf d = content) (hne : content ≠ .scalar .double) :
    ∃ n, d.type? = some n ∧ (n.toInt, content) ∈ contentTable := by
  unfold contentOf at h
  cases hl : d.type?.bind fun n => contentTable.lookup n.toInt with
  | none =>
    rw [hl] at h
    exact absurd h.symm hne
  | some content' =>
    rw [hl] at h
    obtain ⟨n, hn, hlook⟩ := Option.bind_eq_some_iff.1 hl
    obtain ⟨before, after, htable, -⟩ := List.lookup_eq_some_iff.1 hlook
    refine ⟨n, hn, ?_⟩
    rw [htable, ← show content' = content from h]
    simp

theorem contentOf_eq_message_iff {d : Descriptor.Field} :
    contentOf d = .message ↔ d.type? = some 10 ∨ d.type? = some 11 := by
  constructor
  · intro h
    obtain ⟨n, hn, hmem⟩ := mem_contentTable_of_contentOf h (by simp)
    have hint : n.toInt = (10 : Int32).toInt ∨ n.toInt = (11 : Int32).toInt := by
      simpa [contentTable] using hmem
    rw [Int32.toInt_inj, Int32.toInt_inj] at hint
    rcases hint with rfl | rfl
    · exact Or.inl hn
    · exact Or.inr hn
  · rintro (h | h) <;> rw [contentOf, h] <;> rfl

theorem contentOf_eq_enumeration_iff {d : Descriptor.Field} :
    contentOf d = .enumeration ↔ d.type? = some 14 := by
  constructor
  · intro h
    obtain ⟨n, hn, hmem⟩ := mem_contentTable_of_contentOf h (by simp)
    have hint : n.toInt = (14 : Int32).toInt := by simpa [contentTable] using hmem
    rw [Int32.toInt_inj] at hint
    exact hint ▸ hn
  · intro h
    rw [contentOf, h]
    rfl

theorem lacksTypeName_iff {d : Descriptor.Field} :
    lacksTypeName d = true ↔ IsReference d ∧ d.typeName = "" := by
  rw [IsReference, ← or_assoc, ← contentOf_eq_message_iff, ← contentOf_eq_enumeration_iff,
    lacksTypeName]
  cases contentOf d with
  | scalar s => simp
  | enumeration => simp
  | message => simp

/-! ## Descriptions without checks -/

theorem Field.name_described (d : Descriptor.Field) : (Field.described d).name = d.name := by
  unfold Field.described
  cases contentOf d <;> rfl

def Model.described (file : File) (scope : String) (m : Message) : Model where
  name := Name.join scope m.name
  package := file.package
  isMapEntry := m.isMapEntry
  fields := m.fields.map Field.described

def Service.described (file : File) (s : Descriptor.Service) : Service where
  name := s.name
  package := file.package
  methods := s.methods.map Method.described

end Api

namespace Descriptor.Declaration

open SwiftRpc.Api

/-- Nothing that has to be named lacks its name: the declaration, the methods of a service, the
types that fields refer to. -/
def WellFormed : Declaration → Prop
  | .message _ m => m.name ≠ "" ∧ ∀ d ∈ m.fields, IsReference d → d.typeName ≠ ""
  | .enum _ e => e.name ≠ ""
  | .service s => s.name ≠ "" ∧ ∀ k ∈ s.methods, k.name ≠ ""

/-- What the declaration lacks first, and how that is reported: its own name comes before all else,
and of the fields or methods the first one counts. -/
inductive Lacks (file : File) : Declaration → DescriptorError → Prop
  | messageName {scope : String} {m : Message} (hname : m.name = "") :
      Lacks file (.message scope m) (.missingName .message file.name)
  | enumName {scope : String} {e : Enum} (hname : e.name = "") :
      Lacks file (.enum scope e) (.missingName .enum file.name)
  | serviceName {s : Descriptor.Service} (hname : s.name = "") :
      Lacks file (.service s) (.missingName .service file.name)
  | typeName {scope : String} {m : Message} {before after : List Descriptor.Field}
      {d : Descriptor.Field} (hname : m.name ≠ "") (hfields : m.fields = before ++ d :: after)
      (hbefore : ∀ d ∈ before, IsReference d → d.typeName ≠ "") (hreference : IsReference d)
      (htype : d.typeName = "") :
      Lacks file (.message scope m) (.missingTypeName (Name.join scope m.name) d.name)
  | methodName {s : Descriptor.Service} {before after : List Descriptor.Method}
      {k : Descriptor.Method} (hname : s.name ≠ "") (hmethods : s.methods = before ++ k :: after)
      (hbefore : ∀ k ∈ before, k.name ≠ "") (hmethod : k.name = "") :
      Lacks file (.service s) (.missingName .method file.name)

/-- What the declaration adds to the registry. -/
def entry (file : File) : Declaration → Addition
  | .message scope m => .model (Model.described file scope m)
  | .enum scope e => .enum (Enumeration.described file scope e)
  | .service s => .service (Service.described file s)

end Descriptor.Declaration

namespace Api

open SwiftRpc.Descriptor

/-! ## When a description is made -/

theorem Field.ofDescriptor_eq_ok {message : String} (d : Descriptor.Field) (field : Field) :
    Field.ofDescriptor message d = .ok field ↔
      (IsReference d → d.typeName ≠ "") ∧ field = Field.described d := by
  rw [Field.ofDescriptor, Outcome.guarded_eq_ok, lacksTypeName_iff, not_and]

theorem Model.ofDescriptor_eq_ok {file : File} {scope : String} {m : Message} {model : Model} :
    Model.ofDescriptor file scope m = .ok model ↔
      (Declaration.message scope m).WellFormed ∧ model = Model.described file scope m := by
  simp only [Model.ofDescriptor, Outcome.refused_eq_ok, Outcome.bind_eq_ok, Outcome.pure_eq_ok,
    Outcome.mapM_eq_ok_iff_map Field.ofDescriptor_eq_ok]
  constructor
  · rintro ⟨hname, fields, ⟨hfields, rfl⟩, rfl⟩
    exact ⟨⟨hname, hfields⟩, rfl⟩
  · rintro ⟨⟨hname, hfields⟩, rfl⟩
    exact ⟨hname, _, ⟨hfields, rfl⟩, rfl⟩

theorem Enumeration.ofDescriptor_eq_ok {file : File} {scope : String} {e : Enum}
    {enumeration : Enumeration} :
    Enumeration.ofDescriptor file scope e = .ok enumeration ↔
      (Declaration.enum scope e).WellFormed ∧
        enumeration = Enumeration.described file scope e :=
  Outcome.guarded_eq_ok

theorem Method.ofDescriptor_eq_ok {file : File} (k : Descriptor.Method) (method : Method) :
    Method.ofDescriptor file k = .ok method ↔ k.name ≠ "" ∧ method = Method.described k :=
  Outcome.guarded_eq_ok

theorem Service.ofDescriptor_eq_ok {file : File} {s : Descriptor.Service} {service : Service} :
    Service.ofDescriptor file s = .ok service ↔
      (Declaration.service s).WellFormed ∧ service = Service.described file s := by
  simp only [Service.ofDescriptor, Outcome.refused_eq_ok, Outcome.bind_eq_ok,
    Outcome.pure_eq_ok, Outcome.mapM_eq_ok_iff_map Method.ofDescriptor_eq_ok]
  constructor
  · rintro ⟨hname, methods, ⟨hmethods, rfl⟩, rfl⟩
    exact ⟨⟨hname, hmethods⟩, rfl⟩
  · rintro ⟨⟨hname, hmethods⟩, rfl⟩
    exact ⟨hname, _, ⟨hmethods, rfl⟩, rfl⟩

/-! ## Why no description is made -/

theorem Field.ofDescriptor_eq_error {message : String} {d : Descriptor.Field}
    {e : DescriptorError} :
    Field.ofDescriptor message d = .error e ↔
      (IsReference d ∧ d.typeName = "") ∧ e = .missingTypeName message d.name := by
  rw [Field.ofDescriptor, Outcome.guarded_eq_error, lacksTypeName_iff]

theorem Model.ofDescriptor_eq_error {file : File} {scope : String} {m : Message}
    {e : DescriptorError} :
    Model.ofDescriptor file scope m = .error e ↔ (Declaration.message scope m).Lacks file e := by
  simp only [Model.ofDescriptor, Outcome.refused_eq_error, Outcome.bind_eq_error,
    Outcome.mapM_eq_error, Field.ofDescriptor_eq_error, Field.ofDescriptor_eq_ok]
  constructor
  · rintro (⟨hname, rfl⟩ | ⟨hname, ⟨before, d, after, hfields, hbefore, hd, rfl⟩ | ⟨_, -, h⟩⟩)
    · exact .messageName hname
    · refine .typeName hname hfields (fun d' hd' => ?_) hd.1 hd.2
      obtain ⟨-, htype, -⟩ := hbefore d' hd'
      exact htype
    · cases h
  · intro h
    cases h with
    | messageName hname => exact Or.inl ⟨hname, rfl⟩
    | typeName hname hfields hbefore hreference htype =>
      exact Or.inr ⟨hname, Or.inl ⟨_, _, _, hfields, fun d hd => ⟨_, hbefore d hd, rfl⟩,
        ⟨hreference, htype⟩, rfl⟩⟩

theorem Enumeration.ofDescriptor_eq_error {file : File} {scope : String} {e : Enum}
    {error : DescriptorError} :
    Enumeration.ofDescriptor file scope e = .error error ↔
      (Declaration.enum scope e).Lacks file error := by
  rw [Enumeration.ofDescriptor, Outcome.guarded_eq_error]
  constructor
  · rintro ⟨hname, rfl⟩
    exact .enumName hname
  · intro h
    cases h with
    | enumName hname => exact ⟨hname, rfl⟩

theorem Method.ofDescriptor_eq_error {file : File} {k : Descriptor.Method} {e : DescriptorError} :
    Method.ofDescriptor file k = .error e ↔
      k.name = "" ∧ e = .missingName .method file.name :=
  Outcome.guarded_eq_error

theorem Service.ofDescriptor_eq_error {file : File} {s : Descriptor.Service}
    {e : DescriptorError} :
    Service.ofDescriptor file s = .error e ↔ (Declaration.service s).Lacks file e := by
  simp only [Service.ofDescriptor, Outcome.refused_eq_error, Outcome.bind_eq_error,
    Outcome.mapM_eq_error, Method.ofDescriptor_eq_error, Method.ofDescriptor_eq_ok]
  constructor
  · rintro (⟨hname, rfl⟩ | ⟨hname, ⟨before, k, after, hmethods, hbefore, hk, rfl⟩ | ⟨_, -, h⟩⟩)
    · exact .serviceName hname
    · refine .methodName hname hmethods (fun k' hk' => ?_) hk
      obtain ⟨-, hnamed, -⟩ := hbefore k' hk'
      exact hnamed
    · cases h
  · intro h
    cases h with
    | serviceName hname => exact Or.inl ⟨hname, rfl⟩
    | methodName hname hmethods hbefore hmethod =>
      exact Or.inr ⟨hname, Or.inl ⟨_, _, _, hmethods, fun k hk => ⟨_, hbefore k hk, rfl⟩,
        hmethod, rfl⟩⟩

theorem exists_lacks {file : File} {d : Declaration} (h : ¬ d.WellFormed) :
    ∃ e, d.Lacks file e := by
  cases d with
  | message scope m =>
    cases hm : Model.ofDescriptor file scope m with
    | error e => exact ⟨e, Model.ofDescriptor_eq_error.1 hm⟩
    | ok model => exact absurd (Model.ofDescriptor_eq_ok.1 hm).1 h
  | enum scope e =>
    cases he : Enumeration.ofDescriptor file scope e with
    | error error => exact ⟨error, Enumeration.ofDescriptor_eq_error.1 he⟩
    | ok enumeration => exact absurd (Enumeration.ofDescriptor_eq_ok.1 he).1 h
  | service s =>
    cases hs : Service.ofDescriptor file s with
    | error e => exact ⟨e, Service.ofDescriptor_eq_error.1 hs⟩
    | ok service => exact absurd (Service.ofDescriptor_eq_ok.1 hs).1 h

/-! ## The walk is a list of steps -/

namespace Progress

theorem andThen_assoc (p : Progress) (f g : Registry → Progress) :
    (p.andThen f).andThen g = p.andThen fun r => (f r).andThen g := by
  obtain ⟨r, error?⟩ := p
  cases error? <;> rfl

variable {α β : Type}

theorem overList_cons_of_none {step : Registry → α → Progress} {r r' : Registry} {a : α}
    (h : step r a = ⟨r', none⟩) (rest : List α) :
    overList step r (a :: rest) = overList step r' rest := by
  rw [overList, h]
  rfl

theorem overList_cons_of_some {step : Registry → α → Progress} {r r' : Registry} {a : α}
    {e : DescriptorError} (h : step r a = ⟨r', some e⟩) (rest : List α) :
    overList step r (a :: rest) = ⟨r', some e⟩ := by
  rw [overList, h]
  rfl

theorem overList_append (step : Registry → α → Progress) (r : Registry) (l l' : List α) :
    overList step r (l ++ l') = (overList step r l).andThen (overList step · l') := by
  induction l generalizing r with
  | nil => rfl
  | cons a rest ih =>
    rw [List.cons_append, overList, overList, andThen_assoc]
    congr 1
    funext r'
    exact ih r'

theorem overList_map (step : Registry → β → Progress) (f : α → β) (r : Registry) (l : List α) :
    overList step r (l.map f) = overList (fun r a => step r (f a)) r l := by
  induction l generalizing r with
  | nil => rfl
  | cons a rest ih =>
    rw [List.map_cons, overList, overList]
    congr 1
    funext r'
    exact ih r'

end Progress

namespace Registry

/-- Registers one declaration. -/
def declare (file : File) (r : Registry) : Declaration → Progress
  | .message scope m => r.declareModel file scope m
  | .enum scope e => r.declareEnum file scope e
  | .service s => r.declareService file s

mutual

theorem declareMessage_eq_overList (file : File) (scope : String) (r : Registry) :
    ∀ m : Message, r.declareMessage file scope m =
      Progress.overList (declare file) r (m.declarations scope)
  | ⟨name?, fields, nested, enums, options?⟩ => by
    rw [declareMessage, Message.declarations, Progress.overList]
    congr 1
    funext r'
    rw [Progress.overList_append, declareMessages_eq_overList file _ r' nested]
    congr 1
    funext r''
    rw [Progress.overList_map]
    rfl

theorem declareMessages_eq_overList (file : File) (scope : String) (r : Registry) :
    ∀ l : List Message, r.declareMessages file scope l =
      Progress.overList (declare file) r (Message.allDeclarations scope l)
  | [] => by rw [declareMessages, Message.allDeclarations, Progress.overList]
  | m :: rest => by
    rw [declareMessages, Message.allDeclarations, Progress.overList_append,
      declareMessage_eq_overList file scope r m]
    congr 1
    funext r'
    exact declareMessages_eq_overList file scope r' rest

end

/-- **A file is its declarations.** The recursive walk and the flat list register the same. -/
theorem addFile_eq_overList (r : Registry) (file : File) :
    r.addFile file = Progress.overList (declare file) r file.declarations := by
  rw [addFile, File.declarations, Progress.overList_append, Progress.overList_append,
    Progress.andThen_assoc, declareMessages_eq_overList]
  congr 1
  funext r'
  rw [Progress.overList_map]
  congr 1
  funext r''
  rw [Progress.overList_map]
  rfl

/-! ## One declaration -/

variable {r : Registry}

theorem declare_eq {file : File} {d : Declaration} (h : d.WellFormed) :
    r.declare file d = .ofAddition r ((r.add (d.entry file)).mapError .registry) := by
  cases d with
  | message scope m =>
    rw [declare, declareModel, Model.ofDescriptor_eq_ok.2 ⟨h, rfl⟩]
    rfl
  | enum scope e =>
    rw [declare, declareEnum, Enumeration.ofDescriptor_eq_ok.2 ⟨h, rfl⟩]
    rfl
  | service s =>
    rw [declare, declareService, Service.ofDescriptor_eq_ok.2 ⟨h, rfl⟩]
    rfl

theorem declare_of_lacks {file : File} {d : Declaration} {e : DescriptorError}
    (h : d.Lacks file e) : r.declare file d = ⟨r, some e⟩ := by
  cases d with
  | message scope m =>
    rw [declare, declareModel, Model.ofDescriptor_eq_error.2 h]
    rfl
  | enum scope e =>
    rw [declare, declareEnum, Enumeration.ofDescriptor_eq_error.2 h]
    rfl
  | service s =>
    rw [declare, declareService, Service.ofDescriptor_eq_error.2 h]
    rfl

theorem declare_of_not_wellFormed {file : File} {d : Declaration} (h : ¬ d.WellFormed) :
    ∃ e, r.declare file d = ⟨r, some e⟩ := by
  obtain ⟨e, he⟩ := exists_lacks h
  exact ⟨e, declare_of_lacks he⟩

theorem declare_eq_done (hr : r.Valid) {file : File} {d : Declaration} {r' : Registry} :
    r.declare file d = ⟨r', none⟩ ↔
      d.WellFormed ∧ r.Free (d.entry file) ∧ r' = r.push (d.entry file) := by
  by_cases h : d.WellFormed
  · rw [declare_eq h]
    by_cases hfree : r.Free (d.entry file)
    · rw [add_of_free hr hfree]
      show (⟨r.push (d.entry file), none⟩ : Progress) = _ ↔ _
      simp only [Progress.mk.injEq, and_true, h, hfree, true_and]
      exact eq_comm
    · obtain ⟨e, he⟩ := add_of_not_free hr hfree
      rw [he]
      show (⟨r, some (.registry e)⟩ : Progress) = _ ↔ _
      simp [hfree]
  · obtain ⟨e, he⟩ := declare_of_not_wellFormed h
    rw [he]
    simp [h]

end Registry

/-! ## Many additions -/

namespace Addition

def model? : Addition → Option Model
  | .model m => some m
  | _ => none

def enum? : Addition → Option Enumeration
  | .enum e => some e
  | _ => none

def service? : Addition → Option Service
  | .service s => some s
  | _ => none

theorem model?_eq_some {a : Addition} {m : Model} : a.model? = some m ↔ a = .model m := by
  cases a <;> simp [model?]

theorem enum?_eq_some {a : Addition} {e : Enumeration} : a.enum? = some e ↔ a = .enum e := by
  cases a <;> simp [enum?]

theorem service?_eq_some {a : Addition} {s : Service} :
    a.service? = some s ↔ a = .service s := by
  cases a <;> simp [service?]

end Addition

namespace Registry

def pushAll (r : Registry) (additions : List Addition) : Registry := additions.foldl push r

variable {r : Registry}

/-- A view of the registry to which every addition appends what it holds of it. -/
theorem view_pushAll {α : Type} {view : Registry → List α} {pick : Addition → Option α}
    (hpush : ∀ r a, view (r.push a) = view r ++ (pick a).toList) (r : Registry)
    (additions : List Addition) :
    view (r.pushAll additions) = view r ++ additions.filterMap pick := by
  induction additions generalizing r with
  | nil => simp [pushAll]
  | cons a rest ih =>
    refine (ih (r.push a)).trans ?_
    rw [hpush, List.append_assoc]
    cases h : pick a <;> simp [h]

theorem models_pushAll (r : Registry) (additions : List Addition) :
    (r.pushAll additions).models = r.models ++ additions.filterMap (·.model?) :=
  view_pushAll
    (fun r a => by cases a <;> simp [push, pushModel, pushEnum, pushService, Addition.model?])
    r additions

theorem enums_pushAll (r : Registry) (additions : List Addition) :
    (r.pushAll additions).enums = r.enums ++ additions.filterMap (·.enum?) :=
  view_pushAll
    (fun r a => by cases a <;> simp [push, pushModel, pushEnum, pushService, Addition.enum?])
    r additions

theorem services_pushAll (r : Registry) (additions : List Addition) :
    (r.pushAll additions).services = r.services ++ additions.filterMap (·.service?) :=
  view_pushAll
    (fun r a => by cases a <;> simp [push, pushModel, pushEnum, pushService, Addition.service?])
    r additions

/-- The names of each kind are distinct, the ones that are taken included. -/
structure Accepts (r : Registry) (additions : List Addition) : Prop where
  models : (r.pushAll additions).modelNames.Nodup
  enums : (r.pushAll additions).enumNames.Nodup
  services : (r.pushAll additions).serviceNames.Nodup

theorem Accepts.nil {additions : List Addition} (h : r.Accepts additions) : r.Accepts [] := by
  obtain ⟨hm, he, hs⟩ := h
  rw [modelNames, models_pushAll, List.map_append] at hm
  rw [enumNames, enums_pushAll, List.map_append] at he
  rw [serviceNames, services_pushAll, List.map_append] at hs
  exact ⟨hm.of_append_left, he.of_append_left, hs.of_append_left⟩

theorem Valid.accepts_nil (hr : r.Valid) : r.Accepts [] :=
  ⟨hr.models.nodup, hr.enums.nodup, hr.services⟩

theorem accepts_cons {a : Addition} {rest : List Addition} :
    r.Accepts (a :: rest) ↔ (r.push a).Accepts rest :=
  ⟨fun h => ⟨h.models, h.enums, h.services⟩, fun h => ⟨h.models, h.enums, h.services⟩⟩

/-- What is accepted was free. -/
theorem Accepts.free {a : Addition} {rest : List Addition} (h : r.Accepts (a :: rest)) :
    r.Free a := by
  have h' : (r.push a).Accepts [] := (accepts_cons.1 h).nil
  cases a with
  | model m =>
    have hm : (r.modelNames.concat m.name).Nodup := by
      simpa [pushAll, push, pushModel, modelNames] using h'.models
    exact ((List.nodup_concat _ _).1 hm).1
  | enum e =>
    have he : (r.enumNames.concat e.name).Nodup := by
      simpa [pushAll, push, pushEnum, enumNames] using h'.enums
    exact ((List.nodup_concat _ _).1 he).1
  | service s =>
    have hs : (r.serviceNames.concat s.fullName).Nodup := by
      simpa [pushAll, push, pushService, serviceNames] using h'.services
    exact ((List.nodup_concat _ _).1 hs).1

theorem Valid.pushAll {additions : List Addition} (hr : r.Valid) (h : r.Accepts additions) :
    (r.pushAll additions).Valid := by
  induction additions generalizing r with
  | nil => exact hr
  | cons a rest ih => exact ih (hr.push h.free) (accepts_cons.1 h)

theorem pushAll_append (r : Registry) (as bs : List Addition) :
    r.pushAll (as ++ bs) = (r.pushAll as).pushAll bs :=
  List.foldl_append

theorem accepts_append {as bs : List Addition} :
    r.Accepts (as ++ bs) ↔ r.Accepts as ∧ (r.pushAll as).Accepts bs := by
  constructor
  · rintro ⟨hm, he, hs⟩
    rw [pushAll_append] at hm he hs
    have h : (r.pushAll as).Accepts bs := ⟨hm, he, hs⟩
    exact ⟨⟨h.nil.models, h.nil.enums, h.nil.services⟩, h⟩
  · rintro ⟨-, hm, he, hs⟩
    rw [← pushAll_append] at hm he hs
    exact ⟨hm, he, hs⟩

/-- **When declarations go through.** All of them are registered exactly if they are well formed
and their names are distinct in each kind; then each adds its entry. -/
theorem overList_declare_eq_done (hr : r.Valid) {file : File} {ds : List Declaration}
    {r' : Registry} :
    Progress.overList (declare file) r ds = ⟨r', none⟩ ↔
      (∀ d ∈ ds, d.WellFormed) ∧ r.Accepts (ds.map (·.entry file)) ∧
        r' = r.pushAll (ds.map (·.entry file)) := by
  induction ds generalizing r with
  | nil =>
    show (⟨r, none⟩ : Progress) = _ ↔ _
    simp [pushAll, hr.accepts_nil, eq_comm]
  | cons d rest ih =>
    rw [Progress.overList, List.forall_mem_cons, List.map_cons]
    constructor
    · intro h
      -- the walk goes on only if the first declaration went through
      cases hd : r.declare file d with
      | mk r₁ error? =>
        cases error? with
        | some e =>
          rw [hd] at h
          cases h
        | none =>
          rw [hd] at h
          obtain ⟨hwf, hfree, rfl⟩ := (declare_eq_done hr).1 hd
          obtain ⟨hrest, hacc, heq⟩ := (ih (hr.push hfree)).1 h
          exact ⟨⟨hwf, hrest⟩, accepts_cons.2 hacc, heq⟩
    · rintro ⟨⟨hwf, hrest⟩, hacc, heq⟩
      rw [(declare_eq_done hr).2 ⟨hwf, hacc.free, rfl⟩]
      exact (ih (hr.push hacc.free)).2 ⟨hrest, accepts_cons.1 hacc, heq⟩

end Registry

end Api

end SwiftRpc
