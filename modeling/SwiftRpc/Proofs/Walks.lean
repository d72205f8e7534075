import Mathlib.Data.List.Basic
import SwiftRpc.Proofs.Declare
import SwiftRpc.Proofs.TypeIndex

/-!
# A file that is registered is walked the same way by all

Registering a file, indexing it and rendering it are three walks over its messages, each with its
own way to build names. Once a file has been registered, whatever was in the registry before, they
name the same types: in the same order where there is an order, and with the same place inside the
package where that is kept.
-/

namespace SwiftRpc

/-- Inside the package a name is what was joined to it. -/
theorem Name.relativeTo_join (package name : String) :
    relativeTo package (join package name) = name := by
  unfold relativeTo join
  by_cases hp : package = ""
  · rw [if_pos hp, if_pos hp]
  · have hlist : (package ++ "." ++ name).toList = (package.toList ++ ['.']) ++ name.toList := by
      simp
    rw [if_neg hp, if_neg hp]
    simp only [hlist]
    rw [if_pos (List.isPrefixOf_iff_prefix.2 (List.prefix_append _ _)), List.drop_left,
      String.ofList_toList]

/-! ## What registering a file leaves behind -/

namespace Api.Registry

open SwiftRpc.Descriptor

variable {r r' : Registry}

theorem eq_push_of_add {a : Addition} (h : r.add a = .ok r') : r' = r.push a := by
  cases a with
  | model m =>
    obtain ⟨⟨id, r₁⟩, hadd, rfl⟩ := Outcome.map_eq_ok.1 h
    exact congrArg Prod.snd (Outcome.guarded_eq_ok.1 hadd).2
  | enum e => exact (Outcome.guarded_eq_ok.1 h).2
  | service s => exact (Outcome.guarded_eq_ok.1 h).2

/-- A declaration adds its entry, or it fails and leaves the registry as it was. -/
theorem declare_cases (r : Registry) (file : File) (d : Declaration) :
    (d.WellFormed ∧ r.declare file d = ⟨r.push (d.entry file), none⟩) ∨
      ∃ e, r.declare file d = ⟨r, some e⟩ := by
  by_cases hwf : d.WellFormed
  · rw [declare_eq hwf]
    cases hadd : r.add (d.entry file) with
    | error e => exact Or.inr ⟨.registry e, rfl⟩
    | ok r₁ =>
      rw [eq_push_of_add hadd]
      exact Or.inl ⟨hwf, rfl⟩
  · exact Or.inr (declare_of_not_wellFormed hwf)

theorem eq_push_of_declare {file : File} {d : Declaration}
    (h : r.declare file d = ⟨r', none⟩) : d.WellFormed ∧ r' = r.push (d.entry file) := by
  rcases declare_cases r file d with ⟨hwf, hd⟩ | ⟨e, hd⟩
  · rw [hd] at h
    cases h
    exact ⟨hwf, rfl⟩
  · rw [hd] at h
    cases h

theorem eq_pushAll_of_overList {file : File} {ds : List Declaration}
    (h : Progress.overList (declare file) r ds = ⟨r', none⟩) :
    (∀ d ∈ ds, d.WellFormed) ∧ r' = r.pushAll (ds.map (·.entry file)) := by
  induction ds generalizing r with
  | nil =>
    cases h
    exact ⟨by simp, rfl⟩
  | cons d rest ih =>
    rw [Progress.overList] at h
    -- an error of the first declaration would be the error of all
    cases hd : r.declare file d with
    | mk r₁ error? =>
      rw [hd] at h
      cases error? with
      | some e => cases h
      | none =>
        obtain ⟨hwf, rfl⟩ := eq_push_of_declare hd
        obtain ⟨hrest, rfl⟩ := ih h
        exact ⟨List.forall_mem_cons.2 ⟨hwf, hrest⟩, rfl⟩

/-- A file that goes through leaves the entries of its declarations, in whatever registry. -/
theorem eq_pushAll_of_addFile {file : File} (h : r.addFile file = ⟨r', none⟩) :
    (∀ d ∈ file.declarations, d.WellFormed) ∧
      r' = r.pushAll (file.declarations.map (·.entry file)) := by
  rw [addFile_eq_overList] at h
  exact eq_pushAll_of_overList h

end Api.Registry

namespace Swift

open SwiftRpc.Api
open SwiftRpc.Descriptor

/-! ## Names by kind -/

/-- The names of the types of one kind. -/
def namesOf (kind : TypeKind) (types : List (String × TypeKind)) : List String :=
  (types.filter (·.2 = kind)).map (·.1)

theorem mem_namesOf {kind : TypeKind} {types : List (String × TypeKind)} {name : String} :
    name ∈ namesOf kind types ↔ (name, kind) ∈ types := by
  simp [namesOf]

theorem namesOf_append (kind : TypeKind) (types types' : List (String × TypeKind)) :
    namesOf kind (types ++ types') = namesOf kind types ++ namesOf kind types' := by
  simp [namesOf]

theorem namesOf_map {α : Type} (kind kind' : TypeKind) (name : α → String) (l : List α) :
    namesOf kind (l.map fun a => (name a, kind')) = if kind' = kind then l.map name else [] := by
  unfold namesOf
  split
  · rename_i hkind
    rw [List.filter_eq_self.2 (by simp [hkind]), List.map_map]
    rfl
  · rename_i hkind
    rw [List.filter_eq_nil_iff.2 (by simp [hkind]), List.map_nil]

theorem mem_names_iff {types : List (String × TypeKind)} {name : String} :
    name ∈ types.map (·.1) ↔ name ∈ namesOf .message types ∨ name ∈ namesOf .enum types := by
  simp only [mem_namesOf, List.mem_map]
  constructor
  · rintro ⟨⟨name', kind⟩, ht, rfl⟩
    cases kind with
    | message => exact Or.inl ht
    | enum => exact Or.inr ht
  · rintro (ht | ht)
    · exact ⟨_, ht, rfl⟩
    · exact ⟨_, ht, rfl⟩

theorem names_models (file : File) (ds : List Declaration) :
    ((ds.map (·.entry file)).filterMap (·.model?)).map (·.name) =
      namesOf .message (ds.filterMap (·.type?)) := by
  induction ds with
  | nil => rfl
  | cons d rest ih =>
    cases d with
    | message scope m => exact congrArg (Name.join scope m.name :: ·) ih
    | enum scope e => exact ih
    | service s => exact ih

theorem names_enums (file : File) (ds : List Declaration) :
    ((ds.map (·.entry file)).filterMap (·.enum?)).map (·.name) =
      namesOf .enum (ds.filterMap (·.type?)) := by
  induction ds with
  | nil => rfl
  | cons d rest ih =>
    cases d with
    | message scope m => exact ih
    | enum scope e => exact congrArg (Name.join scope e.name :: ·) ih
    | service s => exact ih

/-! ## Places in the index -/

namespace TypeIndex

mutual

theorem package_ofMessage (package scope : String) :
    ∀ m : Message, ∀ b ∈ ofMessage package scope m,
      b = binding package b.2.relativeName b.2.kind
  | ⟨name?, fields, nested, enums, options?⟩, b, hb => by
    rw [ofMessage, List.mem_cons, List.mem_append, List.mem_map] at hb
    rcases hb with rfl | hb | ⟨e, -, rfl⟩
    · rfl
    · exact package_ofMessages package _ nested b hb
    · rfl

theorem package_ofMessages (package scope : String) :
    ∀ l : List Message, ∀ b ∈ ofMessages package scope l,
      b = binding package b.2.relativeName b.2.kind
  | [], b, hb => by simp [ofMessages] at hb
  | m :: rest, b, hb => by
    rw [ofMessages, List.mem_append] at hb
    rcases hb with hb | hb
    · exact package_ofMessage package scope m b hb
    · exact package_ofMessages package scope rest b hb

end

/-- Every type of a file is bound in the package of the file. -/
theorem package_ofFile {f : File} {b : String × TypeEntry} (hb : b ∈ ofFile f) :
    b = binding f.package b.2.relativeName b.2.kind := by
  rw [ofFile, List.mem_append, List.mem_map] at hb
  rcases hb with hb | ⟨e, -, rfl⟩
  · exact package_ofMessages f.package "" f.messages b hb
  · rfl

theorem mem_keys_ofFile {f : File} (hnamed : ∀ d ∈ f.declarations, d.Named) {name : String} :
    name ∈ (ofFiles [f]).keys ↔ name ∈ (f.declarations.filterMap (·.type?)).map (·.1) := by
  have hfirst : (ofFile f).map (·.1) = ((ofFile f).map label).map (·.1) := by
    rw [List.map_map]
    rfl
  rw [Dictionary.mem_keys, exists_get?_ofFiles, ← labels_ofFile hnamed, ← hfirst]
  simp

/-- The entry of a name that only messages of the file have. -/
theorem get?_ofFile {f : File} (hnamed : ∀ d ∈ f.declarations, d.Named) {name : String}
    (hmessage : name ∈ namesOf .message (f.declarations.filterMap (·.type?)))
    (henum : name ∉ namesOf .enum (f.declarations.filterMap (·.type?))) :
    (ofFiles [f]).get? name = some ⟨f.package, Name.relativeTo f.package name, .message⟩ := by
  have hkey : name ∈ (ofFiles [f]).keys :=
    (mem_keys_ofFile hnamed).2 (mem_names_iff.2 (Or.inl hmessage))
  obtain ⟨e, he⟩ := Dictionary.mem_keys.1 hkey
  have hmem : (name, e) ∈ ofFile f := by
    have hmem' := Dictionary.mem_of_get?_ofList he
    rwa [List.flatMap_singleton] at hmem'
  have hlabel : (name, e.kind) ∈ f.declarations.filterMap (·.type?) := by
    rw [← labels_ofFile hnamed]
    exact List.mem_map.2 ⟨(name, e), hmem, rfl⟩
  have hkind : e.kind = .message := by
    cases hk : e.kind with
    | message => rfl
    | enum => exact absurd (mem_namesOf.2 (hk ▸ hlabel)) henum
  -- the package and the name leave only one place
  have hbinding := package_ofFile hmem
  have hname : name = Name.join f.package e.relativeName := congrArg Prod.fst hbinding
  have hentry : e = ⟨f.package, e.relativeName, e.kind⟩ := congrArg Prod.snd hbinding
  have hplace : Name.relativeTo f.package name = e.relativeName := by
    rw [hname, Name.relativeTo_join]
  rw [he, hentry, hplace, hkind]

end TypeIndex

/-- **The walks agree.** If a file is registered, in whatever registry, the models and the
enumerations that it adds are named as the walk of the renderer names them, in the same order; the
index of the file has these names for keys and no others; and a model whose name is not the name of
an enumeration of the file as well is found in the index as a message, at its place. -/
theorem walks_agree {r r' : Registry} {f : File} (h : r.addFile f = ⟨r', none⟩) :
    ∃ models enums,
      r'.models = r.models ++ models ∧ r'.enums = r.enums ++ enums ∧
      models.map (·.name) = namesOf .message (messagesTypes f.package f.messages) ∧
      enums.map (·.name) =
        namesOf .enum (messagesTypes f.package f.messages) ++
          f.enums.map (fun e => Name.extend f.package e.name) ∧
      (∀ name, name ∈ (TypeIndex.ofFiles [f]).keys ↔
        name ∈ models.map (·.name) ∨ name ∈ enums.map (·.name)) ∧
      ∀ m ∈ models, m.name ∉ enums.map (·.name) →
        (TypeIndex.ofFiles [f]).get? m.name = some ⟨m.package, m.relativeName, .message⟩ := by
  obtain ⟨hwf, rfl⟩ := Registry.eq_pushAll_of_addFile h
  have hnamed : ∀ d ∈ f.declarations, d.Named := fun d hd => (hwf d hd).named
  refine ⟨_, _, Registry.models_pushAll r _, Registry.enums_pushAll r _, ?_, ?_, ?_, ?_⟩
  · rw [names_models, ← fileTypes_eq hnamed, fileTypes, namesOf_append, namesOf_map]
    simp
  · rw [names_enums, ← fileTypes_eq hnamed, fileTypes, namesOf_append, namesOf_map]
    simp
  · intro name
    rw [TypeIndex.mem_keys_ofFile hnamed, mem_names_iff, names_models, names_enums]
  · intro m hm henum
    have hname : m.name ∈ namesOf .message (f.declarations.filterMap (·.type?)) := by
      rw [← names_models f]
      exact List.mem_map_of_mem hm
    rw [names_enums] at henum
    have hpackage : m.package = f.package := by
      obtain ⟨a, ha, hmodel⟩ := List.mem_filterMap.1 hm
      obtain ⟨d, -, rfl⟩ := List.mem_map.1 ha
      cases d with
      | message scope msg =>
        cases hmodel
        rfl
      | enum scope e => cases hmodel
      | service s => cases hmodel
    rw [TypeIndex.get?_ofFile hnamed hname henum, Model.relativeName, hpackage]

/-- A file with a message inside a message, and with an enumeration that has the name of the outer
one, in a registry that is not empty: the inner one is found at its place. -/
theorem walks_agree_nested :
    let inner : Message := { name? := some "Inner", enums := [{ name? := some "Mode" }] }
    let outer : Message := { name? := some "Outer", nested := [inner] }
    let f : File :=
      { package? := some "a.b", messages := [outer], enums := [{ name? := some "Outer" }] }
    let r := Registry.empty.pushModel { name := "a.Old" }
    ∃ r', r.addFile f = ⟨r', none⟩ ∧
      r'.enumNames = ["a.b.Outer.Inner.Mode", "a.b.Outer"] ∧
      "a.b.Outer" ∈ (TypeIndex.ofFiles [f]).keys ∧
      (TypeIndex.ofFiles [f]).get? "a.b.Outer.Inner" = some ⟨"a.b", "Outer.Inner", .message⟩ := by
  intro inner outer f r
  have h : r.addFile f = ⟨(r.addFile f).registry, none⟩ := by decide +kernel
  obtain ⟨models, enums, hmodels, henums, -, hnames, hkeys, hentry⟩ := walks_agree h
  have hlist : (r.addFile f).registry.models =
      r.models ++ [Model.described f "a.b" outer, Model.described f "a.b.Outer" inner] := by
    decide +kernel
  obtain rfl := List.append_cancel_left (hmodels.symm.trans hlist)
  have henumNames : enums.map (·.name) = ["a.b.Outer.Inner.Mode", "a.b.Outer"] :=
    hnames.trans (by decide +kernel)
  refine ⟨_, h, ?_, (hkeys _).2 (Or.inr ?_), ?_⟩
  · rw [Registry.enumNames, henums]
    exact henumNames
  · rw [henumNames]
    decide
  · refine (hentry (Model.described f "a.b.Outer" inner) (by simp) ?_).trans (by decide +kernel)
    rw [henumNames]
    decide +kernel

end Swift

end SwiftRpc
