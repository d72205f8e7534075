import Mathlib.Data.List.Duplicate
import Mathlib.Data.List.Flatten
import SwiftRpc.Plugin.Run
import SwiftRpc.Proofs.Capability
import SwiftRpc.Proofs.Declare

/-!
# When a request becomes a plan

A plan is made exactly if files are requested, the options can be read, every requested file is
there, and the files to generate can be registered together (`Registrable`). Its registry holds
what these files declare, file after file, and nothing of the other ones.
-/

namespace SwiftRpc.Plugin

open SwiftRpc.Api
open SwiftRpc.Descriptor

/-! ## What files declare -/

/-- The requested files for which code is generated, in the order of the request. Of several files
with a name the first one is meant; a file that is requested again comes again. -/
def generatedFiles (r : Request) : List File :=
  (r.filesToGenerate.filterMap fun name => r.files.find? (·.name = name)).filter (·.isGeneratable)

def entries (files : List File) : List Addition :=
  files.flatMap fun f => f.declarations.map (·.entry f)

def declaredModels (files : List File) : List Model := (entries files).filterMap (·.model?)

def declaredEnums (files : List File) : List Enumeration := (entries files).filterMap (·.enum?)

def declaredServices (files : List File) : List Api.Service :=
  (entries files).filterMap (·.service?)

/-- The files can be registered together. -/
structure Registrable (files : List File) : Prop where
  wellFormed : ∀ f ∈ files, ∀ d ∈ f.declarations, d.WellFormed
  models : ((declaredModels files).map (·.name)).Nodup
  enums : ((declaredEnums files).map (·.name)).Nodup
  services : ((declaredServices files).map (·.fullName)).Nodup

def declaredRegistry (files : List File) : Registry := Registry.empty.pushAll (entries files)

theorem models_declaredRegistry (files : List File) :
    (declaredRegistry files).models = declaredModels files := by
  rw [declaredRegistry, Registry.models_pushAll]
  rfl

theorem enums_declaredRegistry (files : List File) :
    (declaredRegistry files).enums = declaredEnums files := by
  rw [declaredRegistry, Registry.enums_pushAll]
  rfl

theorem services_declaredRegistry (files : List File) :
    (declaredRegistry files).services = declaredServices files := by
  rw [declaredRegistry, Registry.services_pushAll]
  rfl

theorem accepts_entries_iff {files : List File} :
    Registry.empty.Accepts (entries files) ↔
      ((declaredModels files).map (·.name)).Nodup ∧ ((declaredEnums files).map (·.name)).Nodup ∧
        ((declaredServices files).map (·.fullName)).Nodup := by
  rw [← models_declaredRegistry, ← enums_declaredRegistry, ← services_declaredRegistry]
  exact ⟨fun h => ⟨h.models, h.enums, h.services⟩, fun h => ⟨h.1, h.2.1, h.2.2⟩⟩

theorem Registrable.valid {files : List File} (h : Registrable files) :
    (declaredRegistry files).Valid :=
  Registry.valid_empty.pushAll (accepts_entries_iff.2 ⟨h.models, h.enums, h.services⟩)

/-! ## Registering files -/

theorem registerFiles_cons {r r' : Registry} {f : File} {rest : List File} :
    registerFiles r (f :: rest) = .ok r' ↔
      ∃ r₁, r.addFile f = ⟨r₁, none⟩ ∧ registerFiles r₁ rest = .ok r' := by
  rw [registerFiles]
  cases hf : r.addFile f with
  | mk r₁ error? =>
    cases error? with
    | none => simp
    | some e => simp

theorem registerFiles_eq_ok {r r' : Registry} (hr : r.Valid) {files : List File} :
    registerFiles r files = .ok r' ↔
      (∀ f ∈ files, ∀ d ∈ f.declarations, d.WellFormed) ∧ r.Accepts (entries files) ∧
        r' = r.pushAll (entries files) := by
  induction files generalizing r with
  | nil =>
    show (Except.ok r : Except DescriptorError Registry) = .ok r' ↔ _
    simp [entries, Registry.pushAll, hr.accepts_nil, eq_comm]
  | cons f rest ih =>
    rw [registerFiles_cons, List.forall_mem_cons]
    simp only [Registry.addFile_eq_overList, Registry.overList_declare_eq_done hr]
    have hcons : entries (f :: rest) = f.declarations.map (·.entry f) ++ entries rest := rfl
    rw [hcons, Registry.accepts_append, Registry.pushAll_append]
    constructor
    · rintro ⟨r₁, ⟨hf, hacc, rfl⟩, hrest⟩
      obtain ⟨hwf, hacc', rfl⟩ := (ih (hr.pushAll hacc)).1 hrest
      exact ⟨⟨hf, hwf⟩, ⟨hacc, hacc'⟩, rfl⟩
    · rintro ⟨⟨hf, hwf⟩, ⟨hacc, hacc'⟩, rfl⟩
      exact ⟨_, ⟨hf, hacc, rfl⟩, (ih (hr.pushAll hacc)).2 ⟨hwf, hacc', rfl⟩⟩

theorem registerFiles_empty_eq_ok {r' : Registry} {files : List File} :
    registerFiles Registry.empty files = .ok r' ↔
      Registrable files ∧ r' = declaredRegistry files := by
  rw [registerFiles_eq_ok Registry.valid_empty, accepts_entries_iff]
  constructor
  · rintro ⟨hwf, ⟨hm, he, hs⟩, rfl⟩
    exact ⟨⟨hwf, hm, he, hs⟩, rfl⟩
  · rintro ⟨⟨hwf, hm, he, hs⟩, rfl⟩
    exact ⟨hwf, ⟨hm, he, hs⟩, rfl⟩

/-! ## Finding the requested files -/

theorem findFile_eq_ok {files : List File} {name : String} {f : File} :
    findFile files name = .ok f ↔ files.find? (·.name = name) = some f := by
  rw [findFile]
  cases files.find? (·.name = name) <;> simp

theorem find?_isSome_iff {files : List File} {name : String} :
    (∃ f, files.find? (·.name = name) = some f) ↔ ∃ f ∈ files, f.name = name := by
  rw [← Option.isSome_iff_exists, List.find?_isSome]
  simp

theorem mapM_findFile_eq_ok {files : List File} {names : List String} {found : List File} :
    names.mapM (findFile files) = .ok found ↔
      (∀ name ∈ names, ∃ f ∈ files, f.name = name) ∧
        found = names.filterMap fun name => files.find? (·.name = name) := by
  induction names generalizing found with
  | nil => simp [Outcome.pure_eq_ok]
  | cons name rest ih =>
    simp only [List.mapM_cons, Outcome.bind_eq_ok, Outcome.pure_eq_ok, ih, findFile_eq_ok,
      List.forall_mem_cons]
    rw [← find?_isSome_iff]
    constructor
    · rintro ⟨f, hf, found, ⟨hrest, rfl⟩, rfl⟩
      exact ⟨⟨⟨f, hf⟩, hrest⟩, by rw [List.filterMap_cons, hf]⟩
    · rintro ⟨⟨⟨f, hf⟩, hrest⟩, rfl⟩
      exact ⟨f, hf, _, ⟨hrest, rfl⟩, by rw [List.filterMap_cons, hf]⟩

/-! ## Making the plan -/

/-- Every requested file is there. -/
def AllKnown (r : Request) : Prop := ∀ name ∈ r.filesToGenerate, ∃ f ∈ r.files, f.name = name

theorem ofRequest_eq_ok {r : Request} {plan : Plan} :
    Plan.ofRequest r = .ok plan ↔
      r.filesToGenerate ≠ [] ∧ Options.parse r.parameter? = .ok plan.options ∧ AllKnown r ∧
        Registrable (generatedFiles r) ∧ plan.files = generatedFiles r ∧
        plan.registry = (declaredRegistry (generatedFiles r)).applyCapabilities := by
  simp only [Plan.ofRequest, requestedFiles, Outcome.refused_eq_ok, Outcome.bind_eq_ok,
    Outcome.pure_eq_ok, Outcome.mapError_eq_ok, mapM_findFile_eq_ok, registerFiles_empty_eq_ok]
  constructor
  · rintro ⟨hne, options, hopt, _, ⟨hknown, rfl⟩, _, ⟨hreg, rfl⟩, rfl⟩
    exact ⟨hne, hopt, hknown, hreg, rfl, rfl⟩
  · rintro ⟨hne, hopt, hknown, hreg, hfiles, hregistry⟩
    refine ⟨hne, plan.options, hopt, _, ⟨hknown, rfl⟩, _, ⟨hreg, rfl⟩, ?_⟩
    cases plan
    simp only [Plan.mk.injEq] at hfiles hregistry ⊢
    exact ⟨hregistry, trivial, hfiles⟩

theorem mem_declarations_of_service {f : File} {s : Descriptor.Service} (hs : s ∈ f.services) :
    .service s ∈ f.declarations :=
  List.mem_append_right _ (List.mem_map_of_mem hs)

theorem hasServices_of_isGeneratable {f : File} (h : f.isGeneratable = true) :
    f.hasServices = true := by
  rw [File.isGeneratable, Bool.and_eq_true] at h
  exact h.2

/-- A file without services is not generated, so every generated one declares a service. -/
theorem declaredServices_ne_nil {f : File} (h : f.isGeneratable = true) :
    declaredServices [f] ≠ [] := by
  have hs : f.services ≠ [] := by
    simpa [File.hasServices] using hasServices_of_isGeneratable h
  obtain ⟨s, hs⟩ := List.exists_mem_of_ne_nil _ hs
  refine List.ne_nil_of_mem (List.mem_filterMap.2 ⟨.service (Service.described f s), ?_, rfl⟩)
  refine List.mem_flatMap.2 ⟨f, List.mem_singleton_self f, List.mem_map.2 ⟨.service s, ?_, rfl⟩⟩
  exact mem_declarations_of_service hs

theorem declaredServices_append (files files' : List File) :
    declaredServices (files ++ files') = declaredServices files ++ declaredServices files' := by
  rw [declaredServices, entries, List.flatMap_append, List.filterMap_append]
  rfl

/-- A file cannot be generated twice: its services would be there twice. -/
theorem not_registrable_of_twice {files : List File} {f : File}
    (hf : f.isGeneratable = true) (h : [f, f].Sublist files) : ¬ Registrable files := by
  intro hreg
  have hsub : (entries [f, f]).Sublist (entries files) := h.flatMap _
  have hnd := ((hsub.filterMap (·.service?)).map (·.fullName)).nodup hreg.services
  change ((declaredServices ([f] ++ [f])).map (·.fullName)).Nodup at hnd
  rw [declaredServices_append, List.map_append] at hnd
  -- a service of the file would be declared by both of its copies
  obtain ⟨s, hs⟩ := List.exists_mem_of_ne_nil _ (declaredServices_ne_nil hf)
  have hin := List.mem_map_of_mem (f := (·.fullName)) hs
  exact (List.nodup_append.1 hnd).2.2 _ hin _ hin rfl

theorem sublist_generatedFiles_of_twice {r : Request} {name : String} {f : File}
    (h : 1 < r.filesToGenerate.count name) (hname : r.files.find? (·.name = name) = some f)
    (hf : f.isGeneratable = true) : [f, f].Sublist (generatedFiles r) := by
  have hsub := List.duplicate_iff_sublist.1 (List.duplicate_iff_two_le_count.2 h)
  have hmap := (hsub.filterMap fun name => r.files.find? (·.name = name)).filter (·.isGeneratable)
  simpa [hname, hf, generatedFiles] using hmap

theorem mem_entries {files : List File} {f : File} {d : Declaration} (hf : f ∈ files)
    (hd : d ∈ f.declarations) : d.entry f ∈ entries files :=
  List.mem_flatMap.2 ⟨f, hf, List.mem_map_of_mem hd⟩

theorem mem_declaredModels {files : List File} {model : Model} :
    model ∈ declaredModels files ↔ ∃ f ∈ files, ∃ scope m,
      .message scope m ∈ f.declarations ∧ model = Model.described f scope m := by
  constructor
  · intro h
    obtain ⟨a, ha, hmodel⟩ := List.mem_filterMap.1 h
    obtain ⟨f, hf, ha⟩ := List.mem_flatMap.1 ha
    obtain ⟨d, hd, rfl⟩ := List.mem_map.1 ha
    cases d with
    | message scope m => exact ⟨f, hf, scope, m, hd, (Option.some.inj hmodel).symm⟩
    | enum scope e => cases hmodel
    | service s => cases hmodel
  · rintro ⟨f, hf, scope, m, hm, rfl⟩
    exact List.mem_filterMap.2 ⟨_, mem_entries hf hm, rfl⟩

theorem mem_declaredServices {files : List File} {f : File} (hf : f ∈ files)
    {s : Descriptor.Service} (hs : s ∈ f.services) :
    Service.described f s ∈ declaredServices files :=
  List.mem_filterMap.2 ⟨_, mem_entries hf (mem_declarations_of_service hs), rfl⟩

theorem bare_declaredModels (files : List File) :
    (declaredModels files).map Model.bare = declaredModels files := by
  refine (List.map_congr_left fun model hm => ?_).trans (List.map_id _)
  obtain ⟨f, -, scope, m, -, rfl⟩ := mem_declaredModels.1 hm
  rfl

section OfRequest

variable {r : Request} {plan : Plan}

theorem valid_of_ofRequest (h : Plan.ofRequest r = .ok plan) : plan.registry.Valid := by
  obtain ⟨-, -, -, hreg, -, hregistry⟩ := ofRequest_eq_ok.1 h
  rw [hregistry]
  exact hreg.valid.applyCapabilities

theorem bare_of_ofRequest (h : Plan.ofRequest r = .ok plan) :
    plan.registry.bare = (declaredRegistry (generatedFiles r)).bare := by
  obtain ⟨-, -, -, -, -, hregistry⟩ := ofRequest_eq_ok.1 h
  rw [hregistry, Registry.bare_applyCapabilities]

theorem models_of_ofRequest (h : Plan.ofRequest r = .ok plan) :
    plan.registry.models.map Model.bare = declaredModels (generatedFiles r) := by
  rw [Registry.models_of_bare (bare_of_ofRequest h), models_declaredRegistry,
    bare_declaredModels]

theorem enums_of_ofRequest (h : Plan.ofRequest r = .ok plan) :
    plan.registry.enums = declaredEnums (generatedFiles r) := by
  rw [Registry.enums_of_bare (bare_of_ofRequest h), enums_declaredRegistry]

theorem services_of_ofRequest (h : Plan.ofRequest r = .ok plan) :
    plan.registry.services = declaredServices (generatedFiles r) := by
  rw [Registry.services_of_bare (bare_of_ofRequest h), services_declaredRegistry]

theorem wellFormed_of_ofRequest (h : Plan.ofRequest r = .ok plan) {f : File}
    (hf : f ∈ generatedFiles r) : ∀ d ∈ f.declarations, d.WellFormed := by
  obtain ⟨-, -, -, hreg, -⟩ := ofRequest_eq_ok.1 h
  exact hreg.wellFormed f hf

/-! ## Every declaration of a generated file is registered -/

theorem registered_message (h : Plan.ofRequest r = .ok plan) {f : File}
    (hf : f ∈ generatedFiles r) {scope : String} {m : Message}
    (hm : .message scope m ∈ f.declarations) :
    ∃ model, plan.registry.model? (Name.join scope m.name) = some model ∧
      model.bare = (Model.described f scope m).bare := by
  have hmem : Model.described f scope m ∈ plan.registry.models.map Model.bare := by
    rw [models_of_ofRequest h]
    exact mem_declaredModels.2 ⟨f, hf, scope, m, hm, rfl⟩
  obtain ⟨model, hmodel, hbare⟩ := List.mem_map.1 hmem
  refine ⟨model, (valid_of_ofRequest h).model?_eq_some.2 ⟨hmodel, ?_⟩, hbare⟩
  show model.bare.name = _
  rw [hbare]
  rfl

theorem registered_enum (h : Plan.ofRequest r = .ok plan) {f : File}
    (hf : f ∈ generatedFiles r) {scope : String} {e : Enum}
    (he : .enum scope e ∈ f.declarations) :
    plan.registry.enumeration? (Name.join scope e.name) =
      some (Enumeration.described f scope e) := by
  refine (valid_of_ofRequest h).enumeration?_eq_some.2 ⟨?_, rfl⟩
  rw [enums_of_ofRequest h]
  exact List.mem_filterMap.2 ⟨_, mem_entries hf he, rfl⟩

theorem registered_service (h : Plan.ofRequest r = .ok plan) {f : File}
    (hf : f ∈ generatedFiles r) {s : Descriptor.Service} (hs : s ∈ f.services) :
    plan.registry.service? (Name.join f.package s.name) = some (Service.described f s) := by
  refine (valid_of_ofRequest h).service?_eq_some.2 ⟨?_, rfl⟩
  rw [services_of_ofRequest h]
  exact mem_declaredServices hf hs

end OfRequest

/-- **When a request becomes a plan, and which.** Files are requested, the options can be read,
every requested file is known, and the generated files name all that has to be named and declare
no name twice. The registry then holds their declarations in order, marked with capabilities. A
file that is requested twice cannot be generated, and whatever else is in the request, be it well
formed or not, makes no difference. -/
theorem ofRequest_exact (r : Request) :
    ((∃ plan, Plan.ofRequest r = .ok plan) ↔
      r.filesToGenerate ≠ [] ∧ (∃ options, Options.parse r.parameter? = .ok options) ∧
        AllKnown r ∧ Registrable (generatedFiles r)) ∧
    (∀ plan, Plan.ofRequest r = .ok plan →
      Options.parse r.parameter? = .ok plan.options ∧
      plan.files = generatedFiles r ∧
      plan.registry.models.map Model.bare = declaredModels (generatedFiles r) ∧
      plan.registry.enums = declaredEnums (generatedFiles r) ∧
      plan.registry.services = declaredServices (generatedFiles r)) ∧
    (∀ name f, 1 < r.filesToGenerate.count name →
      r.files.find? (·.name = name) = some f → f.isGeneratable = true →
      ∀ plan, Plan.ofRequest r ≠ .ok plan) ∧
    (∀ r' plan, Plan.ofRequest r = .ok plan → r'.filesToGenerate ≠ [] →
      r'.parameter? = r.parameter? → AllKnown r' → generatedFiles r' = generatedFiles r →
      Plan.ofRequest r' = .ok plan) := by
  refine ⟨⟨?_, ?_⟩, ?_, ?_, ?_⟩
  · rintro ⟨plan, h⟩
    obtain ⟨hne, hopt, hknown, hreg, -⟩ := ofRequest_eq_ok.1 h
    exact ⟨hne, ⟨plan.options, hopt⟩, hknown, hreg⟩
  · rintro ⟨hne, ⟨options, hopt⟩, hknown, hreg⟩
    exact ⟨⟨_, options, _⟩, ofRequest_eq_ok.2 ⟨hne, hopt, hknown, hreg, rfl, rfl⟩⟩
  · intro plan h
    obtain ⟨-, hopt, -, -, hfiles, -⟩ := ofRequest_eq_ok.1 h
    exact ⟨hopt, hfiles, models_of_ofRequest h, enums_of_ofRequest h, services_of_ofRequest h⟩
  · intro name f htwice hname hf plan h
    obtain ⟨-, -, -, hreg, -⟩ := ofRequest_eq_ok.1 h
    exact not_registrable_of_twice hf (sublist_generatedFiles_of_twice htwice hname hf) hreg
  · intro r' plan h hne hparam hknown hfiles
    obtain ⟨-, hopt, -, hreg, hplan⟩ := ofRequest_eq_ok.1 h
    rw [← hfiles] at hreg hplan
    rw [← hparam] at hopt
    exact ofRequest_eq_ok.2 ⟨hne, hopt, hknown, hreg, hplan⟩

/-- Beside a file without services that declares a message without a name, a file with nested
messages is registered; requested twice, it is refused. -/
theorem ofRequest_exact_nested :
    let file : File :=
      { name? := some "a.proto"
        package? := some "a"
        messages := [{ name? := some "Outer", nested := [{ name? := some "Inner" }] }]
        services := [{ name? := some "Desk" }] }
    let bad : File := { name? := some "bad.proto", messages := [{}] }
    let once : Request := { filesToGenerate := ["bad.proto", "a.proto"], files := [file, bad] }
    let twice : Request := { filesToGenerate := ["a.proto", "a.proto"], files := [file, bad] }
    (∃ plan, Plan.ofRequest once = .ok plan ∧
      plan.registry.models.map (·.name) = ["a.Outer", "a.Outer.Inner"]) ∧
    ∀ plan, Plan.ofRequest twice ≠ .ok plan := by
  intro file bad once twice
  have hok : (Plan.ofRequest once).toOption.isSome = true := by decide +kernel
  obtain ⟨plan, hplan⟩ := Outcome.exists_eq_ok_iff.2 hok
  refine ⟨⟨plan, hplan, ?_⟩, ?_⟩
  · have hmodels := ((ofRequest_exact once).2.1 plan hplan).2.2.1
    have hnames := congrArg (List.map (·.name)) hmodels
    rw [List.map_map] at hnames
    exact hnames.trans (by decide +kernel)
  · exact (ofRequest_exact twice).2.2.1 "a.proto" file (by decide +kernel) rfl (by decide +kernel)

end SwiftRpc.Plugin
