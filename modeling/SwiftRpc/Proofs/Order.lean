import Mathlib.Data.List.Perm.Basic
import SwiftRpc.Proofs.Output

/-!
# The order of the request does not matter

Requesting files in another order registers their declarations in another order: every model gets
another position, and capabilities spread in other rounds. What a file becomes depends on none of
this. It depends on the registry only through which models are there (`SameModels`), and two
registries that were made from the same declarations have the same models, with the same
capabilities, since these are reachability.
-/

namespace SwiftRpc.Api.Registry

/-- The registries hold the same models, in whatever order. -/
def SameModels (r r' : Registry) : Prop := ∀ m, m ∈ r.models ↔ m ∈ r'.models

section SameModels

variable {r r' : Registry}

theorem SameModels.mem_modelNames (h : r.SameModels r') {name : String} :
    name ∈ r.modelNames ↔ name ∈ r'.modelNames := by
  simp only [modelNames, List.mem_map]
  exact exists_congr fun m => and_congr_left fun _ => h m

theorem SameModels.mem_bare (h : r.SameModels r') {m : Model} :
    m ∈ r.models.map Model.bare ↔ m ∈ r'.models.map Model.bare := by
  simp only [List.mem_map]
  exact exists_congr fun m => and_congr_left fun _ => h m

theorem SameModels.model? (h : r.SameModels r') (hr : r.Valid) (hr' : r'.Valid) (name : String) :
    r.model? name = r'.model? name := by
  apply Option.ext
  intro m
  rw [hr.model?_eq_some, hr'.model?_eq_some]
  exact and_congr_left fun _ => h m

theorem SameModels.inlines (h : r.SameModels r') : r.Inlines = r'.Inlines := by
  funext a b
  refine propext (and_congr h.mem_modelNames ?_)
  exact exists_congr fun m => and_congr_left fun _ => h m

theorem SameModels.containsItself (h : r.SameModels r') (hr : r.Valid) (hr' : r'.Valid)
    {m : Model} (hm : m ∈ r.models) : r.containsItself m = r'.containsItself m := by
  rw [Bool.eq_iff_iff, containsItself_iff hr hm, containsItself_iff hr' ((h m).1 hm), h.inlines]

/-! ## Capabilities of the same models -/

theorem SameModels.refers (h : r.SameModels r') : r.Refers = r'.Refers := by
  funext a b
  refine propext (and_congr h.mem_modelNames ?_)
  exact exists_congr fun m => and_congr_left fun _ => h m

theorem SameModels.needs (h : r.SameModels r')
    (hservices : ∀ s, s ∈ r.services ↔ s ∈ r'.services) {c : Capability} {b : String} :
    r.Needs c b ↔ r'.Needs c b := by
  have hasked : ∀ a, r.Asked c a ↔ r'.Asked c a := by
    intro a
    refine and_congr h.mem_modelNames (or_congr ?_ ?_)
    · exact exists_congr fun m => and_congr_left fun _ => h m
    · exact exists_congr fun s => and_congr_left fun _ => hservices s
  unfold Needs
  rw [h.refers]
  exact exists_congr fun a => and_congr_left fun _ => hasked a

/-- Which models there are after capabilities were applied. -/
theorem Valid.mem_applyCapabilities (hr : r.Valid) {m : Model} :
    m ∈ r.applyCapabilities.models ↔
      m.bare ∈ r.models.map Model.bare ∧ ∀ c, m.can c = true ↔ r.Needs c m.name := by
  rw [← models_of_bare (bare_applyCapabilities r)]
  constructor
  · intro hm
    exact ⟨List.mem_map_of_mem hm, fun c => hr.can_iff_needs hm⟩
  · rintro ⟨hm, hcan⟩
    obtain ⟨m', hm', hbare⟩ := List.mem_map.1 hm
    -- the two have the same name, so they need the same capabilities
    have hsame : m' = m := by
      refine Model.ext_of_bare hbare fun c => ?_
      rw [Bool.eq_iff_iff, hr.can_iff_needs hm', hcan, Model.name_of_bare hbare]
    exact hsame ▸ hm'

theorem SameModels.applyCapabilities (h : r.SameModels r') (hr : r.Valid) (hr' : r'.Valid)
    (hservices : ∀ s, s ∈ r.services ↔ s ∈ r'.services) :
    r.applyCapabilities.SameModels r'.applyCapabilities := by
  intro m
  rw [hr.mem_applyCapabilities, hr'.mem_applyCapabilities, h.mem_bare]
  exact and_congr_right fun _ => forall_congr' fun c => by rw [h.needs hservices]

end SameModels

end SwiftRpc.Api.Registry

namespace SwiftRpc.Swift

open SwiftRpc.Api

/-! ## Structures from the same models -/

section Structures

variable {r r' : Registry} (h : r.SameModels r') (hr : r.Valid) (hr' : r'.Valid)

include h hr hr'

theorem ofField_congr (index : TypeIndex) (m : Model) :
    Property.ofField r index m = Property.ofField r' index m := by
  funext f
  unfold Property.ofField entryModel?
  rw [h.model? hr hr']

theorem renderModel_congr (index : TypeIndex) {m : Model} (hm : m ∈ r.models) :
    renderModel r index m = renderModel r' index m := by
  unfold renderModel Struct.ofModel
  rw [h.containsItself hr hr' hm, ofField_congr h hr hr']

end Structures

end SwiftRpc.Swift

namespace SwiftRpc.Plugin

open SwiftRpc.Api
open SwiftRpc.Descriptor
open SwiftRpc.Swift

theorem renders_congr {registry registry' : Registry} (h : registry.SameModels registry')
    (hr : registry.Valid) (hr' : registry'.Valid) (index : TypeIndex) (f : File) :
    Renders registry index f = Renders registry' index f := by
  funext d text
  cases d with
  | message scope m =>
    refine propext (exists_congr fun model => ?_)
    rw [← h.model? hr hr']
    refine and_congr_right fun hmodel => ?_
    rw [renderModel_congr h hr hr' index (hr.model?_eq_some.1 hmodel).1]
  | enum scope e => rfl
  | service s => rfl

theorem fileOutput_congr {plan plan' : Plan} (hoptions : plan.options = plan'.options)
    (h : plan.registry.SameModels plan'.registry) (hr : plan.registry.Valid)
    (hr' : plan'.registry.Valid) (index : TypeIndex) (f : File) :
    FileOutput plan index f = FileOutput plan' index f := by
  funext output
  unfold FileOutput ModelOutput
  rw [renders_congr h hr hr', hoptions]

/-! ## Requests in another order -/

/-- The requests ask for the same files of the same descriptors, in whatever order. -/
structure Reordered (r r' : Request) : Prop where
  requested : r.filesToGenerate.Perm r'.filesToGenerate
  files : r.files = r'.files
  parameter : r.parameter? = r'.parameter?

section Reordered

variable {r r' : Request}

theorem Reordered.symm (h : Reordered r r') : Reordered r' r :=
  ⟨h.requested.symm, h.files.symm, h.parameter.symm⟩

theorem Reordered.generatedFiles (h : Reordered r r') :
    (generatedFiles r).Perm (generatedFiles r') := by
  unfold Plugin.generatedFiles
  rw [h.files]
  exact (h.requested.filterMap _).filter _

theorem Reordered.allKnown (h : Reordered r r') (hknown : AllKnown r) : AllKnown r' := by
  intro name hname
  rw [← h.files]
  exact hknown name (h.requested.mem_iff.2 hname)

theorem entries_perm {files files' : List File} (h : files.Perm files') :
    (entries files).Perm (entries files') :=
  h.flatMap_right _

theorem Registrable.perm {files files' : List File} (h : files.Perm files')
    (hreg : Registrable files) : Registrable files' where
  wellFormed f hf := hreg.wellFormed f (h.mem_iff.2 hf)
  models := (((entries_perm h).filterMap _).map _).nodup_iff.1 hreg.models
  enums := (((entries_perm h).filterMap _).map _).nodup_iff.1 hreg.enums
  services := (((entries_perm h).filterMap _).map _).nodup_iff.1 hreg.services

theorem sameModels_of_perm {files files' : List File} (h : files.Perm files')
    (hreg : Registrable files) :
    (declaredRegistry files).applyCapabilities.SameModels
      (declaredRegistry files').applyCapabilities := by
  have hmodels : (declaredRegistry files).SameModels (declaredRegistry files') := by
    intro m
    rw [models_declaredRegistry, models_declaredRegistry]
    exact ((entries_perm h).filterMap _).mem_iff
  refine hmodels.applyCapabilities hreg.valid (hreg.perm h).valid ?_
  intro s
  rw [services_declaredRegistry, services_declaredRegistry]
  exact ((entries_perm h).filterMap _).mem_iff

/-- The other request becomes a plan as well, with the same models. -/
theorem Reordered.exists_plan (h : Reordered r r') {plan : Plan}
    (hplan : Plan.ofRequest r = .ok plan) :
    ∃ plan', Plan.ofRequest r' = .ok plan' ∧ plan.options = plan'.options ∧
      plan.registry.SameModels plan'.registry := by
  obtain ⟨hne, hopt, hknown, hreg, -, hregistry⟩ := ofRequest_eq_ok.1 hplan
  have hne' : r'.filesToGenerate ≠ [] := by
    intro hnil
    have hperm := h.requested
    rw [hnil] at hperm
    exact hne hperm.eq_nil
  rw [h.parameter] at hopt
  refine ⟨⟨(declaredRegistry (Plugin.generatedFiles r')).applyCapabilities, plan.options,
    Plugin.generatedFiles r'⟩, ofRequest_eq_ok.2 ⟨hne', hopt, h.allKnown hknown,
    hreg.perm h.generatedFiles, rfl, rfl⟩, rfl, ?_⟩
  rw [hregistry]
  exact sameModels_of_perm h.generatedFiles hreg

theorem Reordered.sameModels (h : Reordered r r') {plan plan' : Plan}
    (hplan : Plan.ofRequest r = .ok plan) (hplan' : Plan.ofRequest r' = .ok plan') :
    plan.options = plan'.options ∧ plan.registry.SameModels plan'.registry := by
  obtain ⟨plan₀, hplan₀, hsame⟩ := h.exists_plan hplan
  rw [hplan'] at hplan₀
  cases hplan₀
  exact hsame

theorem Reordered.fileOutput (h : Reordered r r') {plan plan' : Plan}
    (hplan : Plan.ofRequest r = .ok plan) (hplan' : Plan.ofRequest r' = .ok plan')
    (index : TypeIndex) (f : File) : FileOutput plan index f = FileOutput plan' index f := by
  obtain ⟨hoptions, hmodels⟩ := h.sameModels hplan hplan'
  exact fileOutput_congr hoptions hmodels (valid_of_ofRequest hplan) (valid_of_ofRequest hplan')
    index f

end Reordered

/-! ## Answers -/

theorem exists_run_error {r : Request} :
    (∃ e, run r = .error e) ↔ ¬ ∃ plan, Plan.ofRequest r = .ok plan := by
  rw [run]
  cases Plan.ofRequest r with
  | error e => simp [Except.map]
  | ok plan => simp [Except.map]

theorem exists_plan_of_run {r : Request} {response : Response} (h : run r = .ok response) :
    ∃ plan, Plan.ofRequest r = .ok plan ∧
      plan.render (renderer (TypeIndex.ofFiles r.files) plan.options) = response :=
  Outcome.map_eq_ok.1 h

/-- What a generated file contributes to the answer. -/
def Contributes (r : Request) (f : File) (output : List GeneratedFile) : Prop :=
  ∃ plan, Plan.ofRequest r = .ok plan ∧
    renderer (TypeIndex.ofFiles r.files) plan.options plan.registry f = .ok output

theorem contributes_iff {r : Request} {plan : Plan} (hplan : Plan.ofRequest r = .ok plan)
    {f : File} (hf : f ∈ generatedFiles r) {output : List GeneratedFile} :
    Contributes r f output ↔ FileOutput plan (TypeIndex.ofFiles r.files) f output := by
  rw [← renderer_eq_ok hplan hf]
  constructor
  · rintro ⟨plan₀, hplan₀, houtput⟩
    rw [hplan] at hplan₀
    cases hplan₀
    exact houtput
  · intro houtput
    exact ⟨plan, hplan, houtput⟩

theorem error?_eq_none_iff_contributes {r : Request} {response : Response}
    (hrun : run r = .ok response) :
    response.error? = none ↔ ∀ f ∈ generatedFiles r, ∃ output, Contributes r f output := by
  obtain ⟨plan, hplan, rfl⟩ := exists_plan_of_run hrun
  rw [error?_eq_none_iff hplan]
  exact forall₂_congr fun f hf => exists_congr fun output => (contributes_iff hplan hf).symm

/-- The answer is made of what the files contribute, in the order of the request. -/
theorem files_of_contributes {r : Request} {response : Response} (hrun : run r = .ok response)
    {output : File → List GeneratedFile}
    (h : ∀ f ∈ generatedFiles r, Contributes r f (output f)) :
    response.files = ((generatedFiles r).flatMap output).map fun g =>
      { name? := some g.name, content? := some g.content } := by
  obtain ⟨plan, hplan, rfl⟩ := exists_plan_of_run hrun
  have houtputs : List.Forall₂ (FileOutput plan (TypeIndex.ofFiles r.files)) (generatedFiles r)
      ((generatedFiles r).map output) := by
    rw [List.forall₂_map_right_iff, List.forall₂_same]
    exact fun f hf => (contributes_iff hplan hf).1 (h f hf)
  rw [render_of_outputs ((forall₂_fileOutput hplan).2 houtputs), List.flatMap_def]

theorem Reordered.contributes {r r' : Request} (h : Reordered r r') {f : File}
    (hf : f ∈ Plugin.generatedFiles r) {output : List GeneratedFile}
    (hc : Contributes r f output) : Contributes r' f output := by
  obtain ⟨plan, hplan, houtput⟩ := hc
  obtain ⟨plan', hplan', -⟩ := h.exists_plan hplan
  rw [contributes_iff hplan' (h.generatedFiles.mem_iff.1 hf), ← h.fileOutput hplan hplan',
    ← h.files, ← renderer_eq_ok hplan hf]
  exact houtput

/-- **The order of the request does not matter.** If the files are requested in another order, the
request is refused if it was refused before, and its answer carries an error if it carried one. If
not, every generated file contributes the same output to both answers, so the second answer is the
first one with the outputs of its files in another order. -/
theorem run_perm {r : Request} {names : List String} (h : names.Perm r.filesToGenerate) :
    let r' : Request := { r with filesToGenerate := names }
    ((∃ e, run r' = .error e) ↔ ∃ e, run r = .error e) ∧
    ∀ response response', run r = .ok response → run r' = .ok response' →
      (response'.error? = none ↔ response.error? = none) ∧
      (response.error? = none →
        (generatedFiles r').Perm (generatedFiles r) ∧
        ∃ output : File → List GeneratedFile,
          (∀ f ∈ generatedFiles r, Contributes r f (output f) ∧ Contributes r' f (output f)) ∧
          response.files = ((generatedFiles r).flatMap output).map (fun g =>
            { name? := some g.name, content? := some g.content }) ∧
          response'.files = ((generatedFiles r').flatMap output).map fun g =>
            { name? := some g.name, content? := some g.content }) := by
  intro r'
  have hr : Reordered r r' := ⟨h.symm, rfl, rfl⟩
  refine ⟨?_, ?_⟩
  · rw [exists_run_error, exists_run_error]
    refine not_congr ⟨?_, ?_⟩
    · rintro ⟨plan, hplan⟩
      obtain ⟨plan', hplan', -⟩ := hr.symm.exists_plan hplan
      exact ⟨plan', hplan'⟩
    · rintro ⟨plan, hplan⟩
      obtain ⟨plan', hplan', -⟩ := hr.exists_plan hplan
      exact ⟨plan', hplan'⟩
  · intro response response' hrun hrun'
    have hfiles : ∀ f, f ∈ generatedFiles r ↔ f ∈ generatedFiles r' :=
      fun f => hr.generatedFiles.mem_iff
    rw [error?_eq_none_iff_contributes hrun, error?_eq_none_iff_contributes hrun']
    refine ⟨⟨?_, ?_⟩, ?_⟩
    · intro hall f hf
      obtain ⟨output, houtput⟩ := hall f ((hfiles f).1 hf)
      exact ⟨output, hr.symm.contributes ((hfiles f).1 hf) houtput⟩
    · intro hall f hf
      obtain ⟨output, houtput⟩ := hall f ((hfiles f).2 hf)
      exact ⟨output, hr.contributes ((hfiles f).2 hf) houtput⟩
    · intro hall
      have htotal : ∀ f, ∃ output, f ∈ generatedFiles r → Contributes r f output := by
        intro f
        by_cases hf : f ∈ generatedFiles r
        · obtain ⟨output, houtput⟩ := hall f hf
          exact ⟨output, fun _ => houtput⟩
        · exact ⟨[], fun hf' => absurd hf' hf⟩
      choose output houtput using htotal
      have houtput' : ∀ f ∈ generatedFiles r', Contributes r' f (output f) := by
        intro f hf
        exact hr.contributes ((hfiles f).2 hf) (houtput f ((hfiles f).2 hf))
      refine ⟨hr.symm.generatedFiles, output, ?_, files_of_contributes hrun houtput,
        files_of_contributes hrun' houtput'⟩
      intro f hf
      exact ⟨houtput f hf, houtput' f ((hfiles f).1 hf)⟩

/-- A service and the message that it takes, declared in two files: in either order the message
becomes encodable, and only the order of the answer differs. -/
theorem run_perm_desk :
    let put : Descriptor.Method :=
      { name? := some "Put", inputType? := some ".m.Box", outputType? := some ".m.Box" }
    let types : File :=
      { name? := some "m.proto", package? := some "m", messages := [{ name? := some "Box" }],
        services := [{ name? := some "Idle" }] }
    let calls : File :=
      { name? := some "desk.proto", services := [{ name? := some "Desk", methods := [put] }] }
    let r : Request :=
      { filesToGenerate := ["desk.proto", "m.proto"], files := [types, calls] }
    ∃ response response', run r = .ok response ∧
      run { r with filesToGenerate := ["m.proto", "desk.proto"] } = .ok response' ∧
      response'.error? = none ∧ response'.files.Perm response.files ∧
      response'.files ≠ response.files := by
  intro put types calls r
  have hswap : ["m.proto", "desk.proto"].Perm r.filesToGenerate := List.Perm.swap ..
  have hok : (run r).toOption.isSome = true := by decide +kernel
  obtain ⟨response, hrun⟩ := Outcome.exists_eq_ok_iff.2 hok
  have hnone : response.error? = none := by
    have hrendered : (run r).toOption.bind (·.error?) = none := by decide +kernel
    rw [hrun] at hrendered
    exact hrendered
  obtain ⟨hfatal, hanswers⟩ := run_perm hswap
  cases hrun' : run { r with filesToGenerate := ["m.proto", "desk.proto"] } with
  | error e =>
    obtain ⟨e', he'⟩ := hfatal.1 ⟨e, hrun'⟩
    rw [hrun] at he'
    cases he'
  | ok response' =>
    obtain ⟨herror, hfiles⟩ := hanswers response response' hrun hrun'
    obtain ⟨hperm, output, -, hout, hout'⟩ := hfiles hnone
    refine ⟨response, response', hrun, rfl, herror.2 hnone, ?_, ?_⟩
    · rw [hout, hout']
      exact (hperm.flatMap_right _).map _
    · have hne : ((run { r with filesToGenerate := ["m.proto", "desk.proto"] }).toOption.map
          (·.files)) ≠ (run r).toOption.map (·.files) := by decide +kernel
      rw [hrun, hrun'] at hne
      exact fun heq => hne (congrArg some heq)

end SwiftRpc.Plugin
