import Mathlib.Data.List.Perm.Subperm
import SwiftRpc.Proofs.Order

/-!
# Requesting more files only adds

More requested files bring more models, more services and more references between models, and they
come between the ones that were there before. What a request has registered stays registered, since
no name can be taken twice in a request that is answered; what a model can do it can still do, since
capabilities are reachability and there is more to reach it from (`Within.needs`). The file of
clients that is made for a requested file depends on no model at all.
-/

namespace SwiftRpc.Api.Registry

/-- All models and services of `r` are in `r'`, in whatever place. -/
structure Within (r r' : Registry) : Prop where
  models : ∀ m ∈ r.models, m ∈ r'.models
  services : ∀ s ∈ r.services, s ∈ r'.services

namespace Within

variable {r r' : Registry} {c : Capability} {a b : String}

theorem mem_modelNames (h : r.Within r') (ha : a ∈ r.modelNames) : a ∈ r'.modelNames := by
  obtain ⟨m, hm, rfl⟩ := List.mem_map.1 ha
  exact List.mem_map_of_mem (h.models m hm)

theorem refers (h : r.Within r') (hab : r.Refers a b) : r'.Refers a b := by
  obtain ⟨hb, m, hm, hname, hfield⟩ := hab
  exact ⟨h.mem_modelNames hb, m, h.models m hm, hname, hfield⟩

theorem asked (h : r.Within r') (ha : r.Asked c a) : r'.Asked c a := by
  obtain ⟨hname, ⟨m, hm, hcan⟩ | ⟨s, hs, hmethod⟩⟩ := ha
  · exact ⟨h.mem_modelNames hname, Or.inl ⟨m, h.models m hm, hcan⟩⟩
  · exact ⟨h.mem_modelNames hname, Or.inr ⟨s, h.services s hs, hmethod⟩⟩

/-- Reachability grows with its seeds and its steps. -/
theorem needs (h : r.Within r') (hb : r.Needs c b) : r'.Needs c b := by
  obtain ⟨a, ha, hpath⟩ := hb
  exact ⟨a, h.asked ha, Relation.ReflTransGen.mono (fun _ _ => h.refers) _ _ hpath⟩

theorem exists_model (h : r.Within r') (hr : r.Valid) (hr' : r'.Valid) {m : Model}
    (hm : m ∈ r.applyCapabilities.models) :
    ∃ m', r'.applyCapabilities.model? m.name = some m' ∧ m'.bare = m.bare ∧
      ∀ c, m.can c = true → m'.can c = true := by
  obtain ⟨m₀, hm₀, hbare₀⟩ := List.mem_map.1 (hr.mem_applyCapabilities.1 hm).1
  have hmem : m.bare ∈ r'.applyCapabilities.models.map Model.bare := by
    rw [models_of_bare (bare_applyCapabilities r'), ← hbare₀]
    exact List.mem_map_of_mem (h.models m₀ hm₀)
  obtain ⟨m', hm', hbare⟩ := List.mem_map.1 hmem
  have hname := Model.name_of_bare hbare
  refine ⟨m', hr'.applyCapabilities.model?_eq_some.2 ⟨hm', hname⟩, hbare, fun c hcan => ?_⟩
  rw [hr'.can_iff_needs hm', hname]
  exact h.needs ((hr.can_iff_needs hm).1 hcan)

end Within

end SwiftRpc.Api.Registry

namespace SwiftRpc.Plugin

open SwiftRpc.Api
open SwiftRpc.Descriptor
open SwiftRpc.Swift

/-! ## More files, more declarations -/

theorem generatedFiles_subperm {r : Request} {names : List String}
    (h : r.filesToGenerate.Subperm names) :
    (generatedFiles r).Subperm (generatedFiles { r with filesToGenerate := names }) := by
  obtain ⟨l, hperm, hsub⟩ := h
  exact List.Subperm.filter _ ⟨_, hperm.filterMap _, hsub.filterMap _⟩

theorem within_of_subset {files files' : List File} (h : files ⊆ files') :
    (declaredRegistry files).Within (declaredRegistry files') := by
  have hentries : entries files ⊆ entries files' := by
    intro a ha
    obtain ⟨f, hf, ha⟩ := List.mem_flatMap.1 ha
    exact List.mem_flatMap.2 ⟨f, h hf, ha⟩
  constructor
  · rw [models_declaredRegistry, models_declaredRegistry]
    exact fun m hm => List.filterMap_subset _ hentries hm
  · rw [services_declaredRegistry, services_declaredRegistry]
    exact fun s hs => List.filterMap_subset _ hentries hs

/-! ## Files of clients -/

section Clients

variable {r r' : Request} {plan plan' : Plan} {f : File} {index : TypeIndex}

/-- The file of clients does not depend on what else is registered. -/
theorem clientOutput_congr (hplan : Plan.ofRequest r = .ok plan)
    (hplan' : Plan.ofRequest r' = .ok plan') (hf : f ∈ generatedFiles r)
    (hf' : f ∈ generatedFiles r') (hoptions : plan.options = plan'.options)
    {output : List GeneratedFile} :
    clientOutput index plan.options plan.registry f = .ok output ↔
      clientOutput index plan'.options plan'.registry f = .ok output := by
  rw [clientOutput_eq_ok hplan hf, clientOutput_eq_ok hplan' hf', hoptions]
  rfl

/-- Where there is no error, the response holds what is made of the planned files. -/
theorem mem_files_render (hnone : (plan.render (renderer index plan.options)).error? = none)
    {file : OutputFile} :
    file ∈ (plan.render (renderer index plan.options)).files ↔
      ∃ f ∈ plan.files, ∃ clients models,
        clientOutput index plan.options plan.registry f = .ok clients ∧
        modelOutput index plan.options plan.registry f = .ok models ∧
        (file ∈ clients.map outputFile ∨ file ∈ models.map outputFile) := by
  have hrenderer : ∀ f output, renderer index plan.options plan.registry f = .ok output ↔
      ∃ clients, clientOutput index plan.options plan.registry f = .ok clients ∧
        ∃ models, modelOutput index plan.options plan.registry f = .ok models ∧
          output = clients ++ models := by
    intro f output
    simp only [renderer, Outcome.bind_eq_ok, Outcome.pure_eq_ok]
  obtain ⟨outputs, houtputs⟩ := exists_outputs hnone
  rw [render_of_outputs houtputs, List.map_flatten, List.mem_flatten]
  constructor
  · rintro ⟨_, hmem, hfile⟩
    obtain ⟨output, houtput, rfl⟩ := List.mem_map.1 hmem
    obtain ⟨f, hf, hrendered⟩ := Outcome.exists_mem_of_forall₂ houtputs.flip houtput
    obtain ⟨clients, hclients, models, hmodels, rfl⟩ := (hrenderer f output).1 hrendered
    rw [List.map_append, List.mem_append] at hfile
    exact ⟨f, hf, clients, models, hclients, hmodels, hfile⟩
  · rintro ⟨f, hf, clients, models, hclients, hmodels, hfile⟩
    obtain ⟨output, houtput, hrendered⟩ := Outcome.exists_mem_of_forall₂ houtputs hf
    have hboth := (hrenderer f _).2 ⟨clients, hclients, models, hmodels, rfl⟩
    obtain rfl : output = clients ++ models := Except.ok.inj (hrendered.symm.trans hboth)
    refine ⟨_, List.mem_map_of_mem houtput, ?_⟩
    rwa [List.map_append, List.mem_append]

/-- Where there is no error, every generated file has its file of clients in the response. -/
theorem exists_clientFile (hplan : Plan.ofRequest r = .ok plan) (hf : f ∈ generatedFiles r)
    (hnone : (plan.render (renderer index plan.options)).error? = none) :
    ∃ client, clientOutput index plan.options plan.registry f = .ok [client] ∧
      outputFile client ∈ (plan.render (renderer index plan.options)).files := by
  obtain ⟨outputs, houtputs⟩ := exists_outputs hnone
  have hfiles : f ∈ plan.files := by
    rw [(ofRequest_eq_ok.1 hplan).2.2.2.2.1]
    exact hf
  obtain ⟨output, houtput, hrendered⟩ := Outcome.exists_mem_of_forall₂ houtputs hfiles
  obtain ⟨clients, models, hclients, hmodels, rfl⟩ := (renderer_eq_ok hplan hf).1 hrendered
  have hclient := (clientOutput_eq_ok hplan hf).2 ⟨clients, hclients, rfl⟩
  have hmodel := (modelOutput_eq_ok hplan hf).2 hmodels
  refine ⟨_, hclient, (mem_files_render hnone).2 ⟨f, hfiles, _, _, hclient, hmodel, ?_⟩⟩
  exact Or.inl List.mem_cons_self

/-- Two requests that both generate a file make the same file of clients for it. -/
theorem exists_sharedClient (hplan : Plan.ofRequest r = .ok plan)
    (hplan' : Plan.ofRequest r' = .ok plan') (hf : f ∈ generatedFiles r)
    (hf' : f ∈ generatedFiles r') (hoptions : plan.options = plan'.options)
    (hnone : (plan.render (renderer index plan.options)).error? = none)
    (hnone' : (plan'.render (renderer index plan'.options)).error? = none) :
    ∃ client, clientOutput index plan.options plan.registry f = .ok [client] ∧
      clientOutput index plan'.options plan'.registry f = .ok [client] ∧
      outputFile client ∈ (plan.render (renderer index plan.options)).files ∧
      outputFile client ∈ (plan'.render (renderer index plan'.options)).files := by
  obtain ⟨client, hclient, hmem⟩ := exists_clientFile hplan hf hnone
  obtain ⟨client', hclient', hmem'⟩ := exists_clientFile hplan' hf' hnone'
  have hthere := (clientOutput_congr hplan hplan' hf hf' hoptions).1 hclient
  obtain rfl : client' = client := by
    rw [hthere] at hclient'
    exact (List.singleton_inj.1 (Except.ok.inj hclient')).symm
  exact ⟨client', hclient, hthere, hmem, hmem'⟩

end Clients

/-- **Requesting more files only adds.** If a request is answered without an error, and so is one
that asks for these files and others, in whatever order, then every model of the first is in the
registry of the second, the same but for capabilities, and of these it has all that it had; every
file generated for the first is generated for the second; and the file of clients made for it is in
both responses, under the same name and with the same content. So whatever is in the first response
is in the second or is a file of models. -/
theorem run_moreFiles {r : Request} {names : List String} (h : r.filesToGenerate.Subperm names)
    {response response' : Response} (hrun : run r = .ok response)
    (hnone : response.error? = none)
    (hrun' : run { r with filesToGenerate := names } = .ok response')
    (hnone' : response'.error? = none) :
    ∃ plan plan', Plan.ofRequest r = .ok plan ∧
      Plan.ofRequest { r with filesToGenerate := names } = .ok plan' ∧
      (∀ m ∈ plan.registry.models, ∃ m', plan'.registry.model? m.name = some m' ∧
        m'.bare = m.bare ∧ ∀ c, m.can c = true → m'.can c = true) ∧
      plan.files.Subperm plan'.files ∧
      (∀ f ∈ plan.files, ∃ client : GeneratedFile,
        clientOutput (TypeIndex.ofFiles r.files) plan.options plan.registry f = .ok [client] ∧
        clientOutput (TypeIndex.ofFiles r.files) plan'.options plan'.registry f = .ok [client] ∧
        { name? := some client.name, content? := some client.content } ∈ response.files ∧
        { name? := some client.name, content? := some client.content } ∈ response'.files) ∧
      ∀ file ∈ response.files, file ∈ response'.files ∨ ∃ f ∈ plan.files, ∃ models,
        modelOutput (TypeIndex.ofFiles r.files) plan.options plan.registry f = .ok models ∧
        file ∈ models.map fun g => { name? := some g.name, content? := some g.content } := by
  obtain ⟨plan, hplan, rfl⟩ := exists_plan_of_run hrun
  obtain ⟨plan', hplan', rfl⟩ := exists_plan_of_run hrun'
  obtain ⟨-, hoptions, -, hreg, hfiles, hregistry⟩ := ofRequest_eq_ok.1 hplan
  obtain ⟨-, hoptions', -, hreg', hfiles', hregistry'⟩ := ofRequest_eq_ok.1 hplan'
  have hsub := generatedFiles_subperm h
  have hsame : plan.options = plan'.options := Except.ok.inj (hoptions.symm.trans hoptions')
  have hclients := fun f (hf : f ∈ plan.files) =>
    exists_sharedClient hplan hplan' (hfiles ▸ hf) (hsub.subset (hfiles ▸ hf)) hsame hnone hnone'
  refine ⟨plan, plan', hplan, hplan', ?_, ?_, hclients, ?_⟩
  · rw [hregistry, hregistry']
    intro m hm
    exact (within_of_subset hsub.subset).exists_model hreg.valid hreg'.valid hm
  · rw [hfiles, hfiles']
    exact hsub
  · intro file hfile
    obtain ⟨f, hf, clients, models, hout, hmodels, hfile⟩ := (mem_files_render hnone).1 hfile
    rcases hfile with hfile | hfile
    · obtain ⟨client, hclient, -, -, hmem'⟩ := hclients f hf
      obtain rfl : clients = [client] := Except.ok.inj (hout.symm.trans hclient)
      rw [List.map_singleton, List.mem_singleton] at hfile
      exact Or.inl (hfile ▸ hmem')
    · exact Or.inr ⟨f, hf, models, hmodels, hfile⟩

/-- The file with the message that another one refers to is requested as well, and before it: the
message that refers can still be encoded, and its client stays as it was. -/
theorem run_moreFiles_desk :
    let put : Descriptor.Method :=
      { name? := some "Put", inputType? := some ".d.Ask", outputType? := some ".d.Ask" }
    let box : Descriptor.Field :=
      { name? := some "box", type? := some 11, typeName? := some ".m.Box" }
    let desk : File :=
      { name? := some "desk.proto"
        package? := some "d"
        messages := [{ name? := some "Ask", fields := [box] }]
        services := [{ name? := some "Desk", methods := [put] }] }
    let boxes : File :=
      { name? := some "m.proto"
        package? := some "m"
        messages := [{ name? := some "Box" }]
        services := [{ name? := some "Idle" }] }
    let r : Request := { filesToGenerate := ["desk.proto"], files := [desk, boxes] }
    let more : Request := { r with filesToGenerate := ["m.proto", "desk.proto"] }
    ∃ plan response response', Plan.ofRequest more = .ok plan ∧
      run r = .ok response ∧ run more = .ok response' ∧
      (∃ m, plan.registry.model? "d.Ask" = some m ∧ m.can .encode = true) ∧
      ∃ file ∈ response.files, file.name? = some "d.desk.twirp.swift" ∧ file ∈ response'.files := by
  intro put box desk boxes r more
  have hsub : r.filesToGenerate.Subperm ["m.proto", "desk.proto"] := List.Subperm.cons_self
  have hok : (run r).toOption.any (·.error? = none) = true := by decide +kernel
  have hok' : (run more).toOption.any (·.error? = none) = true := by decide +kernel
  obtain ⟨response, hrun, hnone⟩ := (Option.any_eq_true _ _).1 hok
  obtain ⟨response', hrun', hnone'⟩ := (Option.any_eq_true _ _).1 hok'
  rw [Outcome.toOption_eq_some] at hrun hrun'
  obtain ⟨plan, plan', hplan, hplan', hmodels, -, hclients, -⟩ :=
    run_moreFiles hsub hrun (of_decide_eq_true hnone) hrun' (of_decide_eq_true hnone')
  refine ⟨plan', response, response', hplan', hrun, hrun', ?_, ?_⟩
  · have hask : (Plan.ofRequest r).toOption.any (·.registry.models.any fun m =>
        m.name = "d.Ask" ∧ m.can .encode = true) = true := by decide +kernel
    rw [hplan] at hask
    obtain ⟨m, hm, hfound⟩ := List.any_eq_true.1 hask
    obtain ⟨hname, hcan⟩ := of_decide_eq_true hfound
    obtain ⟨m', hm', -, hkept⟩ := hmodels m hm
    exact ⟨m', hname ▸ hm', hkept .encode hcan⟩
  · obtain ⟨-, hparse, -, -, hfiles, -⟩ := ofRequest_eq_ok.1 hplan
    have hdesk : desk ∈ generatedFiles r := by
      refine List.mem_filter.2 ⟨List.mem_filterMap.2 ⟨"desk.proto", ?_, rfl⟩, by decide +kernel⟩
      exact List.mem_singleton_self _
    obtain ⟨client, hclient, -, hmem, hmem'⟩ := hclients desk (hfiles ▸ hdesk)
    obtain ⟨clients, -, heq⟩ := (clientOutput_eq_ok hplan hdesk).1 hclient
    rw [show Options.parse r.parameter? = .ok {} by decide +kernel] at hparse
    refine ⟨outputFile client, hmem, ?_, hmem'⟩
    rw [List.singleton_inj.1 heq, ← Except.ok.inj hparse]
    show some (Path.clientFile "d" "desk.proto" "swift") = _
    decide +kernel

end SwiftRpc.Plugin
