import SwiftRpc.Plugin.Run
import SwiftRpc.Proofs.Plan
import SwiftRpc.Proofs.Render

/-!
# What a plan is rendered to

A plan is rendered without an error exactly if every method of its services is a function from
message to message and, where models are asked for, every message of its files can be a structure.
The look-ups of a file's own declarations never fail: what is rendered was registered before, and
it is in the index of types.
-/

namespace SwiftRpc.Descriptor

/-- The declaration has a block of its own among the models of its file. -/
def Declaration.hasBlock : Declaration → Bool
  | .message _ m => !m.isMapEntry
  | .enum _ _ => true
  | .service _ => false

end SwiftRpc.Descriptor

namespace SwiftRpc.Plugin

open SwiftRpc.Api
open SwiftRpc.Descriptor
open SwiftRpc.Swift

/-! ## Declarations -/

/-- `text` is what becomes of the declaration: a structure, an enumeration or a client. -/
def Renders (registry : Registry) (index : TypeIndex) (f : File) : Declaration → String → Prop
  | .message scope m, text =>
    ∃ model, registry.model? (Name.join scope m.name) = some model ∧
      renderModel registry index model = .ok text
  | .enum scope e, text => renderEnum index (Enumeration.described f scope e) = .ok text
  | .service s, text => renderService index (Service.described f s) = .ok text

/-- A message does not store itself, and its fields have types; the methods of a service can be
called. -/
def CanRender (registry : Registry) (index : TypeIndex) : Declaration → Prop
  | .message scope m =>
    ¬ Relation.TransGen registry.Inlines (Name.join scope m.name) (Name.join scope m.name) ∧
      ∀ d ∈ m.fields, Renderable registry index (Field.described d)
  | .enum _ _ => True
  | .service s => ∀ k ∈ s.methods, Callable index k

theorem mem_files_of_generated {r : Request} {f : File} (hf : f ∈ generatedFiles r) :
    f ∈ r.files := by
  obtain ⟨name, -, hname⟩ := List.mem_filterMap.1 (List.mem_filter.1 hf).1
  exact List.mem_of_find?_eq_some hname

section Declarations

variable {r : Request} {plan : Plan} {f : File}

theorem named_of_ofRequest (h : Plan.ofRequest r = .ok plan) (hf : f ∈ generatedFiles r) :
    ∀ d ∈ f.declarations, d.Named :=
  fun d hd => (wellFormed_of_ofRequest h hf d hd).named

theorem resolve?_of_declared (h : Plan.ofRequest r = .ok plan) (hf : f ∈ generatedFiles r)
    (hdots : f.Undotted) {d : Declaration} (hd : d ∈ f.declarations)
    {t : String × TypeKind} (ht : d.type? = some t) :
    ∃ e, (TypeIndex.ofFiles r.files).resolve? t.1 = some e := by
  exact TypeIndex.exists_resolve?_of_declared (mem_files_of_generated hf)
    (named_of_ofRequest h hf) hdots (List.mem_filterMap.2 ⟨d, hd, ht⟩)

theorem exists_renders (h : Plan.ofRequest r = .ok plan) (hf : f ∈ generatedFiles r)
    (hdots : f.Undotted) {d : Declaration} (hd : d ∈ f.declarations) :
    (∃ text, Renders plan.registry (TypeIndex.ofFiles r.files) f d text) ↔
      CanRender plan.registry (TypeIndex.ofFiles r.files) d := by
  have hvalid := valid_of_ofRequest h
  cases d with
  | message scope m =>
    obtain ⟨model, hmodel, hbare⟩ := registered_message h hf hd
    obtain ⟨hmem, hname⟩ := hvalid.model?_eq_some.1 hmodel
    have hresolve :=
      resolve?_of_declared h hf hdots hd (t := (Name.join scope m.name, .message)) rfl
    have hfields : model.fields = m.fields.map Field.described := Model.fields_of_bare hbare
    have hself : plan.registry.containsItself model = false ↔
        ¬ Relation.TransGen plan.registry.Inlines (Name.join scope m.name)
          (Name.join scope m.name) := by
      rw [← Bool.not_eq_true, Registry.containsItself_iff hvalid hmem, hname]
    simp only [Renders, CanRender, hmodel, Option.some.injEq, exists_eq_left', renderModel,
      Outcome.exists_map_eq_ok, exists_struct hvalid, hself, hname, hresolve, hfields,
      List.forall_mem_map, true_and]
  | enum scope e =>
    have hresolve := resolve?_of_declared h hf hdots hd (t := (Name.join scope e.name, .enum)) rfl
    exact iff_of_true (exists_renderEnum.2 hresolve) trivial
  | service s => exact exists_renderService

/-! ## Files -/

theorem renderFileService_eq_ok (h : Plan.ofRequest r = .ok plan) (hf : f ∈ generatedFiles r)
    {index : TypeIndex} {s : Descriptor.Service} (hs : s ∈ f.services) {text : String} :
    renderFileService plan.registry index f s = .ok text ↔
      Renders plan.registry index f (.service s) text := by
  rw [renderFileService, registered_service h hf hs]
  rfl

/-- A message that is a map entry is looked up and then left out. -/
theorem renderType_eq_ok (h : Plan.ofRequest r = .ok plan) (hf : f ∈ generatedFiles r)
    {index : TypeIndex} {d : Declaration} (hd : d ∈ f.declarations) {t : String × TypeKind}
    (ht : d.type? = some t) {block? : Option String} :
    renderType plan.registry index f t = .ok block? ↔
      if d.hasBlock = true then ∃ text, Renders plan.registry index f d text ∧ some text = block?
      else block? = none := by
  cases d with
  | message scope m =>
    cases ht
    obtain ⟨model, hmodel, hbare⟩ := registered_message h hf hd
    have hentry : model.isMapEntry = m.isMapEntry := Model.isMapEntry_of_bare hbare
    simp only [renderType, Renders, Declaration.hasBlock, hmodel, hentry]
    cases m.isMapEntry with
    | true => simp [eq_comm]
    | false => simp [Outcome.map_eq_ok]
  | enum scope e =>
    cases ht
    simp only [renderType, registered_enum h hf hd, Outcome.map_eq_ok, Declaration.hasBlock,
      if_true]
    rfl
  | service s => cases ht

theorem mapM_renderType_eq_ok (h : Plan.ofRequest r = .ok plan) (hf : f ∈ generatedFiles r)
    {index : TypeIndex} {ds : List Declaration} (hds : ∀ d ∈ ds, d ∈ f.declarations)
    {texts : List String} :
    (∃ blocks, (ds.filterMap (·.type?)).mapM (renderType plan.registry index f) = .ok blocks ∧
      blocks.filterMap id = texts) ↔
      List.Forall₂ (Renders plan.registry index f) (ds.filter (·.hasBlock)) texts := by
  induction ds generalizing texts with
  | nil =>
    simp only [List.filterMap_nil, List.mapM_nil, Outcome.pure_eq_ok, exists_eq_left,
      List.filter_nil, List.forall₂_nil_left_iff]
    exact eq_comm
  | cons d rest ih =>
    obtain ⟨hd, hrest⟩ := List.forall_mem_cons.1 hds
    cases ht : d.type? with
    | none =>
      -- only services declare no type
      have hno : d.hasBlock = false := by
        cases d with
        | service s => rfl
        | message scope m => cases ht
        | enum scope e => cases ht
      rw [List.filterMap_cons, ht, List.filter_cons_of_neg (by simp [hno])]
      exact ih hrest
    | some t =>
      simp only [List.filterMap_cons, ht, List.mapM_cons, Outcome.bind_eq_ok, Outcome.pure_eq_ok,
        renderType_eq_ok h hf hd ht]
      cases hblock : d.hasBlock with
      | false =>
        -- a map entry gives no text
        rw [List.filter_cons_of_neg (by simp [hblock]), ← ih hrest]
        constructor
        · rintro ⟨_, ⟨block?, hnone, blocks, hblocks, rfl⟩, rfl⟩
          have hnone : block? = none := hnone
          exact ⟨blocks, hblocks, by rw [hnone]; rfl⟩
        · rintro ⟨blocks, hblocks, rfl⟩
          exact ⟨_, ⟨none, rfl, blocks, hblocks, rfl⟩, rfl⟩
      | true =>
        rw [List.filter_cons_of_pos hblock, List.forall₂_cons_left_iff]
        simp only [← ih hrest]
        constructor
        · rintro ⟨_, ⟨_, ⟨text, htext, rfl⟩, blocks, hblocks, rfl⟩, rfl⟩
          exact ⟨text, _, htext, ⟨blocks, hblocks, rfl⟩, rfl⟩
        · rintro ⟨text, _, htext, ⟨blocks, hblocks, rfl⟩, rfl⟩
          exact ⟨_, ⟨some text, ⟨text, htext, rfl⟩, blocks, hblocks, rfl⟩, rfl⟩

theorem renderClientFile_eq_ok (h : Plan.ofRequest r = .ok plan) (hf : f ∈ generatedFiles r)
    {index : TypeIndex} {text : String} :
    renderClientFile plan.registry index f = .ok text ↔
      ∃ clients, List.Forall₂ (fun s => Renders plan.registry index f (.service s)) f.services
        clients ∧ assemble f clients = text := by
  rw [renderClientFile, Outcome.map_eq_ok]
  refine exists_congr fun clients => and_congr_left fun _ => ?_
  rw [Outcome.mapM_eq_ok]
  exact Outcome.forall₂_congr_mem fun s hs text => renderFileService_eq_ok h hf hs

theorem renderModelFile_eq_ok (h : Plan.ofRequest r = .ok plan) (hf : f ∈ generatedFiles r)
    {index : TypeIndex} {text : String} :
    renderModelFile plan.registry index f = .ok text ↔
      ∃ blocks, List.Forall₂ (Renders plan.registry index f) (f.declarations.filter (·.hasBlock))
        blocks ∧ assemble f blocks = text := by
  rw [renderModelFile, fileTypes_eq (named_of_ofRequest h hf), Outcome.map_eq_ok]
  simp only [← mapM_renderType_eq_ok h hf (fun d hd => hd)]
  constructor
  · rintro ⟨blocks, hblocks, rfl⟩
    exact ⟨_, ⟨blocks, hblocks, rfl⟩, rfl⟩
  · rintro ⟨_, ⟨blocks, hblocks, rfl⟩, rfl⟩
    exact ⟨blocks, hblocks, rfl⟩

/-- The text of a generated file: where it comes from, and its blocks, each after an empty line. -/
def sourceText (source : String) (blocks : List String) : String :=
  "// Code generated by protoc-gen-twirp-swift. DO NOT EDIT.\n// source: " ++ source ++
    "\n\nimport Foundation\n" ++ String.join (blocks.map ("\n" ++ ·))

theorem fileHeader_eq (source : String) :
    fileHeader source =
      "// Code generated by protoc-gen-twirp-swift. DO NOT EDIT.\n// source: " ++ source ++
        "\n\nimport Foundation\n" := by
  have hfirst : "// Code generated by " ++ (generatorName ++ (". DO NOT EDIT." ++
      ("\n" ++ "// source: "))) =
        "// Code generated by protoc-gen-twirp-swift. DO NOT EDIT.\n// source: " := by
    decide +kernel
  have hlast : "\n" ++ ("\n" ++ ("import Foundation" ++ "\n")) = "\n\nimport Foundation\n" := by
    decide +kernel
  rw [fileHeader, unlines, ← hfirst, ← hlast]
  simp only [List.map_cons, List.map_nil, String.join_cons, String.join_nil, String.append_assoc,
    String.empty_append, String.append_empty]

theorem assemble_eq_sourceText (f : File) (blocks : List String) :
    assemble f blocks = sourceText f.name blocks := by
  unfold assemble sourceText
  rw [fileHeader_eq]

/-- The file of models, if models are asked for and the file declares types. -/
def ModelOutput (plan : Plan) (index : TypeIndex) (f : File) (output : List GeneratedFile) : Prop :=
  if plan.options.models = true ∧ (f.messages ≠ [] ∨ f.enums ≠ []) then
    ∃ blocks, List.Forall₂ (Renders plan.registry index f) (f.declarations.filter (·.hasBlock))
        blocks ∧
      output = [⟨Path.modelFile f.name plan.options.ext, Text.tidy (sourceText f.name blocks)⟩]
  else output = []

/-- The file of clients, one client per service, and the file of models, one block per type. -/
def FileOutput (plan : Plan) (index : TypeIndex) (f : File) (output : List GeneratedFile) : Prop :=
  ∃ clients models,
    List.Forall₂ (fun s => Renders plan.registry index f (.service s)) f.services clients ∧
      ModelOutput plan index f models ∧
      output = ⟨Path.clientFile f.package f.name plan.options.ext,
        Text.tidy (sourceText f.name clients)⟩ :: models

theorem clientOutput_eq_ok (h : Plan.ofRequest r = .ok plan) (hf : f ∈ generatedFiles r)
    {index : TypeIndex} {output : List GeneratedFile} :
    clientOutput index plan.options plan.registry f = .ok output ↔
      ∃ clients,
        List.Forall₂ (fun s => Renders plan.registry index f (.service s)) f.services clients ∧
          output = [⟨Path.clientFile f.package f.name plan.options.ext,
            Text.tidy (sourceText f.name clients)⟩] := by
  have hservices := hasServices_of_isGeneratable (List.mem_filter.1 hf).2
  rw [clientOutput, if_pos hservices, Outcome.map_eq_ok]
  simp only [renderClientFile_eq_ok h hf, assemble_eq_sourceText]
  constructor
  · rintro ⟨_, ⟨clients, hclients, rfl⟩, rfl⟩
    exact ⟨clients, hclients, rfl⟩
  · rintro ⟨clients, hclients, rfl⟩
    exact ⟨_, ⟨clients, hclients, rfl⟩, rfl⟩

theorem modelOutput_eq_ok (h : Plan.ofRequest r = .ok plan) (hf : f ∈ generatedFiles r)
    {index : TypeIndex} {output : List GeneratedFile} :
    modelOutput index plan.options plan.registry f = .ok output ↔
      ModelOutput plan index f output := by
  have hcond : (plan.options.models && !(f.messages.isEmpty && f.enums.isEmpty)) = true ↔
      plan.options.models = true ∧ (f.messages ≠ [] ∨ f.enums ≠ []) := by
    simp
  simp only [modelOutput, ModelOutput, hcond]
  split
  · rw [Outcome.map_eq_ok]
    simp only [renderModelFile_eq_ok h hf, assemble_eq_sourceText]
    constructor
    · rintro ⟨_, ⟨blocks, hblocks, rfl⟩, rfl⟩
      exact ⟨blocks, hblocks, rfl⟩
    · rintro ⟨blocks, hblocks, rfl⟩
      exact ⟨_, ⟨blocks, hblocks, rfl⟩, rfl⟩
  · rw [Except.ok.injEq]
    exact eq_comm

theorem renderer_eq_ok (h : Plan.ofRequest r = .ok plan) (hf : f ∈ generatedFiles r)
    {index : TypeIndex} {output : List GeneratedFile} :
    renderer index plan.options plan.registry f = .ok output ↔ FileOutput plan index f output := by
  simp only [renderer, Outcome.bind_eq_ok, Outcome.pure_eq_ok, clientOutput_eq_ok h hf,
    modelOutput_eq_ok h hf]
  constructor
  · rintro ⟨_, ⟨clients, hclients, rfl⟩, models, hmodels, rfl⟩
    exact ⟨clients, models, hclients, hmodels, rfl⟩
  · rintro ⟨clients, models, hclients, hmodels, rfl⟩
    exact ⟨_, ⟨clients, hclients, rfl⟩, models, hmodels, rfl⟩

theorem declares_of_hasBlock {d : Declaration} (hd : d ∈ f.declarations)
    (hblock : d.hasBlock = true) : f.messages ≠ [] ∨ f.enums ≠ [] := by
  by_contra hnone
  rw [not_or, not_not, not_not] at hnone
  have hdecls : f.declarations = f.services.map .service := by
    rw [File.declarations, hnone.1, hnone.2, Message.allDeclarations]
    rfl
  rw [hdecls] at hd
  obtain ⟨s, -, rfl⟩ := List.mem_map.1 hd
  cases hblock

/-- A file has an output exactly if its services have clients and, where models are asked for, its
messages have structures. -/
theorem exists_fileOutput (h : Plan.ofRequest r = .ok plan) (hf : f ∈ generatedFiles r)
    (hdots : f.Undotted) :
    (∃ output, FileOutput plan (TypeIndex.ofFiles r.files) f output) ↔
      (∀ s ∈ f.services, ∀ k ∈ s.methods, Callable (TypeIndex.ofFiles r.files) k) ∧
        (plan.options.models = true → ∀ d ∈ f.declarations, d.hasBlock = true →
          CanRender plan.registry (TypeIndex.ofFiles r.files) d) := by
  constructor
  · rintro ⟨_, clients, models, hclients, hmodels, -⟩
    refine ⟨fun s hs => ?_, fun hopt d hd hblock => ?_⟩
    · exact exists_renderService.1 (Outcome.exists_forall₂.1 ⟨clients, hclients⟩ s hs)
    · rw [ModelOutput, if_pos ⟨hopt, declares_of_hasBlock hd hblock⟩] at hmodels
      obtain ⟨blocks, hblocks, -⟩ := hmodels
      have htext := Outcome.exists_forall₂.1 ⟨blocks, hblocks⟩ d (List.mem_filter.2 ⟨hd, hblock⟩)
      exact (exists_renders h hf hdots hd).1 htext
  · rintro ⟨hservices, hblocks⟩
    obtain ⟨clients, hclients⟩ := Outcome.exists_forall₂.2 fun s hs =>
      exists_renderService (f := f).2 (hservices s hs)
    have hmodels : ∃ models, ModelOutput plan (TypeIndex.ofFiles r.files) f models := by
      unfold ModelOutput
      split
      · rename_i hopt
        have htexts := Outcome.exists_forall₂.2 fun d hd =>
          (exists_renders h hf hdots (List.mem_filter.1 hd).1).2
            (hblocks hopt.1 d (List.mem_filter.1 hd).1 (List.mem_filter.1 hd).2)
        obtain ⟨texts, htexts⟩ := htexts
        exact ⟨_, texts, htexts, rfl⟩
      · exact ⟨[], rfl⟩
    obtain ⟨models, hmodels⟩ := hmodels
    exact ⟨_, clients, models, hclients, hmodels, rfl⟩

end Declarations

/-! ## All files -/

theorem renderAll_eq_ok {render : File → Except RenderError (List GeneratedFile)}
    {files : List File} {output : List GeneratedFile} :
    renderAll render files = .ok output ↔
      ∃ outputs, List.Forall₂ (fun f o => render f = .ok o) files outputs ∧
        outputs.flatten = output := by
  induction files generalizing output with
  | nil => simp [renderAll, List.forall₂_nil_left_iff]
  | cons f rest ih =>
    simp only [List.forall₂_cons_left_iff]
    cases hf : render f with
    | error e => simp [renderAll, hf]
    | ok o =>
      simp only [renderAll, hf, Outcome.map_eq_ok, ih, Except.ok.injEq]
      constructor
      · rintro ⟨_, ⟨outputs, houtputs, rfl⟩, rfl⟩
        exact ⟨o :: outputs, ⟨o, outputs, rfl, houtputs, rfl⟩, rfl⟩
      · rintro ⟨_, ⟨_, outputs, rfl, houtputs, rfl⟩, rfl⟩
        exact ⟨_, ⟨outputs, houtputs, rfl⟩, rfl⟩

theorem exists_outputs {plan : Plan} {renderer : Renderer}
    (h : (plan.render renderer).error? = none) :
    ∃ outputs, List.Forall₂ (fun f o => renderer plan.registry f = .ok o) plan.files outputs := by
  unfold Plan.render at h
  cases hall : renderAll (renderer plan.registry) plan.files with
  | ok output =>
    obtain ⟨outputs, houtputs, -⟩ := renderAll_eq_ok.1 hall
    exact ⟨outputs, houtputs⟩
  | error e =>
    rw [hall] at h
    cases h

theorem render_of_outputs {plan : Plan} {renderer : Renderer} {outputs : List (List GeneratedFile)}
    (h : List.Forall₂ (fun f o => renderer plan.registry f = .ok o) plan.files outputs) :
    plan.render renderer =
      { supportedFeatures? := some supportedFeatures
        files := outputs.flatten.map fun g =>
          { name? := some g.name, content? := some g.content } } := by
  rw [Plan.render, renderAll_eq_ok.2 ⟨outputs, h, rfl⟩]
  rfl

section Run

variable {r : Request} {plan : Plan}

theorem run_eq_ok (h : Plan.ofRequest r = .ok plan) :
    run r = .ok (plan.render (renderer (TypeIndex.ofFiles r.files) plan.options)) := by
  rw [run, h]
  rfl

theorem forall₂_fileOutput (h : Plan.ofRequest r = .ok plan) {index : TypeIndex}
    {outputs : List (List GeneratedFile)} :
    List.Forall₂ (fun f o => renderer index plan.options plan.registry f = .ok o) plan.files
        outputs ↔
      List.Forall₂ (FileOutput plan index) (generatedFiles r) outputs := by
  obtain ⟨-, -, -, -, hfiles, -⟩ := ofRequest_eq_ok.1 h
  rw [hfiles]
  exact Outcome.forall₂_congr_mem fun f hf output => renderer_eq_ok h hf

/-- The response has no error exactly if every file has an output. -/
theorem error?_eq_none_iff (h : Plan.ofRequest r = .ok plan) {index : TypeIndex} :
    (plan.render (renderer index plan.options)).error? = none ↔
      ∀ f ∈ generatedFiles r, ∃ output, FileOutput plan index f output := by
  rw [← Outcome.exists_forall₂]
  constructor
  · intro hnone
    obtain ⟨outputs, houtputs⟩ := exists_outputs hnone
    exact ⟨outputs, (forall₂_fileOutput h).1 houtputs⟩
  · rintro ⟨outputs, houtputs⟩
    rw [render_of_outputs ((forall₂_fileOutput h).2 houtputs)]

end Run

/-- **When a plan is rendered, and to what.** There is no error exactly if every method is a
function from message to message and, where models are asked for, no message but a map entry
stores itself and all their fields have types. The response then holds, file after file in the
order of the request, the clients and the models. -/
theorem run_exact {r : Request} {plan : Plan} (h : Plan.ofRequest r = .ok plan)
    (hdots : ∀ f ∈ generatedFiles r, f.Undotted) :
    ∃ response, run r = .ok response ∧
      (response.error? = none ↔
        (∀ f ∈ generatedFiles r, ∀ s ∈ f.services, ∀ k ∈ s.methods,
          Callable (TypeIndex.ofFiles r.files) k) ∧
        (plan.options.models = true →
          ∀ f ∈ generatedFiles r, ∀ scope m, .message scope m ∈ f.declarations →
            m.isMapEntry = false →
            ¬ Relation.TransGen plan.registry.Inlines (Name.join scope m.name)
                (Name.join scope m.name) ∧
              ∀ d ∈ m.fields,
                Renderable plan.registry (TypeIndex.ofFiles r.files) (Field.described d))) ∧
      (response.error? = none →
        ∃ outputs,
          List.Forall₂ (FileOutput plan (TypeIndex.ofFiles r.files)) (generatedFiles r) outputs ∧
            response.files = outputs.flatten.map fun g =>
              { name? := some g.name, content? := some g.content }) := by
  refine ⟨_, run_eq_ok h, ?_, ?_⟩
  · rw [error?_eq_none_iff h]
    constructor
    · intro hall
      refine ⟨fun f hf => ?_, fun hopt f hf scope m hm hentry => ?_⟩
      · exact ((exists_fileOutput h hf (hdots f hf)).1 (hall f hf)).1
      · have hblock : (Declaration.message scope m).hasBlock = true := by
          simp [Declaration.hasBlock, hentry]
        exact ((exists_fileOutput h hf (hdots f hf)).1 (hall f hf)).2 hopt _ hm hblock
    · rintro ⟨hservices, hmodels⟩ f hf
      refine (exists_fileOutput h hf (hdots f hf)).2 ⟨hservices f hf, fun hopt d hd hblock => ?_⟩
      cases d with
      | message scope m =>
        have hentry : m.isMapEntry = false := by simpa [Declaration.hasBlock] using hblock
        exact hmodels hopt f hf scope m hd hentry
      | enum scope e => trivial
      | service s => cases hblock
  · intro hnone
    obtain ⟨outputs, houtputs⟩ := exists_outputs hnone
    refine ⟨outputs, (forall₂_fileOutput h).1 houtputs, ?_⟩
    rw [render_of_outputs houtputs]

/-- A message may hold a list of itself, but not itself. -/
theorem run_exact_tree :
    let file (label : Int32) : File :=
      { name? := some "tree.proto"
        package? := some "t"
        messages :=
          [{ name? := some "Node"
             fields :=
               [{ name? := some "next", label? := some label, type? := some 11,
                  typeName? := some ".t.Node" }] }]
        services :=
          [{ name? := some "Trees"
             methods :=
               [{ name? := some "Get", inputType? := some ".t.Node",
                  outputType? := some ".t.Node" }] }] }
    let request (label : Int32) : Request :=
      { filesToGenerate := ["tree.proto"], files := [file label] }
    (∃ response, run (request 3) = .ok response ∧ response.error? = none) ∧
    ∃ response, run (request 1) = .ok response ∧ response.error? ≠ none := by
  intro file request
  constructor
  · have hok : (Plan.ofRequest (request 3)).toOption.isSome = true := by decide +kernel
    have hdots : ∀ f ∈ generatedFiles (request 3), f.Undotted := by decide +kernel
    obtain ⟨plan, hplan⟩ := Outcome.exists_eq_ok_iff.2 hok
    obtain ⟨response, hrun, herror, -⟩ := run_exact hplan hdots
    refine ⟨response, hrun, herror.2 ⟨?_, ?_⟩⟩
    · have hmethods : ∀ f ∈ generatedFiles (request 3), ∀ s ∈ f.services, ∀ k ∈ s.methods,
          k = { name? := some "Get", inputType? := some ".t.Node",
                outputType? := some ".t.Node" } := by
        decide +kernel
      intro f hf s hs k hk
      rw [hmethods f hf s hs k hk]
      exact ⟨rfl, rfl, ⟨_, rfl, rfl⟩, ⟨_, rfl, rfl⟩⟩
    · intro _ f hf scope m hm _
      let node : TypeEntry := ⟨"t", "Node", .message⟩
      have hmodels : ∀ model ∈ declaredModels (generatedFiles (request 3)),
          model.isMapEntry = false ∧ model.inlineTypes = [] ∧ ∀ d ∈ model.fields,
            (TypeIndex.ofFiles (request 3).files).resolve? d.typeName = some node := by
        decide +kernel
      rw [← models_of_ofRequest hplan, List.forall_mem_map] at hmodels
      refine ⟨fun hself => ?_, fun d hd => Or.inr ⟨fun entry hmap => ?_, Or.inr ⟨node, ?_⟩⟩⟩
      · obtain ⟨b, ⟨-, model, hmodel, -, hb⟩, -⟩ := Relation.TransGen.head'_iff.1 hself
        rw [show model.inlineTypes = [] from (hmodels model hmodel).2.1] at hb
        cases hb
      · exact Bool.noConfusion (hmap.mapEntry.symm.trans (hmodels entry hmap.registered).1)
      · obtain ⟨model, hmodel, hbare⟩ := registered_message hplan hf hm
        have hmem := ((valid_of_ofRequest hplan).model?_eq_some.1 hmodel).1
        have hfields : model.fields = m.fields.map Field.described := Model.fields_of_bare hbare
        refine (hmodels model hmem).2.2 _ ?_
        show Field.described d ∈ model.fields
        rw [hfields]
        exact List.mem_map_of_mem hd
  · have hok : (Plan.ofRequest (request 1)).toOption.isSome = true := by decide +kernel
    have hdots : ∀ f ∈ generatedFiles (request 1), f.Undotted := by decide +kernel
    obtain ⟨plan, hplan⟩ := Outcome.exists_eq_ok_iff.2 hok
    obtain ⟨response, hrun, herror, -⟩ := run_exact hplan hdots
    refine ⟨response, hrun, fun hnone => ?_⟩
    have hself : plan.registry.Inlines "t.Node" "t.Node" := by
      rw [Registry.inlines_of_bare (bare_of_ofRequest hplan)]
      unfold Registry.Inlines
      decide +kernel
    have hfile : file 1 ∈ generatedFiles (request 1) := by
      refine List.mem_filter.2 ⟨List.mem_filterMap.2 ⟨"tree.proto", ?_, rfl⟩, by decide +kernel⟩
      exact List.mem_singleton_self _
    have hopt : plan.options.models = true := by
      have hparse := (ofRequest_eq_ok.1 hplan).2.1
      rw [show Options.parse (request 1).parameter? = .ok {} by decide +kernel] at hparse
      rw [← Except.ok.inj hparse]
    have hnode := (herror.1 hnone).2 hopt (file 1) hfile "t" _ List.mem_cons_self rfl
    exact hnode.1 (.single hself)

end SwiftRpc.Plugin
