import SwiftRpc.Proofs.ClientBlocks
import SwiftRpc.Proofs.OutputNames

/-!
# When tidying changes nothing

Generated files are tidied at the end. If the names of the schema are on one line, the files of
models are tidy before, and so are the files of clients in which methods tear no line behind a
blank. The answer is then the one that a renderer gives which does not tidy (`rawRenderer`).
-/

namespace SwiftRpc.Swift

open SwiftRpc.Api
open SwiftRpc.Text

/-! ## Files -/

theorem isBlock_fileHeader {source : String} (h : IsLine source) : IsBlock (fileHeader source) := by
  refine isBlock_unlines ⟨?_, "import Foundation", rfl, by decide⟩
  simp only [List.forall_mem_cons, List.not_mem_nil, false_implies, implies_true, and_true]
  exact ⟨by decide, Or.inr (.behind (by decide) h), by decide, by decide⟩

/-- A file is tidy if its blocks are. -/
theorem isTidy_assemble {f : Descriptor.File} (hname : IsLine f.name) {blocks : List String}
    (h : ∀ b ∈ blocks, EndsLine b.toList) :
    IsTidy (assemble f blocks).toList ↔ ∀ b ∈ blocks, ¬ GapBefore ['\n'] b.toList := by
  obtain ⟨hends, hno⟩ := isBlock_fileHeader hname
  have htext : (assemble f blocks).toList =
      (fileHeader f.name).toList ++ blocks.flatMap ('\n' :: ·.toList) := by
    rw [assemble, String.toList_append, toList_join_blocks]
  have hwhole : EndsLine (assemble f blocks).toList := by
    rw [htext]
    by_cases hblocks : blocks = []
    · rw [hblocks, List.flatMap_nil, List.append_nil]
      exact hends
    · exact (endsLine_blocks hblocks h).append _
  rw [hwhole.isTidy_iff, htext, gapBefore_append, or_iff_right hno, gapBefore_blocks h]
  · simp
  · rw [hends.getLast?_eq]
    rintro c ⟨⟩ hgap
    exact absurd hgap not_isGap_feed

def rawModels (index : TypeIndex) (options : Options) : Renderer := fun r f =>
  if options.models && !(f.messages.isEmpty && f.enums.isEmpty) then
    (renderModelFile r index f).map fun text => [⟨Path.modelFile f.name options.ext, text⟩]
  else .ok []

/-- Renders the same files, but does not tidy them. -/
def rawRenderer (index : TypeIndex) (options : Options) : Renderer := fun r f => do
  let clients ← renderClientFile r index f
  let models ← rawModels index options r f
  return ⟨Path.clientFile f.package f.name options.ext, clients⟩ :: models

def GeneratedFile.tidied (g : GeneratedFile) : GeneratedFile :=
  { g with content := tidy g.content }

theorem renderer_eq_map_rawRenderer {index : TypeIndex} {options : Options} {r : Registry}
    {f : Descriptor.File} (hservices : f.hasServices = true) :
    renderer index options r f =
      (rawRenderer index options r f).map (List.map GeneratedFile.tidied) := by
  unfold renderer rawRenderer clientOutput modelOutput rawModels
  rw [if_pos hservices]
  cases renderClientFile r index f with
  | error e => rfl
  | ok clients =>
    split
    · cases renderModelFile r index f with
      | error e => rfl
      | ok models => rfl
    · rfl

end SwiftRpc.Swift

namespace SwiftRpc.Plugin

open SwiftRpc.Api
open SwiftRpc.Descriptor
open SwiftRpc.Swift
open SwiftRpc.Text

section Untouched

variable {r : Request} {plan : Plan} {f : File}

theorem oneLine_described {d : Descriptor.Field} (hname : OneLine d.name)
    (hjson : OneLine d.jsonName) :
    OneLine (Field.described d).name ∧ OneLine (Field.described d).jsonName := by
  have hjsonName : (Field.described d).jsonName = jsonNameOf d := by
    unfold Field.described
    cases contentOf d <;> rfl
  rw [Field.name_described, hjsonName, jsonNameOf]
  refine ⟨hname, ?_⟩
  split
  · exact Name.oneLine_lowerCamel hname
  · exact hjson

/-- The block of a type is tidy. -/
theorem isBlock_of_renders (hplan : Plan.ofRequest r = .ok plan) {index : TypeIndex}
    (hindex : index.Neat) (hf : f ∈ generatedFiles r) {d : Declaration} (hd : d ∈ f.declarations)
    (hgiven : ∀ name ∈ d.givenNames, OneLine name) (htype : d.hasBlock = true) {text : String}
    (h : Renders plan.registry index f d text) : IsBlock text := by
  cases d with
  | message scope m =>
    obtain ⟨model, hmodel, hrendered⟩ := h
    obtain ⟨model', hmodel', hbare⟩ := registered_message hplan hf hd
    rw [hmodel] at hmodel'
    cases hmodel'
    have hfields : model.fields = m.fields.map Field.described := Model.fields_of_bare hbare
    refine isBlock_of_renderModel hindex ?_ hrendered
    rw [hfields, List.forall_mem_map]
    intro d hd
    have hmem : ∀ name ∈ [d.name, d.jsonName], OneLine name := fun name hname =>
      hgiven name (List.mem_cons_of_mem _ (List.mem_flatMap.2 ⟨d, hd, hname⟩))
    exact oneLine_described (hmem _ (by simp)) (hmem _ (by simp))
  | enum scope e =>
    refine isBlock_of_renderEnum hindex (fun value hvalue => ?_) h
    obtain ⟨v, hv, rfl⟩ := List.mem_map.1 hvalue
    exact hgiven _ (List.mem_cons_of_mem _ (List.mem_map_of_mem hv))
  | service s => cases htype

/-- Methods tear a line in the client of a service of the file. -/
def Tears (f : File) : Prop :=
  ∃ s ∈ f.services, s.methods ≠ [] ∧
    TearsLine (packageLead f.package ++ s.name) (Name.join f.package s.name)

instance (f : File) : Decidable (Tears f) := inferInstanceAs (Decidable (∃ s ∈ f.services, _))

theorem oneLine_of_generated (hlines : ∀ name ∈ r.givenNames, OneLine name)
    (hf : f ∈ generatedFiles r) : ∀ name ∈ f.givenNames, OneLine name :=
  fun name hname => hlines name (Request.givenNames_of_file (mem_files_of_generated hf) hname)

theorem oneLine_of_declared {d : Declaration} (hlines : ∀ name ∈ r.givenNames, OneLine name)
    (hf : f ∈ generatedFiles r) (hd : d ∈ f.declarations) :
    ∀ name ∈ d.givenNames, OneLine name :=
  fun name hname => oneLine_of_generated hlines hf name (File.givenNames_of_declared hd hname)

section Lines

variable (hplan : Plan.ofRequest r = .ok plan) (hlines : ∀ name ∈ r.givenNames, OneLine name)
  (hfiles : ∀ name ∈ r.filesToGenerate, name ≠ "" ∧ EndTrimmed name.toList)

include hlines hfiles in
theorem isLine_of_generated (hf : f ∈ generatedFiles r) : IsLine f.name :=
  ⟨oneLine_of_generated hlines hf _ List.mem_cons_self,
    hfiles f.name ((sublist_names_generatedFiles r).subset (List.mem_map_of_mem hf))⟩

include hplan hlines hfiles

/-- Tidying leaves a file of models as it is. -/
theorem tidy_models (hf : f ∈ generatedFiles r) {text : String}
    (h : renderModelFile plan.registry (TypeIndex.ofFiles r.files) f = .ok text) :
    tidy text = text := by
  have hindex := TypeIndex.neat_ofFiles hlines
  obtain ⟨blocks, hblocks, rfl⟩ := (renderModelFile_eq_ok hplan hf).1 h
  have hall : ∀ b ∈ blocks, IsBlock b := by
    intro b hb
    obtain ⟨d, hd, hrenders⟩ := Outcome.exists_mem_of_forall₂ hblocks.flip hb
    obtain ⟨hd, htype⟩ := List.mem_filter.1 hd
    exact isBlock_of_renders hplan hindex hf hd (oneLine_of_declared hlines hf hd) htype hrenders
  rw [tidy_eq_self_iff, isTidy_assemble (isLine_of_generated hlines hfiles hf)
    fun b hb => (hall b hb).endsLine]
  exact fun b hb => (hall b hb).tidy

/-- Tidying leaves a file of clients as it is exactly if no line of it is torn. -/
theorem tidy_clients (hf : f ∈ generatedFiles r) {text : String}
    (h : renderClientFile plan.registry (TypeIndex.ofFiles r.files) f = .ok text) :
    tidy text = text ↔ ¬ Tears f := by
  have hindex := TypeIndex.neat_ofFiles hlines
  obtain ⟨clients, hclients, rfl⟩ := (renderClientFile_eq_ok hplan hf).1 h
  have hblock : ∀ s ∈ f.services, ∀ b,
      Renders plan.registry (TypeIndex.ofFiles r.files) f (.service s) b →
        EndsLine b.toList ∧ (GapBefore ['\n'] b.toList ↔ s.methods ≠ [] ∧
          TearsLine (packageLead f.package ++ s.name) (Name.join f.package s.name)) := by
    intro s hs b hb
    have hnames := oneLine_of_declared hlines hf (mem_declarations_of_service hs)
    refine gapBefore_of_renderService hindex ?_ (hnames _ List.mem_cons_self) (fun k hk => ?_) hb
    · exact oneLine_of_generated hlines hf _ (List.mem_cons_of_mem _ List.mem_cons_self)
    · exact hnames _ (List.mem_cons_of_mem _ (List.mem_map_of_mem hk))
  have hends : ∀ b ∈ clients, EndsLine b.toList := by
    intro b hb
    obtain ⟨s, hs, hrenders⟩ := Outcome.exists_mem_of_forall₂ hclients.flip hb
    exact (hblock s hs b hrenders).1
  rw [tidy_eq_self_iff, isTidy_assemble (isLine_of_generated hlines hfiles hf) hends,
    ← Outcome.forall_mem_iff_of_forall₂ hclients fun s hs b hb =>
      not_congr (hblock s hs b hb).2.symm]
  simp only [Tears, not_exists, not_and]

/-- What is rendered for a file is tidy before it is tidied exactly if no line of it is torn. -/
theorem tidied_rawRenderer (hf : f ∈ generatedFiles r) {raw : List GeneratedFile}
    (h : rawRenderer (TypeIndex.ofFiles r.files) plan.options plan.registry f = .ok raw) :
    ¬ Tears f ↔ ∀ g ∈ raw, g.tidied = g := by
  have htidied (name content : String) :
      GeneratedFile.tidied ⟨name, content⟩ = ⟨name, content⟩ ↔ tidy content = content := by
    simp [GeneratedFile.tidied]
  obtain ⟨clients, hclients, h⟩ := Outcome.bind_eq_ok.1 h
  obtain ⟨models, hmodels, h⟩ := Outcome.bind_eq_ok.1 h
  rw [Outcome.pure_eq_ok.1 h, List.forall_mem_cons, htidied,
    tidy_clients hplan hlines hfiles hf hclients]
  refine (and_iff_left ?_).symm
  unfold rawModels at hmodels
  split at hmodels
  · obtain ⟨text, htext, rfl⟩ := Outcome.map_eq_ok.1 hmodels
    rw [List.forall_mem_singleton, htidied]
    exact tidy_models hplan hlines hfiles hf htext
  · cases hmodels
    exact List.forall_mem_nil _

/-- The answer is the one without tidying exactly if no line of a planned file is torn. -/
theorem render_eq_raw_iff
    (hnone : (plan.render (renderer (TypeIndex.ofFiles r.files) plan.options)).error? = none) :
    plan.render (renderer (TypeIndex.ofFiles r.files) plan.options) =
        plan.render (rawRenderer (TypeIndex.ofFiles r.files) plan.options) ↔
      ∀ f ∈ generatedFiles r, ¬ Tears f := by
  obtain ⟨-, -, -, -, hplanned, -⟩ := ofRequest_eq_ok.1 hplan
  -- the same files without and with tidying
  obtain ⟨raws, hboth⟩ : ∃ raws, List.Forall₂ (fun f raw =>
      rawRenderer (TypeIndex.ofFiles r.files) plan.options plan.registry f = .ok raw ∧
        renderer (TypeIndex.ofFiles r.files) plan.options plan.registry f =
          .ok (raw.map GeneratedFile.tidied)) plan.files raws := by
    rw [Outcome.exists_forall₂]
    intro f hf
    have hservices : f.hasServices = true :=
      hasServices_of_isGeneratable (List.mem_filter.1 (hplanned ▸ hf)).2
    obtain ⟨output, houtput⟩ := Outcome.exists_forall₂.1 (exists_outputs hnone) f hf
    rw [renderer_eq_map_rawRenderer hservices] at houtput ⊢
    obtain ⟨raw, hraw, rfl⟩ := Outcome.map_eq_ok.1 houtput
    exact ⟨raw, hraw, houtput⟩
  have hraws := hboth.imp fun _ _ h => h.1
  have houtputs : List.Forall₂ (fun f output =>
      renderer (TypeIndex.ofFiles r.files) plan.options plan.registry f = .ok output) plan.files
      (raws.map (List.map GeneratedFile.tidied)) :=
    List.forall₂_map_right_iff.2 (hboth.imp fun _ _ h => h.2)
  have hflat : (raws.map (List.map GeneratedFile.tidied)).flatten =
      raws.flatten.map GeneratedFile.tidied := List.map_flatten.symm
  have hinjective : Function.Injective fun g : GeneratedFile =>
      ({ name? := some g.name, content? := some g.content } : OutputFile) := by
    rintro ⟨name, content⟩ ⟨name', content'⟩ h
    simpa using h
  have hself (l : List GeneratedFile) :
      l.map GeneratedFile.tidied = l ↔ ∀ g ∈ l, g.tidied = g := by
    rw [← List.map_inj_left, List.map_id']
  rw [render_of_outputs houtputs, render_of_outputs hraws, hflat, Response.mk.injEq,
    (List.map_injective_iff.2 hinjective).eq_iff, hself, List.forall_mem_flatten, ← hplanned,
    Outcome.forall_mem_iff_of_forall₂ hraws fun f hf raw hraw =>
      tidied_rawRenderer hplan hlines hfiles (hplanned ▸ hf) hraw]
  simp

end Lines

end Untouched

/-- **Tidying does not alter generated code, but where methods tear a line.** If the names of the
schema are on one line and the names of the requested files can end one, an answer without an error
is the one that is given without tidying exactly if no generated file has a service whose methods
tear a line behind a blank. A file of clients is left as it is exactly if this holds of its own
services, and a file of models always. No line is torn where the names have no two braces in a
row. -/
theorem run_untouched {r : Request} {response : Response} (hrun : run r = .ok response)
    (hnone : response.error? = none) (hlines : ∀ name ∈ r.givenNames, OneLine name)
    (hfiles : ∀ name ∈ r.filesToGenerate, name ≠ "" ∧ EndTrimmed name.toList) :
    ∃ plan, Plan.ofRequest r = .ok plan ∧
      (response = plan.render (rawRenderer (TypeIndex.ofFiles r.files) plan.options) ↔
        ∀ f ∈ generatedFiles r, ¬ Tears f) ∧
      (∀ f ∈ generatedFiles r, ∀ text,
        renderClientFile plan.registry (TypeIndex.ofFiles r.files) f = .ok text →
          (tidy text = text ↔ ¬ Tears f)) ∧
      (∀ f ∈ generatedFiles r, ∀ text,
        renderModelFile plan.registry (TypeIndex.ofFiles r.files) f = .ok text →
          tidy text = text) ∧
      ∀ f : File,
        (∀ s ∈ f.services, Unbraced (packageLead f.package ++ s.name).toList ∧
          Unbraced (Name.join f.package s.name).toList) → ¬ Tears f := by
  obtain ⟨plan, hplan, hrendered⟩ := Outcome.map_eq_ok.1 hrun
  cases hrendered
  refine ⟨plan, hplan, render_eq_raw_iff hplan hlines hfiles hnone, ?_, ?_, ?_⟩
  · exact fun f hf text h => tidy_clients hplan hlines hfiles hf h
  · exact fun f hf text h => tidy_models hplan hlines hfiles hf h
  · rintro f hunbraced ⟨s, hs, -, htears⟩
    exact not_tearsLine_of_unbraced (hunbraced s hs).1 (hunbraced s hs).2 htears

/-- A slot inside of a name tears a line too, but not behind a blank. -/
theorem run_untouched_inside :
    let kind : Enum := { name? := some "Kind", values := [{ name? := some "KIND_LOW" }] }
    let ping : Message :=
      { name? := some "Ping"
        fields :=
          [{ name? := some "sent_at", type? := some 3 },
            { name? := some "kind", type? := some 14, typeName? := some ".a.Ping.Kind" },
            { name? := some "next", label? := some 3, type? := some 11,
              typeName? := some ".a.Ping" }]
        enums := [kind] }
    let f : File :=
      { name? := some "f.proto"
        package? := some "a"
        messages := [ping]
        services :=
          [{ name? := some ("Desk" ++ Slot.methods.marker)
             methods :=
               [{ name? := some "Go", inputType? := some ".a.Ping",
                  outputType? := some ".a.Ping" }] }] }
    let r : Request := { filesToGenerate := ["f.proto"], files := [f] }
    ∃ plan response, Plan.ofRequest r = .ok plan ∧ run r = .ok response ∧
      response.error? = none ∧
      response = plan.render (rawRenderer (TypeIndex.ofFiles r.files) plan.options) := by
  intro kind ping f r
  have hok : (run r).toOption.isSome = true := by decide +kernel
  obtain ⟨response, hrun⟩ := Outcome.exists_eq_ok_iff.2 hok
  have hnone : (run r).toOption.bind (·.error?) = none := by decide +kernel
  rw [hrun] at hnone
  have hlines : ∀ name ∈ r.givenNames, OneLine name := by decide +kernel
  have hfiles : ∀ name ∈ r.filesToGenerate, name ≠ "" ∧ EndTrimmed name.toList := by
    decide +kernel
  obtain ⟨plan, hplan, hraw, -⟩ := run_untouched hrun hnone hlines hfiles
  exact ⟨plan, response, hplan, hrun, hnone, hraw.2 (by decide +kernel)⟩

/-- A service may have a slot for a name. Its methods stand between the two halves of a line, and
the blank that was before the name is gone. -/
theorem run_torn :
    let a : File :=
      { name? := some "a.proto"
        messages := [{ name? := some "A" }]
        services :=
          [{ name? := some Slot.methods.marker
             methods :=
               [{ name? := some "Go", inputType? := some ".A", outputType? := some ".A" }] }] }
    let r : Request := { filesToGenerate := ["a.proto"], files := [a] }
    (∀ name ∈ r.givenNames, OneLine name) ∧
      (∀ name ∈ r.filesToGenerate, name ≠ "" ∧ EndTrimmed name.toList) ∧
      ∃ plan response, Plan.ofRequest r = .ok plan ∧ run r = .ok response ∧
        response.error? = none ∧
        response ≠ plan.render (rawRenderer (TypeIndex.ofFiles r.files) plan.options) := by
  intro a r
  have hlines : ∀ name ∈ r.givenNames, OneLine name := by decide +kernel
  have hfiles : ∀ name ∈ r.filesToGenerate, name ≠ "" ∧ EndTrimmed name.toList := by
    decide +kernel
  have hok : (Plan.ofRequest r).toOption.isSome = true := by decide +kernel
  obtain ⟨plan, hplan⟩ := Outcome.exists_eq_ok_iff.2 hok
  have hrun := run_eq_ok hplan
  have hnone : (run r).toOption.bind (·.error?) = none := by decide +kernel
  rw [hrun] at hnone
  refine ⟨hlines, hfiles, plan, _, hplan, hrun, hnone, ?_⟩
  rw [ne_eq, render_eq_raw_iff hplan hlines hfiles hnone]
  intro hall
  have htears : ∃ f ∈ generatedFiles r, Tears f := by decide +kernel
  obtain ⟨f, hf, htears⟩ := htears
  exact hall f hf htears

end SwiftRpc.Plugin
