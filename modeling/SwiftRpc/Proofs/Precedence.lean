import SwiftRpc.Proofs.Output

/-!
# Which fault decides

A request can be faulty in several ways at once. `Refuses` ranks the faults for which there is no
response: no requested file comes before a bad parameter, that before an unknown file, and that
before a file that cannot be registered. Of two faults of one rank the one that is requested first
decides. `Answers` says what the response to a sound request is: all output, or the fault of the
first file that cannot be rendered. Both are exact, for every renderer.
-/

namespace SwiftRpc.Plugin

open SwiftRpc.Api
open SwiftRpc.Descriptor
open SwiftRpc.Swift

variable {r : Request}

/-! ## The first unknown file -/

theorem findFile_eq_error {files : List File} {name : String} {e : DescriptorError} :
    findFile files name = .error e ↔
      (¬ ∃ f ∈ files, f.name = name) ∧ .unknownFile name = e := by
  rw [← find?_isSome_iff, findFile]
  cases files.find? (·.name = name) <;> simp

theorem requestedFiles_eq_error {e : DescriptorError} :
    requestedFiles r = .error e ↔ ∃ before name after,
      r.filesToGenerate = before ++ name :: after ∧
      (∀ known ∈ before, ∃ f ∈ r.files, f.name = known) ∧
      (¬ ∃ f ∈ r.files, f.name = name) ∧ .unknownFile name = e := by
  simp only [requestedFiles, Outcome.mapM_eq_error, findFile_eq_ok, find?_isSome_iff,
    findFile_eq_error]

/-! ## The first file that cannot be registered -/

theorem registerFiles_append (registry : Registry) (before after : List File) :
    registerFiles registry (before ++ after) =
      registerFiles registry before >>= (registerFiles · after) := by
  induction before generalizing registry with
  | nil => rfl
  | cons f rest ih =>
    rw [List.cons_append, registerFiles, registerFiles]
    rcases registry.addFile f with ⟨added, - | e⟩
    · exact ih added
    · rfl

/-- Registering fails at the first file that cannot be added to what the ones before it declare. -/
theorem registerFiles_eq_error {registry : Registry} {files : List File} {e : DescriptorError} :
    registerFiles registry files = .error e ↔ ∃ before f after registry',
      files = before ++ f :: after ∧ registerFiles registry before = .ok registry' ∧
        (registry'.addFile f).error? = some e := by
  constructor
  · intro h
    induction files generalizing registry with
    | nil => cases h
    | cons f rest ih =>
      rw [registerFiles] at h
      rcases hf : registry.addFile f with ⟨added, - | e'⟩
      · rw [hf] at h
        obtain ⟨before, g, after, registry', rfl, hbefore, hg⟩ := ih h
        exact ⟨f :: before, g, after, registry', rfl,
          registerFiles_cons.2 ⟨added, hf, hbefore⟩, hg⟩
      · rw [hf] at h
        cases h
        exact ⟨[], f, rest, registry, rfl, rfl, by rw [hf]⟩
  · rintro ⟨before, f, after, registry', rfl, hbefore, hf⟩
    rw [registerFiles_append, hbefore]
    show registerFiles registry' (f :: after) = .error e
    rw [registerFiles]
    rcases hadd : registry'.addFile f with ⟨added, error?⟩
    rw [hadd] at hf
    cases hf
    rfl

/-! ## The ranked faults -/

/-- The request is refused, and with which error. Each rule supposes that no fault of a higher rank
is there; a fault of a lower rank may be, in any file. -/
inductive Refuses (r : Request) : PluginError → Prop
  | noFiles (hnone : r.filesToGenerate = []) : Refuses r .noFiles
  | badParameter {e : ParameterError} (hsome : r.filesToGenerate ≠ [])
      (hparse : Options.parse r.parameter? = .error e) : Refuses r (.parameter e)
  | unknownFile {options : Options} {before after : List String} {name : String}
      (hparse : Options.parse r.parameter? = .ok options)
      (hsplit : r.filesToGenerate = before ++ name :: after)
      (hknown : ∀ known ∈ before, ∃ f ∈ r.files, f.name = known)
      (hunknown : ¬ ∃ f ∈ r.files, f.name = name) : Refuses r (.descriptor (.unknownFile name))
  | badFile {options : Options} {before after : List File} {f : File} {e : DescriptorError}
      (hparse : Options.parse r.parameter? = .ok options) (hknown : AllKnown r)
      (hsplit : generatedFiles r = before ++ f :: after) (hbefore : Registrable before)
      (hfile : ((declaredRegistry before).addFile f).error? = some e) :
      Refuses r (.descriptor e)

/-- No fault of any rank is there. -/
def Sound (r : Request) : Prop :=
  r.filesToGenerate ≠ [] ∧ (∃ options, Options.parse r.parameter? = .ok options) ∧
    AllKnown r ∧ Registrable (generatedFiles r)

theorem filesToGenerate_ne_nil (h : generatedFiles r ≠ []) : r.filesToGenerate ≠ [] := by
  intro hnil
  rw [generatedFiles, hnil] at h
  exact h rfl

theorem requestedFiles_eq_ok {requested : List File} :
    requestedFiles r = .ok requested ↔
      AllKnown r ∧ requested = r.filesToGenerate.filterMap fun name =>
        r.files.find? (·.name = name) :=
  mapM_findFile_eq_ok

theorem ofRequest_eq_error {e : PluginError} : Plan.ofRequest r = .error e ↔ Refuses r e := by
  simp only [Plan.ofRequest, Outcome.refused_eq_error, Outcome.bind_eq_error,
    Outcome.mapError_eq_error, Outcome.mapError_eq_ok, requestedFiles_eq_error,
    requestedFiles_eq_ok, registerFiles_eq_error, registerFiles_empty_eq_ok]
  constructor
  · rintro (⟨hnone, rfl⟩ | ⟨hsome, ⟨e, hparse, rfl⟩ | ⟨options, hparse, h⟩⟩)
    · exact .noFiles hnone
    · exact .badParameter hsome hparse
    · rcases h with ⟨_, ⟨before, name, after, hsplit, hknown, hunknown, rfl⟩, rfl⟩ |
        ⟨_, ⟨hknown, rfl⟩, h⟩
      · exact .unknownFile hparse hsplit hknown hunknown
      · rcases h with ⟨e, ⟨before, f, after, _, hsplit, ⟨hbefore, rfl⟩, hfile⟩, rfl⟩ |
          ⟨registry, -, hpure⟩
        · exact .badFile hparse hknown hsplit hbefore hfile
        · cases hpure
  · intro h
    cases h with
    | noFiles hnone => exact Or.inl ⟨hnone, rfl⟩
    | badParameter hsome hparse => exact Or.inr ⟨hsome, Or.inl ⟨_, hparse, rfl⟩⟩
    | unknownFile hparse hsplit hknown hunknown =>
      have hsome : r.filesToGenerate ≠ [] := by simp [hsplit]
      exact Or.inr ⟨hsome, Or.inr ⟨_, hparse,
        Or.inl ⟨_, ⟨_, _, _, hsplit, hknown, hunknown, rfl⟩, rfl⟩⟩⟩
    | badFile hparse hknown hsplit hbefore hfile =>
      have hsome : r.filesToGenerate ≠ [] := filesToGenerate_ne_nil (by simp [hsplit])
      exact Or.inr ⟨hsome, Or.inr ⟨_, hparse, Or.inr ⟨_, ⟨hknown, rfl⟩,
        Or.inl ⟨_, ⟨_, _, _, _, hsplit, ⟨hbefore, rfl⟩, hfile⟩, rfl⟩⟩⟩⟩

/-! ## The first file that cannot be rendered -/

theorem renderAll_eq_mapM (render : File → Except RenderError (List GeneratedFile))
    (files : List File) :
    renderAll render files =
      (files.mapM fun f => (render f).mapError (f, ·)).map List.flatten := by
  induction files with
  | nil => rfl
  | cons f rest ih =>
    rw [renderAll, List.mapM_cons, ih]
    cases render f with
    | error e => rfl
    | ok output =>
      show Except.map _ (Except.map _ _) = Except.map _ (_ >>= _)
      cases rest.mapM fun f => (render f).mapError (f, ·) <;> rfl

theorem renderAll_eq_error {render : File → Except RenderError (List GeneratedFile)}
    {files : List File} {f : File} {e : RenderError} :
    renderAll render files = .error (f, e) ↔ ∃ before after, files = before ++ f :: after ∧
      (∀ g ∈ before, ∃ output, render g = .ok output) ∧ render f = .error e := by
  simp only [renderAll_eq_mapM, Outcome.map_eq_error, Outcome.mapM_eq_error,
    Outcome.mapError_eq_ok, Outcome.mapError_eq_error, Prod.mk.injEq]
  constructor
  · rintro ⟨before, _, after, hsplit, hbefore, _, herror, rfl, rfl⟩
    exact ⟨before, after, hsplit, hbefore, herror⟩
  · rintro ⟨before, after, hsplit, hbefore, herror⟩
    exact ⟨before, f, after, hsplit, hbefore, e, herror, rfl, rfl⟩

/-- The response for these files: what is rendered for all of them, or the fault of the first one
that cannot be rendered and nothing of what was rendered before. -/
inductive Answers (render : File → Except RenderError (List GeneratedFile)) (files : List File) :
    Response → Prop
  | output {outputs : List (List GeneratedFile)}
      (hall : List.Forall₂ (fun f output => render f = .ok output) files outputs) :
      Answers render files
        { error? := none
          supportedFeatures? := some 1
          files := outputs.flatten.map fun g =>
            { name? := some g.name, content? := some g.content } }
  | fault {before after : List File} {f : File} {e : RenderError}
      (hsplit : files = before ++ f :: after)
      (hbefore : ∀ g ∈ before, ∃ output, render g = .ok output)
      (herror : render f = .error e) :
      Answers render files
        { error? := some (f.name ++ ": " ++ e.message)
          supportedFeatures? := some 1
          files := [] }

theorem render_eq_iff_answers {plan : Plan} {renderer : Renderer} {response : Response} :
    plan.render renderer = response ↔
      Answers (renderer plan.registry) plan.files response := by
  constructor
  · rintro rfl
    rw [Plan.render]
    cases hall : renderAll (renderer plan.registry) plan.files with
    | ok output =>
      obtain ⟨outputs, houtputs, rfl⟩ := renderAll_eq_ok.1 hall
      exact .output houtputs
    | error fault =>
      obtain ⟨before, after, hsplit, hbefore, herror⟩ := renderAll_eq_error.1 hall
      exact .fault hsplit hbefore herror
  · intro h
    cases h with
    | output hall => exact render_of_outputs hall
    | fault hsplit hbefore herror =>
      rw [Plan.render, renderAll_eq_error.2 ⟨_, _, hsplit, hbefore, herror⟩]
      rfl

/-- **Which fault decides, for every renderer.** There is no response exactly if one of the ranked
faults is there, and then the error is that of the first fault of the highest rank. A sound request
always has a response: the output of all generated files in the order of the request, or no file
and the fault of the first one that the renderer refuses, whatever it does on later ones. -/
theorem runWith_exact (renderer : Renderer) (r : Request) :
    (∀ e, runWith renderer r = .error e ↔ Refuses r e) ∧
    ∀ response, runWith renderer r = .ok response ↔ Sound r ∧
      Answers (renderer (declaredRegistry (generatedFiles r)).applyCapabilities)
        (generatedFiles r) response := by
  refine ⟨fun e => ?_, fun response => ?_⟩
  · rw [runWith, Outcome.map_eq_error, ofRequest_eq_error]
  · rw [runWith, Outcome.map_eq_ok]
    simp only [render_eq_iff_answers]
    constructor
    · rintro ⟨plan, hplan, hanswers⟩
      obtain ⟨hsome, hparse, hknown, hreg, hfiles, hregistry⟩ := ofRequest_eq_ok.1 hplan
      rw [hfiles, hregistry] at hanswers
      exact ⟨⟨hsome, ⟨plan.options, hparse⟩, hknown, hreg⟩, hanswers⟩
    · rintro ⟨⟨hsome, ⟨options, hparse⟩, hknown, hreg⟩, hanswers⟩
      exact ⟨⟨_, options, _⟩, ofRequest_eq_ok.2 ⟨hsome, hparse, hknown, hreg, rfl, rfl⟩, hanswers⟩

/-- The unknown file decides, though the file that is requested before it cannot be registered. -/
example (renderer : Renderer) :
    let bad : File :=
      { name? := some "bad.proto", messages := [{}], services := [{ name? := some "Desk" }] }
    runWith renderer { filesToGenerate := ["bad.proto", "lost.proto"], files := [bad] } =
      .error (.descriptor (.unknownFile "lost.proto")) := by
  rfl

end SwiftRpc.Plugin
