import Mathlib.Data.List.Nodup
import Mathlib.Data.List.Perm.Basic
import SwiftRpc.Proofs.Order
import SwiftRpc.Proofs.Precedence
import SwiftRpc.Proofs.Walks

/-!
# Descriptors are a set of declarations

A request brings its files in some order, and the two look-ups that read them resolve a name that
occurs twice in opposite directions: of several files the first one is meant, of several types the
last one. As long as the names are distinct the order says nothing, and files that declare only new
types leave alone what was resolved before.

Rendering asks the index of types for nothing but what a reference resolves to. So it is enough to
say how two indexes differ (`TypeIndex.Refines`) and to carry that from a single look-up to a whole
response (`Outcome.Follows`): either nothing changes, or only the fault of an unknown type goes
away.
-/

namespace SwiftRpc

namespace Outcome

variable {ε ε' α β : Type} {E : ε → Prop}

/-- `y` is what `x` is, unless `x` failed with an error of `E`. -/
def Follows (E : ε → Prop) (x y : Except ε α) : Prop := y = x ∨ ∃ e, E e ∧ x = .error e

namespace Follows

variable {x y : Except ε α}

theorem refl (x : Except ε α) : Follows E x x := Or.inl rfl

theorem bind {f g : α → Except ε β} (h : Follows E x y) (hf : ∀ a, Follows E (f a) (g a)) :
    Follows E (x >>= f) (y >>= g) := by
  rcases h with rfl | ⟨e, he, rfl⟩
  · cases y with
    | error e => exact refl _
    | ok a => exact hf a
  · exact Or.inr ⟨e, he, rfl⟩

theorem map (h : Follows E x y) (f : α → β) : Follows E (x.map f) (y.map f) := by
  rcases h with rfl | ⟨e, he, rfl⟩
  · exact refl _
  · exact Or.inr ⟨e, he, rfl⟩

theorem mapError {E' : ε' → Prop} {f : ε → ε'} (h : Follows E x y) (hE : ∀ e, E e → E' (f e)) :
    Follows E' (x.mapError f) (y.mapError f) := by
  rcases h with rfl | ⟨e, he, rfl⟩
  · exact refl _
  · exact Or.inr ⟨f e, hE e he, rfl⟩

theorem mapM {f g : α → Except ε β} (h : ∀ a, Follows E (f a) (g a)) (l : List α) :
    Follows E (l.mapM f) (l.mapM g) := by
  induction l with
  | nil => exact refl _
  | cons a rest ih =>
    rw [List.mapM_cons, List.mapM_cons]
    exact (h a).bind fun b => ih.bind fun bs => refl _

theorem ite {c : Prop} [Decidable c] {x' y' : Except ε α} (h : Follows E x y)
    (h' : Follows E x' y') : Follows E (if c then x else x') (if c then y else y') := by
  by_cases hc : c
  · rwa [if_pos hc, if_pos hc]
  · rwa [if_neg hc, if_neg hc]

end Follows

end Outcome

open SwiftRpc.Outcome

namespace Swift

open SwiftRpc.Api
open SwiftRpc.Descriptor

/-! ## From look-ups to files -/

/-- Both indexes resolve a reference to the same type; or the first one does not resolve it, and
what it answers then is an error of `E`. -/
def TypeIndex.Refines (E : RenderError → Prop) (index index' : TypeIndex) : Prop :=
  ∀ reference, index'.resolve? reference = index.resolve? reference ∨
    (index.resolve? reference = none ∧
      ∀ referrer, E (.unknownType (Name.absolute reference) referrer))

section Layers

variable {E : RenderError → Prop} {index index' : TypeIndex} (h : index.Refines E index')

include h

theorem follows_swiftName (reference referrer : String) :
    Follows E (index.swiftName reference referrer) (index'.swiftName reference referrer) := by
  unfold TypeIndex.swiftName
  rcases h reference with hsame | ⟨hnone, hE⟩
  · rw [hsame]
    exact .refl _
  · rw [hnone]
    exact Or.inr ⟨_, hE referrer, rfl⟩

theorem follows_swiftMessageName (reference referrer : String) :
    Follows E (index.swiftMessageName reference referrer)
      (index'.swiftMessageName reference referrer) := by
  unfold TypeIndex.swiftMessageName
  rcases h reference with hsame | ⟨hnone, hE⟩
  · rw [hsame]
    exact .refl _
  · rw [hnone]
    exact Or.inr ⟨_, hE referrer, rfl⟩

theorem follows_elementType (f : Api.Field) (referrer : String) :
    Follows E (elementType index f referrer) (elementType index' f referrer) := by
  unfold elementType
  cases f.scalar with
  | some s => exact .refl _
  | none => exact follows_swiftName h f.typeName referrer

theorem follows_mapType (entry : Model) (referrer : String) :
    Follows E (mapType index entry referrer) (mapType index' entry referrer) := by
  unfold mapType
  cases entry.field? "key" with
  | none => exact .refl _
  | some key =>
    cases entry.field? "value" with
    | none => exact .refl _
    | some value =>
      exact (follows_elementType h key referrer).bind fun keyType =>
        (follows_elementType h value referrer).bind fun valueType => .refl _

theorem follows_ofField (r : Registry) (m : Model) (f : Api.Field) :
    Follows E (Property.ofField r index m f) (Property.ofField r index' m f) := by
  unfold Property.ofField
  cases entryModel? r f with
  | some entry => exact (follows_mapType h entry _).map _
  | none => exact (follows_elementType h f _).map _

theorem follows_renderModel (r : Registry) (m : Model) :
    Follows E (renderModel r index m) (renderModel r index' m) := by
  refine .map (.ite (.refl _) ?_) _
  exact (follows_swiftName h m.name _).bind fun name =>
    (Follows.mapM (follows_ofField h r m) m.fields).bind fun properties => .refl _

theorem follows_renderEnum (e : Enumeration) :
    Follows E (renderEnum index e) (renderEnum index' e) :=
  (follows_swiftName h e.name _).bind fun _ => .refl _

theorem follows_ofMethod (service : String) (k : Api.Method) :
    Follows E (ClientMethod.ofMethod index service k)
      (ClientMethod.ofMethod index' service k) := by
  refine .ite (.refl _) ?_
  exact (follows_swiftMessageName h k.inputType _).bind fun inputType =>
    (follows_swiftMessageName h k.outputType _).bind fun outputType => .refl _

theorem follows_renderService (s : Api.Service) :
    Follows E (renderService index s) (renderService index' s) := by
  refine .map ?_ _
  exact (Follows.mapM (follows_ofMethod h s.fullName) s.methods).bind fun methods => .refl _

theorem follows_renderFileService (r : Registry) (f : File) (s : Descriptor.Service) :
    Follows E (renderFileService r index f s) (renderFileService r index' f s) := by
  simp only [renderFileService]
  cases r.service? (Name.join f.package s.name) with
  | none => exact .refl _
  | some service => exact follows_renderService h service

theorem follows_clientOutput (options : Options) (r : Registry) (f : File) :
    Follows E (clientOutput index options r f) (clientOutput index' options r f) := by
  refine .ite (.map ?_ _) (.refl _)
  exact (Follows.mapM (follows_renderFileService h r f) f.services).map _

theorem follows_renderType (r : Registry) (f : File) (t : String × TypeKind) :
    Follows E (renderType r index f t) (renderType r index' f t) := by
  obtain ⟨name, kind⟩ := t
  cases kind with
  | message =>
    simp only [renderType]
    cases r.model? name with
    | none => exact .refl _
    | some m => exact .ite (.refl _) ((follows_renderModel h r m).map _)
  | enum =>
    simp only [renderType]
    cases r.enumeration? name with
    | none => exact .refl _
    | some e => exact (follows_renderEnum h e).map _

theorem follows_modelOutput (options : Options) (r : Registry) (f : File) :
    Follows E (modelOutput index options r f) (modelOutput index' options r f) := by
  refine .ite (.map ?_ _) (.refl _)
  exact (Follows.mapM (follows_renderType h r f) (fileTypes f)).map _

theorem follows_renderer (options : Options) (r : Registry) (f : File) :
    Follows E (renderer index options r f) (renderer index' options r f) :=
  (follows_clientOutput h options r f).bind fun _ =>
    (follows_modelOutput h options r f).bind fun _ => .refl _

end Layers

end Swift

namespace Plugin

open SwiftRpc.Api
open SwiftRpc.Descriptor
open SwiftRpc.Swift

/-- The response is the same, unless it carried an error of `E`. -/
theorem render_eq_or_error {E : RenderError → Prop} {index index' : TypeIndex}
    (h : index.Refines E index') (plan : Plan) :
    plan.render (renderer index' plan.options) = plan.render (renderer index plan.options) ∨
      ∃ (f : File) (e : RenderError), E e ∧
        (plan.render (renderer index plan.options)).error? =
          some (f.name ++ ": " ++ e.message) := by
  have hall : Follows (fun fault : File × RenderError => E fault.2)
      (renderAll (renderer index plan.options plan.registry) plan.files)
      (renderAll (renderer index' plan.options plan.registry) plan.files) := by
    rw [renderAll_eq_mapM, renderAll_eq_mapM]
    refine .map (.mapM (fun f => ?_) _) _
    exact (follows_renderer h plan.options plan.registry f).mapError fun e he => he
  unfold Plan.render
  rcases hall with hsame | ⟨⟨f, e⟩, he, hfault⟩
  · rw [hsame]
    exact Or.inl rfl
  · rw [hfault]
    exact Or.inr ⟨f, e, he, rfl⟩

/-! ## From files to plans -/

/-- If the files are found alike, except for some that were not found, so is the plan. -/
theorem follows_ofRequest {E : DescriptorError → Prop} {r : Request} {files : List File}
    (h : ∀ name, Follows E (findFile r.files name) (findFile files name)) :
    Follows (fun e => ∃ d, E d ∧ .descriptor d = e) (Plan.ofRequest r)
      (Plan.ofRequest { r with files }) := by
  have hrequested : Follows E (requestedFiles r) (requestedFiles { r with files }) :=
    .mapM h r.filesToGenerate
  refine .ite (.refl _) ((Follows.refl _).bind fun options => ?_)
  exact (hrequested.mapError fun d hd => ⟨d, hd, rfl⟩).bind fun requested => .refl _

/-- **How far an answer depends on the files.** It stays the same, unless a file was not found or a
type was not resolved. -/
theorem run_eq_or_fault {D : DescriptorError → Prop} {E : RenderError → Prop} {r : Request}
    {files : List File} (hfiles : ∀ name, Follows D (findFile r.files name) (findFile files name))
    (hindex : (TypeIndex.ofFiles r.files).Refines E (TypeIndex.ofFiles files)) :
    run { r with files } = run r ∨ (∃ d, D d ∧ run r = .error (.descriptor d)) ∨
      ∃ (response : Response) (f : File) (e : RenderError), E e ∧ run r = .ok response ∧
        response.error? = some (f.name ++ ": " ++ e.message) := by
  rcases follows_ofRequest hfiles with hplan | ⟨_, ⟨d, hd, rfl⟩, hrefused⟩
  · cases hr : Plan.ofRequest r with
    | error e =>
      rw [hr] at hplan
      have hrefused : run r = .error e := Outcome.map_eq_error.2 hr
      have hrefused' : run { r with files } = .error e := Outcome.map_eq_error.2 hplan
      exact Or.inl (hrefused'.trans hrefused.symm)
    | ok plan =>
      rw [hr] at hplan
      rw [run_eq_ok hplan, run_eq_ok hr]
      rcases render_eq_or_error hindex plan with hsame | ⟨f, e, he, herror⟩
      · exact Or.inl (congrArg Except.ok hsame)
      · exact Or.inr (Or.inr ⟨_, f, e, he, rfl, herror⟩)
  · exact Or.inr (Or.inl ⟨d, hd, Outcome.map_eq_error.2 hrefused⟩)

/-! ## The same files in another order -/

/-- The full names of the types that files declare, in the order in which they are indexed. -/
def typeNames (files : List File) : List String := (files.flatMap TypeIndex.ofFile).map (·.1)

theorem find?_eq_some_of_nodup {files : List File} (hnames : (files.map (·.name)).Nodup)
    {name : String} {f : File} :
    files.find? (·.name = name) = some f ↔ f ∈ files ∧ f.name = name := by
  constructor
  · intro hfound
    exact ⟨List.mem_of_find?_eq_some hfound, by simpa using List.find?_some hfound⟩
  · rintro ⟨hf, rfl⟩
    obtain ⟨g, hg⟩ := find?_isSome_iff.2 ⟨f, hf, rfl⟩
    -- the first file of that name is the only one
    have hname : g.name = f.name := by simpa using List.find?_some hg
    rw [hg, List.inj_on_of_nodup_map hnames (List.mem_of_find?_eq_some hg) hf hname]

theorem findFile_of_perm {files files' : List File} (h : files'.Perm files)
    (hnames : (files.map (·.name)).Nodup) (name : String) :
    findFile files' name = findFile files name := by
  have hnames' : (files'.map (·.name)).Nodup := (h.map _).nodup_iff.2 hnames
  have hsame : files'.find? (·.name = name) = files.find? (·.name = name) := by
    apply Option.ext
    intro f
    rw [find?_eq_some_of_nodup hnames', find?_eq_some_of_nodup hnames, h.mem_iff]
  rw [findFile, findFile, hsame]

theorem resolve?_of_perm {files files' : List File} (h : files'.Perm files)
    (htypes : (typeNames files).Nodup) (reference : String) :
    (TypeIndex.ofFiles files').resolve? reference =
      (TypeIndex.ofFiles files).resolve? reference := by
  have hbindings : (files'.flatMap TypeIndex.ofFile).Perm (files.flatMap TypeIndex.ofFile) :=
    h.flatMap_right _
  have htypes' : (typeNames files').Nodup := (hbindings.map _).nodup_iff.2 htypes
  apply Option.ext
  intro entry
  rw [TypeIndex.resolve?, TypeIndex.resolve?, TypeIndex.ofFiles, TypeIndex.ofFiles,
    Dictionary.get?_ofList_of_nodup htypes', Dictionary.get?_ofList_of_nodup htypes,
    hbindings.mem_iff]

theorem run_of_perm {r : Request} {files : List File} (h : files.Perm r.files)
    (hnames : (r.files.map (·.name)).Nodup) (htypes : (typeNames r.files).Nodup) :
    run { r with files } = run r := by
  have hfiles : ∀ name, Follows (fun _ => False) (findFile r.files name) (findFile files name) :=
    fun name => Or.inl (findFile_of_perm h hnames name)
  have hindex : (TypeIndex.ofFiles r.files).Refines (fun _ => False) (TypeIndex.ofFiles files) :=
    fun reference => Or.inl (resolve?_of_perm h htypes reference)
  rcases run_eq_or_fault hfiles hindex with hsame | ⟨_, hnever, -⟩ | ⟨_, _, _, hnever, -⟩
  · exact hsame
  · exact hnever.elim
  · exact hnever.elim

/-! ## More files -/

/-- Later files come last, so what they declare counts; what they do not declare is found as
before. -/
theorem get?_ofFiles_append (files extra : List File) (name : String) :
    (TypeIndex.ofFiles (files ++ extra)).get? name =
      ((TypeIndex.ofFiles extra).get? name).or ((TypeIndex.ofFiles files).get? name) := by
  rw [TypeIndex.ofFiles, TypeIndex.ofFiles, TypeIndex.ofFiles, Dictionary.get?_ofList,
    Dictionary.get?_ofList, Dictionary.get?_ofList, List.flatMap_append, List.reverse_append,
    List.lookup_append]

theorem mem_typeNames {files : List File} {name : String} :
    name ∈ typeNames files ↔ ∃ e, (TypeIndex.ofFiles files).get? name = some e := by
  rw [TypeIndex.exists_get?_ofFiles, typeNames, List.map_flatMap, List.mem_flatMap]

/-- Files that declare no type again leave every resolved reference alone. -/
theorem refines_append {files extra : List File}
    (hnew : ∀ name ∈ typeNames extra, name ∉ typeNames files) :
    (TypeIndex.ofFiles files).Refines (fun e => ∃ name referrer, .unknownType name referrer = e)
      (TypeIndex.ofFiles (files ++ extra)) := by
  intro reference
  rw [TypeIndex.resolve?, TypeIndex.resolve?, get?_ofFiles_append]
  cases hold : (TypeIndex.ofFiles files).get? (Name.absolute reference) with
  | none => exact Or.inr ⟨rfl, fun referrer => ⟨_, referrer, rfl⟩⟩
  | some entry =>
    have hdeclared := mem_typeNames.2 ⟨entry, hold⟩
    cases hadded : (TypeIndex.ofFiles extra).get? (Name.absolute reference) with
    | none => exact Or.inl rfl
    | some entry' => exact absurd hdeclared (hnew _ (mem_typeNames.2 ⟨entry', hadded⟩))

theorem follows_findFile_append (files extra : List File) (name : String) :
    Follows (fun d => ∃ name, .unknownFile name = d) (findFile files name)
      (findFile (files ++ extra) name) := by
  rw [findFile, findFile, List.find?_append]
  cases files.find? (·.name = name) with
  | some f => exact .refl _
  | none => exact Or.inr ⟨_, ⟨name, rfl⟩, rfl⟩

/-- Only an unknown file and an unknown type can be mended by more files. -/
theorem run_append_eq_or_unknown (r : Request) {extra : List File}
    (hnew : ∀ name ∈ typeNames extra, name ∉ typeNames r.files) :
    run { r with files := r.files ++ extra } = run r ∨
      (∃ name, run r = .error (.descriptor (.unknownFile name))) ∨
      ∃ (response : Response) (f : File) (name referrer : String), run r = .ok response ∧
        response.error? =
          some (f.name ++ ": " ++ (RenderError.unknownType name referrer).message) := by
  rcases run_eq_or_fault (follows_findFile_append r.files extra) (refines_append hnew) with
    hsame | ⟨_, ⟨name, rfl⟩, hrefused⟩ | ⟨response, f, _, ⟨name, referrer, rfl⟩, hrun, herror⟩
  · exact Or.inl hsame
  · exact Or.inr (Or.inl ⟨name, hrefused⟩)
  · exact Or.inr (Or.inr ⟨response, f, name, referrer, hrun, herror⟩)

theorem run_of_append {r : Request} {response : Response} (hrun : run r = .ok response)
    (hnone : response.error? = none) {extra : List File}
    (hnew : ∀ name ∈ typeNames extra, name ∉ typeNames r.files) :
    run { r with files := r.files ++ extra } = .ok response := by
  rcases run_append_eq_or_unknown r hnew with
    hsame | ⟨name, hrefused⟩ | ⟨response', f, name, referrer, hrun', herror⟩
  · rw [hsame, hrun]
  · rw [hrun] at hrefused
    cases hrefused
  · rw [hrun] at hrun'
    cases hrun'
    rw [hnone] at herror
    cases herror

/-- **Descriptors are a set of declarations.** If no two files have a name in common, and no two
declared types, the files may come in any order: the request is refused with the same error or
answered with the same response. And to a request that is answered without an error, files may be
added at the end: as long as they declare no type again, the response stays the same. -/
theorem run_descriptorSet :
    (∀ (r : Request) (files : List File), files.Perm r.files → (r.files.map (·.name)).Nodup →
      (typeNames r.files).Nodup → run { r with files } = run r) ∧
    ∀ (r : Request) (response : Response) (extra : List File), run r = .ok response →
      response.error? = none → (∀ name ∈ typeNames extra, name ∉ typeNames r.files) →
      run { r with files := r.files ++ extra } = .ok response := by
  constructor
  · intro r files hperm hnames htypes
    exact run_of_perm hperm hnames htypes
  · intro r response extra hrun hnone hnew
    exact run_of_append hrun hnone hnew

/-- A service in one file and what it takes in another: the other order gives the same response,
and so does a third file, though it has the name of the first one. -/
theorem run_descriptorSet_desk :
    let put : Descriptor.Method :=
      { name? := some "Put", inputType? := some ".m.Box", outputType? := some ".m.Box.Lid" }
    let types : File :=
      { name? := some "m.proto"
        package? := some "m"
        messages := [{ name? := some "Box", nested := [{ name? := some "Lid" }] }] }
    let calls : File :=
      { name? := some "desk.proto", services := [{ name? := some "Desk", methods := [put] }] }
    let late : File :=
      { name? := some "m.proto", package? := some "m", messages := [{ name? := some "Crate" }] }
    let r : Request := { filesToGenerate := ["desk.proto"], files := [types, calls] }
    run { r with files := [calls, types] } = run r ∧
    ∃ response, run r = .ok response ∧ response.error? = none ∧
      run { r with files := [types, calls, late] } = .ok response := by
  intro put types calls late r
  obtain ⟨hperm, happend⟩ := run_descriptorSet
  have hswap : [calls, types].Perm r.files := List.Perm.swap ..
  have hok : (run r).toOption.isSome = true := by decide +kernel
  obtain ⟨response, hrun⟩ := Outcome.exists_eq_ok_iff.2 hok
  have hnone : response.error? = none := by
    have hrendered : (run r).toOption.bind (·.error?) = none := by decide +kernel
    rw [hrun] at hrendered
    exact hrendered
  refine ⟨hperm r _ hswap (by decide +kernel) (by decide +kernel), response, hrun, hnone, ?_⟩
  exact happend r response [late] hrun hnone (by decide +kernel)

/-- Where two files declare a type of one name, their order counts: the last one decides whether a
method takes a message. -/
example :
    let put : Descriptor.Method :=
      { name? := some "Put", inputType? := some ".Box", outputType? := some ".Box" }
    let calls : File :=
      { name? := some "desk.proto", services := [{ name? := some "Desk", methods := [put] }] }
    let box : File := { name? := some "box.proto", messages := [{ name? := some "Box" }] }
    let sizes : File := { name? := some "sizes.proto", enums := [{ name? := some "Box" }] }
    let r : Request := { filesToGenerate := ["desk.proto"], files := [calls, sizes, box] }
    (run r).toOption.map (·.error?) ≠
      (run { r with files := [calls, box, sizes] }).toOption.map (·.error?) := by
  decide +kernel

end Plugin

end SwiftRpc
