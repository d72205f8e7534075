import Mathlib.Data.List.Nodup
import SwiftRpc.Proofs.Output
import SwiftRpc.Proofs.Path
import SwiftRpc.Proofs.Walks

/-!
# When two generated files get the same name

The file of models is called as its schema, so no two schemas share one. The file of clients has
the package in front of the base name, with a dot between them, and a dot may be in both: this is
the only way in which the files of a run can get in each other's place.
-/

namespace SwiftRpc

namespace Name

theorem short_join (scope : String) {name : String} (h : '.' ∉ name.toList) :
    short (join scope name) = name := by
  unfold short join
  split
  · rw [Text.afterLast_of_not_mem h, String.ofList_toList]
  · have hlist : (scope ++ "." ++ name).toList = scope.toList ++ '.' :: name.toList := by simp
    rw [hlist, Text.afterLast_append_cons h, String.ofList_toList]

/-- A name without a dot and its scope can be told apart. -/
theorem join_inj {scope scope' name name' : String} (hname : '.' ∉ name.toList)
    (hname' : '.' ∉ name'.toList) (h : join scope name = join scope' name') : scope = scope' := by
  have hshort : name = name' := by
    rw [← short_join scope hname, h, short_join scope' hname']
  subst hshort
  unfold join at h
  -- a scope would bring a dot into the name
  have hdot (s : String) : name ≠ s ++ "." ++ name := by
    intro heq
    have hlist := congrArg String.toList heq
    rw [hlist] at hname
    simp at hname
  by_cases hs : scope = ""
  · by_cases hs' : scope' = ""
    · rw [hs, hs']
    · rw [if_pos hs, if_neg hs'] at h
      exact absurd h (hdot scope')
  · by_cases hs' : scope' = ""
    · rw [if_neg hs, if_pos hs'] at h
      exact absurd h.symm (hdot scope)
    · rw [if_neg hs, if_neg hs', String.append_left_inj, String.append_left_inj] at h
      exact h

end Name

namespace Plugin

open SwiftRpc.Api
open SwiftRpc.Descriptor
open SwiftRpc.Swift

/-! ## The names of a run -/

/-- The names of the files that are made from `f`. -/
def outputNames (options : Options) (f : File) : List String :=
  Path.clientFile f.package f.name options.ext ::
    if options.models = true ∧ (f.messages ≠ [] ∨ f.enums ≠ []) then
      [Path.modelFile f.name options.ext]
    else []

theorem names_of_fileOutput {plan : Plan} {index : TypeIndex} {f : File}
    {output : List GeneratedFile} (h : FileOutput plan index f output) :
    output.map (·.name) = outputNames plan.options f := by
  obtain ⟨clients, models, -, hmodels, rfl⟩ := h
  unfold ModelOutput at hmodels
  unfold outputNames
  split at hmodels
  · obtain ⟨blocks, -, rfl⟩ := hmodels
    rename_i hopt
    rw [if_pos hopt]
    rfl
  · rename_i hopt
    rw [hmodels, if_neg hopt]
    rfl

theorem names_of_outputs {plan : Plan} {index : TypeIndex} {files : List File}
    {outputs : List (List GeneratedFile)}
    (h : List.Forall₂ (FileOutput plan index) files outputs) :
    outputs.flatten.map (·.name) = files.flatMap (outputNames plan.options) := by
  induction h with
  | nil => rfl
  | cons hf _ ih =>
    rw [List.flatten_cons, List.map_append, names_of_fileOutput hf, ih]
    rfl

theorem names_of_run {r : Request} {response : Response} (hrun : run r = .ok response)
    (hnone : response.error? = none) :
    ∃ options : Options, response.files.map (·.name?) =
      ((generatedFiles r).flatMap (outputNames options)).map some := by
  obtain ⟨plan, hplan, rfl⟩ := Outcome.map_eq_ok.1 hrun
  obtain ⟨outputs, houtputs⟩ := exists_outputs hnone
  refine ⟨plan.options, ?_⟩
  rw [render_of_outputs houtputs, ← names_of_outputs ((forall₂_fileOutput hplan).1 houtputs),
    List.map_map, List.map_map]
  rfl

theorem sublist_names_generatedFiles (r : Request) :
    ((generatedFiles r).map (·.name)).Sublist r.filesToGenerate := by
  have hfound (names : List String) :
      ((names.filterMap fun name => r.files.find? (·.name = name)).map (·.name)).Sublist
        names := by
    induction names with
    | nil => exact List.Sublist.refl []
    | cons name rest ih =>
      rw [List.filterMap_cons]
      split
      · exact ih.cons name
      · rename_i f hf
        have hname : f.name = name := by simpa using List.find?_some hf
        rw [List.map_cons, hname]
        exact ih.cons_cons name
  exact (List.filter_sublist.map _).trans (hfound r.filesToGenerate)

/-! ## What keeps the names apart -/

/-- What the name of the file of clients starts with: the directory of the schema, its package and
the rest of its base name. -/
def clientStem (f : File) : String :=
  Path.directory f.name ++ Name.join f.package (Path.stem f.name)

/-- The file has the schema's usual extension. -/
def IsSchema (name : String) : Prop := ".proto".toList <:+ name.toList

instance (name : String) : Decidable (IsSchema name) := inferInstanceAs (Decidable (_ <:+ _))

theorem eq_of_dropSchemaExtension_eq {name name' : String} (h : IsSchema name)
    (h' : IsSchema name')
    (heq : Path.dropSchemaExtension name = Path.dropSchemaExtension name') : name = name' := by
  rw [Path.eq_of_isSuffix h, Path.eq_of_isSuffix h', heq]

theorem nodup_outputNames (options : Options) (f : File) : (outputNames options f).Nodup := by
  unfold outputNames
  split
  · rw [List.nodup_cons, List.mem_singleton]
    exact ⟨Path.clientFile_ne_modelFile _ _ _ _, List.nodup_singleton _⟩
  · exact List.nodup_singleton _

theorem clientFile_mem_outputNames (options : Options) (f : File) :
    Path.clientFile f.package f.name options.ext ∈ outputNames options f := by
  unfold outputNames
  exact List.mem_cons_self

theorem mem_outputNames {options : Options} {f : File} {name : String}
    (h : name ∈ outputNames options f) :
    name = Path.clientFile f.package f.name options.ext ∨
      name = Path.modelFile f.name options.ext := by
  unfold outputNames at h
  rcases List.mem_cons.1 h with h | h
  · exact Or.inl h
  · split at h
    · exact Or.inr (List.mem_singleton.1 h)
    · exact absurd h List.not_mem_nil

theorem disjoint_outputNames {options : Options} {f g : File}
    (hclient : clientStem f ≠ clientStem g) (hf : IsSchema f.name) (hg : IsSchema g.name)
    (hname : f.name ≠ g.name) : (outputNames options f).Disjoint (outputNames options g) := by
  intro name hname₁ hname₂
  rcases mem_outputNames hname₁ with h₁ | h₁ <;> rcases mem_outputNames hname₂ with h₂ | h₂
  · exact hclient (Path.clientFile_inj.1 (h₁.symm.trans h₂))
  · exact Path.clientFile_ne_modelFile _ _ _ _ (h₁.symm.trans h₂)
  · exact Path.clientFile_ne_modelFile _ _ _ _ (h₂.symm.trans h₁)
  · exact hname (eq_of_dropSchemaExtension_eq hf hg (Path.modelFile_inj.1 (h₁.symm.trans h₂)))

theorem nodup_flatMap_outputNames {options : Options} {files : List File}
    (hnames : (files.map (·.name)).Nodup) (hschema : ∀ f ∈ files, IsSchema f.name) :
    (files.flatMap (outputNames options)).Nodup ↔ (files.map clientStem).Nodup := by
  rw [List.nodup_flatMap, List.Nodup, List.pairwise_map]
  constructor
  · rintro ⟨-, hdisjoint⟩
    refine hdisjoint.imp ?_
    intro f g hfg heq
    -- the file of clients is there for every schema
    have hclient : Path.clientFile f.package f.name options.ext =
        Path.clientFile g.package g.name options.ext := Path.clientFile_inj.2 heq
    have hmem := clientFile_mem_outputNames options g
    rw [← hclient] at hmem
    exact hfg (clientFile_mem_outputNames options f) hmem
  · intro hclients
    refine ⟨fun f _ => nodup_outputNames options f, ?_⟩
    have hboth := hclients.and (List.pairwise_map.1 hnames)
    exact hboth.imp_of_mem fun hf hg h =>
      disjoint_outputNames h.1 (hschema _ hf) (hschema _ hg) h.2

theorem name_eq_of_clientStem_eq {f g : File} (hf : IsSchema f.name) (hg : IsSchema g.name)
    (hslash : '/' ∉ f.package.toList) (hslash' : '/' ∉ g.package.toList)
    (hdots : Path.directory f.name = Path.directory g.name → f.package ≠ g.package →
      '.' ∉ (Path.stem f.name).toList ∧ '.' ∉ (Path.stem g.name).toList)
    (h : clientStem f = clientStem g) : f.name = g.name := by
  have hlist := congrArg String.toList h
  simp only [clientStem, String.toList_append] at hlist
  -- no slash comes after the directory, so the directories are the same
  have hdir : Path.directory f.name = Path.directory g.name := by
    have hthrough := congrArg (Text.throughLast '/') hlist
    rw [Text.throughLast_append (Name.slash_not_mem_join.2 ⟨hslash, Path.slash_not_mem_stem _⟩),
      Text.throughLast_append (Name.slash_not_mem_join.2 ⟨hslash', Path.slash_not_mem_stem _⟩),
      Path.throughLast_directory, Path.throughLast_directory] at hthrough
    exact String.toList_inj.1 hthrough
  rw [hdir, List.append_right_inj, String.toList_inj] at hlist
  have hpackage : f.package = g.package := by
    by_contra hne
    obtain ⟨hstem, hstem'⟩ := hdots hdir hne
    exact hne (Name.join_inj hstem hstem' hlist)
  rw [hpackage] at hlist
  have hstem : Path.stem f.name = Path.stem g.name := by
    rw [← Name.relativeTo_join g.package (Path.stem f.name), hlist, Name.relativeTo_join]
  refine eq_of_dropSchemaExtension_eq hf hg ?_
  rw [Path.dropSchemaExtension_eq, Path.dropSchemaExtension_eq, hdir, hstem]

/-- **When the files of a run have distinct names.** If the requested files are pairwise distinct
schema files and the answer has no error, its files have pairwise distinct names exactly if no two
of the generated schemas have the same directory, package and stem once these are put together. It
is so if no package has a slash in it and files of one directory but of different packages have no
dot in their stems. -/
theorem outputNames_distinct {r : Request} {response : Response}
    (hrequested : r.filesToGenerate.Nodup) (hschema : ∀ name ∈ r.filesToGenerate, IsSchema name)
    (hrun : run r = .ok response) (hnone : response.error? = none) :
    ((response.files.map (·.name?)).Nodup ↔ ((generatedFiles r).map clientStem).Nodup) ∧
    ((∀ f ∈ generatedFiles r, '/' ∉ f.package.toList) →
      (∀ f ∈ generatedFiles r, ∀ g ∈ generatedFiles r,
        Path.directory f.name = Path.directory g.name → f.package ≠ g.package →
          '.' ∉ (Path.stem f.name).toList) →
      (response.files.map (·.name?)).Nodup) := by
  have hsub := sublist_names_generatedFiles r
  have hnames : ((generatedFiles r).map (·.name)).Nodup := hsub.nodup hrequested
  have hgenerated : ∀ f ∈ generatedFiles r, IsSchema f.name :=
    fun f hf => hschema f.name (hsub.subset (List.mem_map_of_mem hf))
  obtain ⟨options, hfiles⟩ := names_of_run hrun hnone
  have hexact :
      (response.files.map (·.name?)).Nodup ↔ ((generatedFiles r).map clientStem).Nodup := by
    rw [hfiles, List.nodup_map_iff fun _ _ => Option.some.inj,
      nodup_flatMap_outputNames hnames hgenerated]
  refine ⟨hexact, ?_⟩
  intro hslash hdots
  rw [hexact]
  refine (hnames.of_map _).map_on ?_
  intro f hf g hg heq
  refine List.inj_on_of_nodup_map hnames hf hg ?_
  refine name_eq_of_clientStem_eq (hgenerated f hf) (hgenerated g hg) (hslash f hf) (hslash g hg)
    ?_ heq
  intro hdir hne
  exact ⟨hdots f hf g hg hdir hne, hdots g hg f hf hdir.symm hne.symm⟩

/-- Dots in the base names of one package, and a package that has it in front, in its own
directory. -/
theorem outputNames_distinct_dotted :
    let file (name package service : String) : File :=
      { name? := some name, package? := some package, messages := [{ name? := some service }],
        services := [{ name? := some service }] }
    let r : Request :=
      { filesToGenerate := ["a/b.c.proto", "a/c.proto", "a/b/c.proto"]
        files := [file "a/b.c.proto" "a" "Desk", file "a/c.proto" "a" "Shop",
          file "a/b/c.proto" "a.b" "Till"] }
    ∃ response, run r = .ok response ∧ response.error? = none ∧
      (response.files.map (·.name?)).Nodup := by
  intro file r
  have hok : (run r).toOption.isSome = true := by decide +kernel
  obtain ⟨response, hrun⟩ := Outcome.exists_eq_ok_iff.2 hok
  have hnone : (run r).toOption.bind (·.error?) = none := by decide +kernel
  rw [hrun] at hnone
  refine ⟨response, hrun, hnone, ?_⟩
  refine (outputNames_distinct ?_ ?_ hrun hnone).2 ?_ ?_
  all_goals decide +kernel

/-- Files of a run get the same name if the dot after the package of one stands where a dot of the
other one's base name does, or if a package has a slash in it. -/
theorem outputNames_clash :
    let file (name package service : String) : File :=
      { name? := some name, package? := some package, services := [{ name? := some service }] }
    let all (files : List File) : Request := { filesToGenerate := files.map (·.name), files }
    let dots := all [file "b.c.proto" "a" "Desk", file "c.proto" "a.b" "Shop"]
    let slashes := all [file "d/c.proto" "x/y" "Desk", file "d/x/c.proto" "y" "Shop"]
    ∀ r ∈ [dots, slashes],
      r.filesToGenerate.Nodup ∧ (∀ name ∈ r.filesToGenerate, IsSchema name) ∧
      ∃ response, run r = .ok response ∧ response.error? = none ∧
        ¬ (response.files.map (·.name?)).Nodup := by
  intro file all dots slashes
  have hclash (r : Request)
      (h : (run r).toOption.any (fun response =>
        response.error? = none ∧ ¬ (response.files.map (·.name?)).Nodup) = true) :
      ∃ response, run r = .ok response ∧ response.error? = none ∧
        ¬ (response.files.map (·.name?)).Nodup := by
    cases hrun : run r with
    | error e =>
      rw [hrun] at h
      cases h
    | ok response =>
      rw [hrun] at h
      simp only [Except.toOption, Option.any_some, decide_eq_true_eq] at h
      exact ⟨response, rfl, h⟩
  rw [List.forall_mem_cons, List.forall_mem_singleton]
  refine ⟨⟨?_, ?_, hclash dots ?_⟩, ?_, ?_, hclash slashes ?_⟩
  all_goals decide +kernel

end Plugin

end SwiftRpc
