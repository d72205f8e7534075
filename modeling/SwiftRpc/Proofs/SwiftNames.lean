import Mathlib.Data.List.Nodup
import SwiftRpc.Proofs.Output
import SwiftRpc.Proofs.Walks
import SwiftRpc.Proofs.Words

/-!
# When two declarations get the same Swift name

Swift knows neither packages nor nested names here: all that a run emits stands side by side, and
names that differ in the schema may fall together. They do exactly if they have the same words. In
a schema that keeps to the conventions (`Conventional`) they never do: there the words of a type
are those of its package and then the names of the messages around it and its own one, so that two
ways to read the same words would take a message for a package.
-/

namespace SwiftRpc

/-! ## Paths of names -/

namespace Name

/-- The full name at the end of a path of names that starts in `scope`. -/
def within (scope : String) (path : List String) : String := path.foldl join scope

/-- The names of a path with dots between them. -/
def dotted (path : List String) : String :=
  String.ofList (List.intercalate ['.'] (path.map String.toList))

theorem dotted_singleton (name : String) : dotted [name] = name := by
  simp [dotted, List.intercalate_singleton]

theorem dotted_cons_cons {name : String} (h : name ≠ "") (next : String) (path : List String) :
    dotted (name :: next :: path) = join name (dotted (next :: path)) := by
  rw [join, if_neg h, ← String.toList_inj]
  simp [dotted, List.intercalate_cons_cons]

theorem within_eq_join {scope : String} {path : List String} (hne : path ≠ [])
    (h : ∀ name ∈ path, name ≠ "") : within scope path = join scope (dotted path) := by
  induction path generalizing scope with
  | nil => exact absurd rfl hne
  | cons name rest ih =>
    obtain ⟨hname, hrest⟩ := List.forall_mem_cons.1 h
    cases rest with
    | nil =>
      rw [dotted_singleton]
      rfl
    | cons next path =>
      have hstep : within (join scope name) (next :: path) =
          join (join scope name) (dotted (next :: path)) :=
        ih (List.cons_ne_nil next path) hrest
      rw [dotted_cons_cons hname, join_join, extend_eq_join hname]
      exact hstep

/-- The name has neither a dot nor an underscore in it. -/
def Plain (name : String) : Prop := '.' ∉ name.toList ∧ '_' ∉ name.toList

instance (name : String) : Decidable (Plain name) := inferInstanceAs (Decidable (_ ∧ _))

theorem Plain.undotted {name : String} (h : Plain name) : Undotted name := by
  intro hdot
  exact h.1 (List.mem_of_mem_head? hdot)

theorem splitOn_dotted {path : List String} (hne : path ≠ []) (h : ∀ name ∈ path, Plain name) :
    (dotted path).toList.splitOn '.' = path.map String.toList := by
  rw [dotted, String.toList_ofList]
  refine List.splitOn_intercalate '.' ?_ (by simpa using hne)
  rw [List.forall_mem_map]
  exact fun name hname => (h name hname).1

end Name

/-! ## The messages around a declaration -/

namespace Descriptor

namespace Declaration

/-- The name of the declaration in the place where it stands. -/
def ownName : Declaration → String
  | .message _ m => m.name
  | .enum _ e => e.name
  | .service s => s.name

def fullName (f : File) : Declaration → String
  | .message scope m => Name.join scope m.name
  | .enum scope e => Name.join scope e.name
  | .service s => Name.join f.package s.name

theorem WellFormed.ownName_ne_empty {d : Declaration} (h : d.WellFormed) : d.ownName ≠ "" := by
  cases d with
  | message scope m => exact h.1
  | enum scope e => exact h
  | service s => exact h.1

theorem fullName_of_type? {f : File} {d : Declaration} {t : String × Swift.TypeKind}
    (h : d.type? = some t) : d.fullName f = t.1 := by
  cases d with
  | message scope m =>
    cases h
    rfl
  | enum scope e =>
    cases h
    rfl
  | service s => cases h

def isMessage : Declaration → Bool
  | .message _ _ => true
  | .enum _ _ => false
  | .service _ => false

end Declaration

/-- A path of declared names from `scope` on, through declared messages. -/
structure Trail (ds : List Declaration) (scope : String) (path : List String) : Prop where
  ne_nil : path ≠ []
  named : ∀ name ∈ path, ∃ d ∈ ds, d.ownName = name
  around : ∀ front back, path = front ++ back → front ≠ [] → back ≠ [] →
    ∃ scope' m, .message scope' m ∈ ds ∧ Name.join scope' m.name = Name.within scope front

section Trail

variable {ds ds' : List Declaration} {scope : String} {path : List String}

theorem Trail.mono (h : Trail ds scope path) (hsub : ∀ d ∈ ds, d ∈ ds') :
    Trail ds' scope path where
  ne_nil := h.ne_nil
  named := by
    intro name hname
    obtain ⟨d, hd, hown⟩ := h.named name hname
    exact ⟨d, hsub d hd, hown⟩
  around := by
    intro front back hpath hfront hback
    obtain ⟨scope', m, hm, hfull⟩ := h.around front back hpath hfront hback
    exact ⟨scope', m, hsub _ hm, hfull⟩

theorem Trail.single {d : Declaration} (hd : d ∈ ds) : Trail ds scope [d.ownName] where
  ne_nil := List.cons_ne_nil _ _
  named := by
    intro name hname
    exact ⟨d, hd, (List.mem_singleton.1 hname).symm⟩
  around := by
    intro front back hpath hfront hback
    -- a path of one name has no message around it
    rcases List.singleton_eq_append_iff.1 hpath with ⟨rfl, -⟩ | ⟨-, rfl⟩
    · exact absurd rfl hfront
    · exact absurd rfl hback

theorem Trail.cons {m : Message} (hm : .message scope m ∈ ds)
    (h : Trail ds (Name.join scope m.name) path) : Trail ds scope (m.name :: path) where
  ne_nil := List.cons_ne_nil _ _
  named := List.forall_mem_cons.2 ⟨⟨_, hm, rfl⟩, h.named⟩
  around := by
    intro front back hpath hfront hback
    cases front with
    | nil => exact absurd rfl hfront
    | cons name front =>
      rw [List.cons_append, List.cons.injEq] at hpath
      obtain ⟨rfl, hpath⟩ := hpath
      by_cases hnil : front = []
      · exact ⟨scope, m, hm, by rw [hnil]; rfl⟩
      · exact h.around front back hpath hnil hback

/-- The way to a message around is the front of the path. -/
theorem Trail.front {front back : List String} (h : Trail ds scope (front ++ back))
    (hfront : front ≠ []) : Trail ds scope front where
  ne_nil := hfront
  named := fun name hname => h.named name (List.mem_append_left back hname)
  around := by
    intro a b hsplit ha hb
    refine h.around a (b ++ back) ?_ ha (List.append_ne_nil_of_left_ne_nil hb back)
    rw [hsplit, List.append_assoc]

end Trail

mutual

theorem Message.exists_trail (scope : String) :
    ∀ m : Message, ∀ t ∈ (m.declarations scope).filterMap (·.type?),
      ∃ path, Trail (m.declarations scope) scope path ∧ t.1 = Name.within scope path
  | ⟨name?, fields, nested, enums, options?⟩, t, ht => by
    rw [types_declarations, List.mem_cons, List.mem_append, List.mem_map] at ht
    have hself : .message scope ⟨name?, fields, nested, enums, options?⟩ ∈
        Message.declarations scope ⟨name?, fields, nested, enums, options?⟩ := by
      rw [Message.declarations]
      exact List.mem_cons_self
    rcases ht with rfl | ht | ⟨e, he, rfl⟩
    · exact ⟨_, .single hself, rfl⟩
    · obtain ⟨path, hpath, hfull⟩ := Message.exists_allTrail _ nested t ht
      refine ⟨_ :: path, Trail.cons hself (hpath.mono ?_), hfull⟩
      intro d hd
      rw [Message.declarations]
      exact List.mem_cons_of_mem _ (List.mem_append_left _ hd)
    · refine ⟨_, Trail.cons hself
        (Trail.single (d := .enum (Name.join scope (name?.getD "")) e) ?_), rfl⟩
      rw [Message.declarations]
      exact List.mem_cons_of_mem _ (List.mem_append_right _ (List.mem_map_of_mem he))

theorem Message.exists_allTrail (scope : String) :
    ∀ l : List Message, ∀ t ∈ (Message.allDeclarations scope l).filterMap (·.type?),
      ∃ path, Trail (Message.allDeclarations scope l) scope path ∧ t.1 = Name.within scope path
  | [], t, ht => by simp [Message.allDeclarations] at ht
  | m :: rest, t, ht => by
    rw [Message.allDeclarations, List.filterMap_append, List.mem_append] at ht
    rw [Message.allDeclarations]
    rcases ht with ht | ht
    · obtain ⟨path, hpath, hfull⟩ := Message.exists_trail scope m t ht
      exact ⟨path, hpath.mono fun d hd => List.mem_append_left _ hd, hfull⟩
    · obtain ⟨path, hpath, hfull⟩ := Message.exists_allTrail scope rest t ht
      exact ⟨path, hpath.mono fun d hd => List.mem_append_right _ hd, hfull⟩

end

/-- Every type of a file is found along the messages around it. -/
theorem File.exists_trail {f : File} {t : String × Swift.TypeKind}
    (ht : t ∈ f.declarations.filterMap (·.type?)) :
    ∃ path, Trail f.declarations f.package path ∧ t.1 = Name.within f.package path := by
  rw [File.types_declarations, List.mem_append, List.mem_map] at ht
  rcases ht with ht | ⟨e, he, rfl⟩
  · obtain ⟨path, hpath, hfull⟩ := Message.exists_allTrail f.package f.messages t ht
    refine ⟨path, hpath.mono fun d hd => ?_, hfull⟩
    exact List.mem_append_left _ (List.mem_append_left _ hd)
  · refine ⟨_, Trail.single (d := .enum f.package e) ?_, rfl⟩
    exact List.mem_append_left _ (List.mem_append_right _ (List.mem_map_of_mem he))

end Descriptor

/-! ## Swift names and their words -/

namespace Swift

open SwiftRpc.Api
open SwiftRpc.Descriptor
open SwiftRpc.Text

/-- The Swift name of what is emitted for a declaration of the file: a type is looked up in the
index, and a service is called as its client is. -/
def swiftName? (index : TypeIndex) (f : File) : Declaration → Option String
  | .message scope m => (index.swiftName (Name.join scope m.name) "").toOption
  | .enum scope e => (index.swiftName (Name.join scope e.name) "").toOption
  | .service s => (Client.ofService index (Service.described f s)).toOption.map (·.typeName)

/-- The words of the declaration; a dot in the name of a service ends no word. -/
def swiftWords? (index : TypeIndex) (f : File) : Declaration → Option (List (List Char))
  | .message scope m =>
    (index.resolve? (Name.join scope m.name)).map fun e => nameWords e.package e.relativeName
  | .enum scope e =>
    (index.resolve? (Name.join scope e.name)).map fun e => nameWords e.package e.relativeName
  | .service s =>
    (Client.ofService index (Service.described f s)).toOption.map fun _ =>
      packageWords f.package ++ s.name.toList.splitOn '_'

theorem toOption_swiftName (index : TypeIndex) (reference referrer : String) :
    (index.swiftName reference referrer).toOption =
      (index.resolve? reference).map fun e => typeName e.package e.relativeName := by
  unfold TypeIndex.swiftName
  cases index.resolve? reference with
  | none => rfl
  | some e => rfl

theorem typeName_of_ofService {index : TypeIndex} {f : File} {s : Descriptor.Service}
    {c : Client} (h : Client.ofService index (Service.described f s) = .ok c) :
    c.typeName = packageLead f.package ++ s.name := by
  obtain ⟨methods, -, hc⟩ := Outcome.bind_eq_ok.1 h
  rw [Outcome.pure_eq_ok.1 hc]
  rfl

theorem map_splitOn_swiftName? (index : TypeIndex) (f : File) (d : Declaration) :
    (swiftName? index f d).map (fun name => name.toList.splitOn '_') =
      swiftWords? index f d := by
  have htype (reference : String) :
      (index.swiftName reference "").toOption.map (fun name => name.toList.splitOn '_') =
        (index.resolve? reference).map fun e => nameWords e.package e.relativeName := by
    rw [toOption_swiftName, Option.map_map]
    exact congrArg (Option.map · _) (funext fun e => splitOn_typeName e.package e.relativeName)
  cases d with
  | message scope m => exact htype _
  | enum scope e => exact htype _
  | service s =>
    rw [swiftName?, swiftWords?]
    cases hc : Client.ofService index (Service.described f s) with
    | error e => rfl
    | ok c =>
      simp only [Except.toOption, Option.map_some, typeName_of_ofService hc, String.toList_append,
        splitOn_packageLead]

/-- A type has one word for each message around it and one of its own. -/
theorem nameWords_dotted (package : String) {path : List String} (hne : path ≠ [])
    (h : ∀ name ∈ path, Name.Plain name) :
    nameWords package (Name.dotted path) = packageWords package ++ path.map String.toList := by
  rw [nameWords, Name.splitOn_dotted hne h, List.flatMap_map, ← List.flatMap_singleton'
    (path.map String.toList), List.flatMap_map]
  congr 1
  exact List.flatMap_congr fun name hname => List.splitOn_eq_singleton (h name hname).2

/-- The words say all about the name. -/
theorem swiftName?_eq_iff {index : TypeIndex} {f g : File} {d d' : Declaration} :
    swiftName? index f d = swiftName? index g d' ↔
      swiftWords? index f d = swiftWords? index g d' := by
  rw [← map_splitOn_swiftName?, ← map_splitOn_swiftName?]
  refine (Option.map_injective fun name name' h => ?_).eq_iff.symm
  exact String.toList_inj.1 (splitOn_injective '_' h)

end Swift

/-! ## What a run emits -/

namespace Plugin

open SwiftRpc.Api
open SwiftRpc.Descriptor
open SwiftRpc.Swift
open SwiftRpc.Text

/-- All that is emitted: the types of the generated files that have a block, and the services. -/
def emitted (r : Request) : List (File × Declaration) :=
  (generatedFiles r).flatMap fun f =>
    (f.declarations.filter Declaration.hasBlock ++ f.services.map Declaration.service).map
      (Prod.mk f)

def swiftNames (r : Request) : List (Option String) :=
  (emitted r).map fun x => swiftName? (TypeIndex.ofFiles r.files) x.1 x.2

theorem mem_emitted {r : Request} {f : File} {d : Declaration} :
    (f, d) ∈ emitted r ↔ f ∈ generatedFiles r ∧
      ((d ∈ f.declarations ∧ d.hasBlock = true) ∨ ∃ s ∈ f.services, .service s = d) := by
  simp only [emitted, List.mem_flatMap, List.mem_map, List.mem_append, List.mem_filter,
    Prod.mk.injEq]
  constructor
  · rintro ⟨f, hf, d, hd, rfl, rfl⟩
    exact ⟨hf, hd⟩
  · rintro ⟨hf, hd⟩
    exact ⟨f, hf, d, hd, rfl, rfl⟩

theorem declared_of_emitted {r : Request} {f : File} {d : Declaration} (h : (f, d) ∈ emitted r) :
    f ∈ generatedFiles r ∧ d ∈ f.declarations := by
  obtain ⟨hf, ⟨hd, -⟩ | ⟨s, hs, rfl⟩⟩ := mem_emitted.1 h
  · exact ⟨hf, hd⟩
  · exact ⟨hf, mem_declarations_of_service hs⟩

theorem exists_swiftName?_of_renders {registry : Registry} (hr : registry.Valid)
    {index : TypeIndex} {f : File} {d : Declaration} {text : String}
    (h : Renders registry index f d text) : ∃ name, swiftName? index f d = some name := by
  have htype (reference : String) (hresolve : ∃ e, index.resolve? reference = some e) :
      ∃ name, (index.swiftName reference "").toOption = some name := by
    obtain ⟨e, he⟩ := hresolve
    rw [toOption_swiftName, he]
    exact ⟨_, rfl⟩
  cases d with
  | message scope m =>
    obtain ⟨model, hmodel, hrender⟩ := h
    obtain ⟨-, hname⟩ := hr.model?_eq_some.1 hmodel
    obtain ⟨s, hs, -⟩ := Outcome.map_eq_ok.1 hrender
    have hresolve := ((exists_struct hr).1 ⟨s, hs⟩).2.1
    rw [hname] at hresolve
    exact htype _ hresolve
  | enum scope e =>
    have hresolve := (exists_renderEnum (e := Enumeration.described f scope e)).1 ⟨text, h⟩
    exact htype _ hresolve
  | service s =>
    obtain ⟨c, hc, -⟩ := Outcome.map_eq_ok.1 h
    rw [swiftName?, hc]
    exact ⟨_, rfl⟩

/-- If models are asked for, all that is emitted was rendered. -/
theorem exists_swiftName? {r : Request} {plan : Plan} (hplan : Plan.ofRequest r = .ok plan)
    (hmodels : plan.options.models = true) {index : TypeIndex}
    (hnone : (plan.render (renderer index plan.options)).error? = none) {f : File}
    {d : Declaration} (h : (f, d) ∈ emitted r) : ∃ name, swiftName? index f d = some name := by
  obtain ⟨hf, hd⟩ := mem_emitted.1 h
  obtain ⟨output, clients, models, hclients, hblocks, -⟩ :=
    (error?_eq_none_iff hplan).1 hnone f hf
  rcases hd with ⟨hd, hblock⟩ | ⟨s, hs, rfl⟩
  · rw [ModelOutput, if_pos ⟨hmodels, declares_of_hasBlock hd hblock⟩] at hblocks
    obtain ⟨blocks, hblocks, -⟩ := hblocks
    obtain ⟨text, -, htext⟩ :=
      Outcome.exists_mem_of_forall₂ hblocks (List.mem_filter.2 ⟨hd, hblock⟩)
    exact exists_swiftName?_of_renders (valid_of_ofRequest hplan) htext
  · obtain ⟨text, -, htext⟩ := Outcome.exists_mem_of_forall₂ hclients hs
    exact exists_swiftName?_of_renders (valid_of_ofRequest hplan) htext

/-! ## Clashes -/

/-- A run with models goes well and emits two things of the same Swift name. -/
def Clashes (r : Request) : Prop :=
  ∃ response plan, run r = .ok response ∧ response.error? = none ∧
    Plan.ofRequest r = .ok plan ∧ plan.options.models = true ∧ ¬ (swiftNames r).Nodup

theorem clashes_iff {r : Request} :
    Clashes r ↔ (Plan.ofRequest r).toOption.any (·.options.models) = true ∧
      (run r).toOption.bind (·.error?) = none ∧ ¬ (swiftNames r).Nodup := by
  unfold Clashes
  cases hplan : Plan.ofRequest r with
  | error e => simp [Except.toOption]
  | ok plan =>
    rw [run_eq_ok hplan]
    simp [Except.toOption, and_left_comm]

instance (r : Request) : Decidable (Clashes r) := decidable_of_iff _ clashes_iff.symm

/-- The names of a run are not always distinct: an underscore in the name of a message may stand
where a dot does in another one, a message may have the name of a service, packages may differ in
underscores or case only, and a package may be called as a message of the package around it. -/
theorem swiftNames_clash :
    let file (name package service : String) (messages : List Message) : File :=
      { name? := some name, package? := some package, messages,
        services := [{ name? := some service }] }
    let all (files : List File) : Request := { filesToGenerate := files.map (·.name), files }
    let c : Message := { name? := some "C" }
    let b : Message := { name? := some "B", nested := [c] }
    Clashes (all [file "a.proto" "a" "Desk" [b, { name? := some "B_C" }]]) ∧
      Clashes (all [file "a.proto" "a" "C" [c]]) ∧
      Clashes (all [file "a.proto" "a_b" "Desk" [c], file "b.proto" "aB" "Shop" [c]]) ∧
      Clashes (all [file "a.proto" "a" "Desk" [b], file "b.proto" "a.b" "Shop" [c]]) := by
  decide +kernel

/-! ## Conventions -/

/-- The conventions of schemas that keep the emitted names apart. -/
structure Conventional (r : Request) : Prop where
  /-- No full name is declared twice, by declarations of whatever kind. -/
  distinct : ((emitted r).map fun x => x.2.fullName x.1).Nodup
  /-- No file of another package declares a type of the same full name. -/
  home : ∀ f ∈ generatedFiles r, ∀ g ∈ r.files, ∀ b ∈ TypeIndex.ofFile g,
    b.1 ∈ (fileTypes f).map (·.1) → g.package = f.package
  plain : ∀ f ∈ generatedFiles r, ∀ d ∈ f.declarations, Name.Plain d.ownName
  undotted : ∀ f ∈ generatedFiles r, Name.Undotted f.package
  /-- Different packages have different leads. -/
  leads : ∀ f ∈ generatedFiles r, ∀ g ∈ generatedFiles r,
    packageLead f.package = packageLead g.package → f.package = g.package
  /-- The lead of a package is not made of the name of a message. -/
  apart : ∀ f ∈ generatedFiles r, ∀ g ∈ generatedFiles r, ∀ d ∈ f.declarations,
    d.isMessage = true →
      (swiftName? (TypeIndex.ofFiles r.files) f d).map (· ++ "_") ≠ some (packageLead g.package)

section Conventional

variable {r : Request} {plan : Plan}

theorem Conventional.plain_of_trail (hconv : Conventional r) {f : File}
    (hf : f ∈ generatedFiles r) {path : List String}
    (h : Trail f.declarations f.package path) : ∀ name ∈ path, Name.Plain name := by
  intro name hname
  obtain ⟨d, hd, rfl⟩ := h.named name hname
  exact hconv.plain f hf d hd

theorem Conventional.undotted_file (hconv : Conventional r) {f : File}
    (hf : f ∈ generatedFiles r) : f.Undotted := by
  refine ⟨hconv.undotted f hf, ?_⟩
  intro d hd
  have hplain := hconv.plain f hf d hd
  cases d with
  | message scope m => exact hplain.undotted
  | enum scope e => exact hplain.undotted
  | service s => trivial

/-- A type of a generated file is found in the index where the file has it. -/
theorem Conventional.place_of_resolve? (hconv : Conventional r)
    (hplan : Plan.ofRequest r = .ok plan) {f : File} (hf : f ∈ generatedFiles r)
    {t : String × TypeKind} (ht : t ∈ f.declarations.filterMap (·.type?)) {e : TypeEntry}
    (he : (TypeIndex.ofFiles r.files).resolve? t.1 = some e) :
    e.package = f.package ∧ Name.join f.package e.relativeName = t.1 := by
  rw [TypeIndex.resolve?, Name.absolute_of_undotted ((hconv.undotted_file hf).type ht)] at he
  obtain ⟨g, hg, hb⟩ := List.mem_flatMap.1 (Dictionary.mem_of_get?_ofList he)
  have hbinding := TypeIndex.package_ofFile hb
  have hname : t.1 = Name.join g.package e.relativeName := congrArg Prod.fst hbinding
  have hpackage : e.package = g.package := congrArg (·.2.package) hbinding
  have hhome : g.package = f.package := by
    refine hconv.home f hf g hg _ hb ?_
    rw [fileTypes_eq (named_of_ofRequest hplan hf)]
    exact List.mem_map_of_mem ht
  rw [hhome] at hname hpackage
  exact ⟨hpackage, hname.symm⟩

theorem Conventional.words_of_trail (hconv : Conventional r) (hplan : Plan.ofRequest r = .ok plan)
    {f : File} (hf : f ∈ generatedFiles r) {t : String × TypeKind}
    (ht : t ∈ f.declarations.filterMap (·.type?)) {path : List String}
    (htrail : Trail f.declarations f.package path) (hfull : t.1 = Name.within f.package path)
    {e : TypeEntry} (he : (TypeIndex.ofFiles r.files).resolve? t.1 = some e) :
    nameWords e.package e.relativeName = packageWords f.package ++ path.map String.toList := by
  have hnamed : ∀ name ∈ path, name ≠ "" := by
    intro name hname
    obtain ⟨d, hd, rfl⟩ := htrail.named name hname
    exact (wellFormed_of_ofRequest hplan hf d hd).ownName_ne_empty
  obtain ⟨hpackage, hjoin⟩ := hconv.place_of_resolve? hplan hf ht he
  -- the full name and the package leave one relative name only
  rw [hfull, Name.within_eq_join htrail.ne_nil hnamed] at hjoin
  have hrelative : e.relativeName = Name.dotted path := by
    rw [← Name.relativeTo_join f.package e.relativeName, hjoin, Name.relativeTo_join]
  rw [hpackage, hrelative, nameWords_dotted _ htrail.ne_nil (hconv.plain_of_trail hf htrail)]

/-- Every declaration has a path, and its words are those of the package and of the path. -/
theorem Conventional.exists_trail (hconv : Conventional r) (hplan : Plan.ofRequest r = .ok plan)
    {f : File} (hf : f ∈ generatedFiles r) {d : Declaration} (hd : d ∈ f.declarations)
    {words : List (List Char)}
    (hwords : swiftWords? (TypeIndex.ofFiles r.files) f d = some words) :
    ∃ path, Trail f.declarations f.package path ∧ d.fullName f = Name.within f.package path ∧
      words = packageWords f.package ++ path.map String.toList := by
  have htype (t : String × TypeKind) (ht : d.type? = some t)
      (hresolve : ((TypeIndex.ofFiles r.files).resolve? t.1).map
        (fun e => nameWords e.package e.relativeName) = some words) :
      ∃ path, Trail f.declarations f.package path ∧ d.fullName f = Name.within f.package path ∧
        words = packageWords f.package ++ path.map String.toList := by
    have hmem : t ∈ f.declarations.filterMap (·.type?) := List.mem_filterMap.2 ⟨d, hd, ht⟩
    obtain ⟨path, htrail, hfull⟩ := File.exists_trail hmem
    obtain ⟨e, he, rfl⟩ := Option.map_eq_some_iff.1 hresolve
    refine ⟨path, htrail, ?_, hconv.words_of_trail hplan hf hmem htrail hfull he⟩
    rw [Declaration.fullName_of_type? ht, hfull]
  cases d with
  | message scope m => exact htype (Name.join scope m.name, .message) rfl hwords
  | enum scope e => exact htype (Name.join scope e.name, .enum) rfl hwords
  | service s =>
    obtain ⟨c, -, rfl⟩ := Option.map_eq_some_iff.1 hwords
    have hplain : Name.Plain s.name := hconv.plain f hf (.service s) hd
    rw [List.splitOn_eq_singleton hplain.2]
    exact ⟨_, Trail.single hd, rfl, rfl⟩

/-- The words of one package go on to those of another one only through a message. -/
theorem Conventional.eq_nil_of_packageWords (hconv : Conventional r)
    (hplan : Plan.ofRequest r = .ok plan) {f g : File} (hf : f ∈ generatedFiles r)
    (hg : g ∈ generatedFiles r) {path : List String}
    (htrail : Trail f.declarations f.package path) {more rest : List (List Char)}
    (hpackage : packageWords g.package = packageWords f.package ++ more)
    (hpath : path.map String.toList = more ++ rest) (hrest : rest ≠ []) : more = [] := by
  by_contra hmore
  obtain ⟨front, back, rfl, rfl, rfl⟩ := List.map_eq_append_iff.1 hpath
  have hfront : front ≠ [] := by simpa using hmore
  obtain ⟨scope, m, hm, hname⟩ := htrail.around front back rfl hfront (by simpa using hrest)
  -- the message around the rest is a declaration with a Swift name of its own
  have ht : (Name.join scope m.name, .message) ∈ f.declarations.filterMap (·.type?) :=
    List.mem_filterMap.2 ⟨_, hm, rfl⟩
  obtain ⟨e, he⟩ := TypeIndex.exists_resolve?_of_declared (mem_files_of_generated hf)
    (named_of_ofRequest hplan hf) (hconv.undotted_file hf) ht
  have htrail' : Trail f.declarations f.package front := htrail.front hfront
  have hwords := hconv.words_of_trail hplan hf ht htrail' hname he
  refine hconv.apart f hf g hg _ hm rfl ?_
  rw [swiftName?, toOption_swiftName, he, Option.map_some, Option.map_some, Option.some.injEq,
    ← String.toList_inj]
  apply splitOn_injective '_'
  rw [String.toList_append, splitOn_toList_packageLead, hpackage, ← hwords, ← splitOn_typeName]
  exact List.splitOn_append_cons_self _ []

theorem Conventional.fullName_eq (hconv : Conventional r) (hplan : Plan.ofRequest r = .ok plan)
    {f g : File} (hf : f ∈ generatedFiles r) (hg : g ∈ generatedFiles r) {d d' : Declaration}
    (hd : d ∈ f.declarations) (hd' : d' ∈ g.declarations) {words : List (List Char)}
    (hwords : swiftWords? (TypeIndex.ofFiles r.files) f d = some words)
    (hwords' : swiftWords? (TypeIndex.ofFiles r.files) g d' = some words) :
    d.fullName f = d'.fullName g := by
  obtain ⟨path, htrail, hfull, rfl⟩ := hconv.exists_trail hplan hf hd hwords
  obtain ⟨path', htrail', hfull', heq⟩ := hconv.exists_trail hplan hg hd' hwords'
  have hmap : path.map String.toList ≠ [] := by simpa using htrail.ne_nil
  have hmap' : path'.map String.toList ≠ [] := by simpa using htrail'.ne_nil
  have hpackage : packageWords f.package = packageWords g.package := by
    rcases List.append_eq_append_iff.1 heq with ⟨more, hmore, hpath⟩ | ⟨more, hmore, hpath⟩
    · rw [hmore, hconv.eq_nil_of_packageWords hplan hf hg htrail hmore hpath hmap',
        List.append_nil]
    · rw [hmore, hconv.eq_nil_of_packageWords hplan hg hf htrail' hmore hpath hmap,
        List.append_nil]
  rw [hpackage, List.append_right_inj] at heq
  have hpath : path = path' := by
    exact (List.map_injective_iff.2 fun a b h => String.toList_inj.1 h) heq
  rw [hfull, hfull', hpath, hconv.leads f hf g hg (packageLead_eq_iff.2 hpackage)]

theorem Conventional.swiftNames_nodup (hconv : Conventional r)
    (hplan : Plan.ofRequest r = .ok plan)
    (hnames : ∀ x ∈ emitted r, ∃ name, swiftName? (TypeIndex.ofFiles r.files) x.1 x.2 = some name) :
    (swiftNames r).Nodup := by
  have hnodup : (emitted r).Nodup := hconv.distinct.of_map _
  refine hnodup.map_on ?_
  rintro ⟨f, d⟩ hx ⟨g, d'⟩ hy heq
  obtain ⟨hf, hd⟩ := declared_of_emitted hx
  obtain ⟨hg, hd'⟩ := declared_of_emitted hy
  obtain ⟨name, hname⟩ := hnames _ hx
  have hwords :
      swiftWords? (TypeIndex.ofFiles r.files) f d = some (name.toList.splitOn '_') := by
    rw [← map_splitOn_swiftName?, hname]
    rfl
  have hwords' :
      swiftWords? (TypeIndex.ofFiles r.files) g d' = some (name.toList.splitOn '_') := by
    rw [← swiftName?_eq_iff.1 heq, hwords]
  have hfull := hconv.fullName_eq hplan hf hg hd hd' hwords hwords'
  exact List.inj_on_of_nodup_map hconv.distinct hx hy hfull

end Conventional

/-- **When the Swift names of a run are distinct.** If models are asked for and the answer has no
error, all that is emitted has a Swift name, and these names are pairwise distinct exactly if the
lists of words are. They are if the schema keeps to the conventions. -/
theorem swiftNames_distinct {r : Request} {response : Response} {plan : Plan}
    (hrun : run r = .ok response) (hnone : response.error? = none)
    (hplan : Plan.ofRequest r = .ok plan) (hmodels : plan.options.models = true) :
    (∀ name? ∈ swiftNames r, name?.isSome = true) ∧
    ((swiftNames r).Nodup ↔
      ((emitted r).map fun x => swiftWords? (TypeIndex.ofFiles r.files) x.1 x.2).Nodup) ∧
    (Conventional r → (swiftNames r).Nodup) := by
  rw [run_eq_ok hplan] at hrun
  cases hrun
  have hnames : ∀ x ∈ emitted r,
      ∃ name, swiftName? (TypeIndex.ofFiles r.files) x.1 x.2 = some name :=
    fun x hx => exists_swiftName? hplan hmodels hnone hx
  refine ⟨?_, ?_, ?_⟩
  · rw [swiftNames, List.forall_mem_map]
    exact fun x hx => Option.isSome_iff_exists.2 (hnames x hx)
  · unfold swiftNames List.Nodup
    rw [List.pairwise_map, List.pairwise_map]
    simp only [ne_eq, swiftName?_eq_iff]
  · intro hconv
    exact hconv.swiftNames_nodup hplan hnames

/-- Two packages, of which one has the other one in front, with nested messages, an enumeration and
the entry of a map. -/
theorem swiftNames_distinct_nested :
    let entry : Message := { name? := some "E", options? := some { mapFlag? := some true } }
    let inner : Message := { name? := some "C", enums := [{ name? := some "D" }] }
    let outer : Message := { name? := some "B", nested := [inner, entry] }
    let f : File :=
      { name? := some "f.proto", package? := some "a", messages := [outer],
        services := [{ name? := some "Desk" }] }
    let g : File :=
      { name? := some "g.proto", package? := some "a.b_c", messages := [inner],
        services := [{ name? := some "Desk" }] }
    let r : Request := { filesToGenerate := ["f.proto", "g.proto"], files := [f, g] }
    (swiftNames r).Nodup ∧
      swiftNames r = [some "A_B", some "A_B_C", some "A_B_C_D", some "A_Desk", some "A_BC_C",
        some "A_BC_C_D", some "A_BC_Desk"] := by
  intro entry inner outer f g r
  have hok : (Plan.ofRequest r).toOption.isSome = true := by decide +kernel
  obtain ⟨plan, hplan⟩ := Outcome.exists_eq_ok_iff.2 hok
  have hrun := run_eq_ok hplan
  have hnone : (run r).toOption.bind (·.error?) = none := by decide +kernel
  rw [hrun] at hnone
  obtain ⟨-, hparse, -⟩ := ofRequest_eq_ok.1 hplan
  have hmodels : plan.options.models = true := by
    rw [show Options.parse r.parameter? = .ok {} by decide +kernel] at hparse
    rw [← Except.ok.inj hparse]
  have hconv : Conventional r := by constructor <;> decide +kernel
  exact ⟨(swiftNames_distinct hrun hnone hplan hmodels).2.2 hconv, by decide +kernel⟩

end Plugin

end SwiftRpc
