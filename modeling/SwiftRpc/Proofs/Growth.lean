import Mathlib.Logic.Function.Iterate
import SwiftRpc.Proofs.Capability
import SwiftRpc.Proofs.Walks

/-!
# A registry over its whole life

A registry grows from the empty one by single additions and by whole files, in any order, and calls
that fail are part of its life: a refused addition changes nothing, and a file that cannot be
registered to its end leaves the declarations before the faulty one behind. `history` lists what
was entered. It is accepted as a whole (`accepts_history`), and nothing else is ever in the
registry (`after_eq_pushAll`); marking capabilities at the end moves nothing.
-/

namespace SwiftRpc.Api

open SwiftRpc.Descriptor

/-- A call on a registry that is being filled. -/
inductive Call where
  | add (a : Addition)
  | file (f : File)

namespace Registry

def call (r : Registry) : Call → Progress
  | .add a => .ofAddition r ((r.add a).mapError .registry)
  | .file f => r.addFile f

/-- The registry after the calls, the failing ones included. -/
def after (r : Registry) (calls : List Call) : Registry :=
  calls.foldl (fun r c => (r.call c).registry) r

/-! ## What a call enters -/

/-- The declarations before the first one that cannot be registered. -/
def passed (file : File) : Registry → List Declaration → List Declaration
  | _, [] => []
  | r, d :: rest =>
    match r.declare file d with
    | ⟨r', none⟩ => d :: passed file r' rest
    | ⟨_, some _⟩ => []

/-- What the call puts into the registry, in order. -/
def gains (r : Registry) : Call → List Addition
  | .add a => if (r.call (.add a)).error? = none then [a] else []
  | .file f => (passed f r f.declarations).map (·.entry f)

def history : Registry → List Call → List Addition
  | _, [] => []
  | r, c :: rest => r.gains c ++ history (r.call c).registry rest

variable {r : Registry}

theorem call_add_of_ok {a : Addition} {r' : Registry} (h : r.add a = .ok r') :
    r.call (.add a) = ⟨r', none⟩ := by
  rw [call, h]
  rfl

theorem call_add_of_error {a : Addition} {e : RegistryError} (h : r.add a = .error e) :
    r.call (.add a) = ⟨r, some (.registry e)⟩ := by
  rw [call, h]
  rfl

theorem passed_cons_of_done {file : File} {d : Declaration} {r' : Registry}
    (h : r.declare file d = ⟨r', none⟩) (rest : List Declaration) :
    passed file r (d :: rest) = d :: passed file r' rest := by
  rw [passed, h]

theorem passed_cons_of_fault {file : File} {d : Declaration} {r' : Registry} {e : DescriptorError}
    (h : r.declare file d = ⟨r', some e⟩) (rest : List Declaration) :
    passed file r (d :: rest) = [] := by
  rw [passed, h]

/-- **A file enters its declarations up to the first fault.** -/
theorem overList_declare (file : File) (r : Registry) (ds : List Declaration) :
    (Progress.overList (declare file) r ds).registry =
        r.pushAll ((passed file r ds).map (·.entry file)) ∧
      ∃ rest, ds = passed file r ds ++ rest ∧
        ((Progress.overList (declare file) r ds).error? = none ↔ rest = []) := by
  induction ds generalizing r with
  | nil => exact ⟨rfl, [], rfl, by simp [Progress.overList]⟩
  | cons d rest ih =>
    rcases declare_cases r file d with ⟨-, hd⟩ | ⟨e, hd⟩
    · obtain ⟨hregistry, tail, hsplit, hnone⟩ := ih (r.push (d.entry file))
      rw [Progress.overList_cons_of_none hd, passed_cons_of_done hd]
      refine ⟨hregistry, tail, ?_, hnone⟩
      rw [List.cons_append, ← hsplit]
    · -- what comes after the fault is never looked at
      rw [Progress.overList_cons_of_some hd, passed_cons_of_fault hd]
      exact ⟨rfl, d :: rest, rfl, by simp⟩

theorem accepts_passed (hr : r.Valid) (file : File) (ds : List Declaration) :
    r.Accepts ((passed file r ds).map (·.entry file)) := by
  induction ds generalizing r with
  | nil => exact hr.accepts_nil
  | cons d rest ih =>
    rw [passed]
    split
    · rename_i r' hd
      obtain ⟨-, hfree, rfl⟩ := (declare_eq_done hr).1 hd
      exact accepts_cons.2 (ih (hr.push hfree))
    · exact hr.accepts_nil

theorem registry_call (r : Registry) (c : Call) :
    (r.call c).registry = r.pushAll (r.gains c) := by
  cases c with
  | add a =>
    rw [gains]
    cases hadd : r.add a with
    | ok r' =>
      rw [call_add_of_ok hadd, if_pos rfl]
      exact eq_push_of_add hadd
    | error e =>
      rw [call_add_of_error hadd, if_neg (by simp)]
      rfl
  | file f =>
    rw [call, addFile_eq_overList]
    exact (overList_declare f r f.declarations).1

theorem accepts_gains (hr : r.Valid) (c : Call) : r.Accepts (r.gains c) := by
  cases c with
  | add a =>
    rw [gains]
    by_cases hfree : r.Free a
    · rw [call_add_of_ok (add_of_free hr hfree), if_pos rfl]
      exact accepts_cons.2 (hr.push hfree).accepts_nil
    · obtain ⟨e, he⟩ := add_of_not_free hr hfree
      rw [call_add_of_error he, if_neg (by simp)]
      exact hr.accepts_nil
  | file f => exact accepts_passed hr f f.declarations

/-! ## What a life enters -/

theorem Valid.call (hr : r.Valid) (c : Call) : (r.call c).registry.Valid := by
  rw [registry_call]
  exact hr.pushAll (accepts_gains hr c)

/-- Nothing is in the registry but what was entered. -/
theorem after_eq_pushAll (r : Registry) (calls : List Call) :
    r.after calls = r.pushAll (r.history calls) := by
  induction calls generalizing r with
  | nil => rfl
  | cons c rest ih =>
    rw [history, pushAll_append, ← registry_call]
    exact ih _

theorem accepts_history (hr : r.Valid) (calls : List Call) : r.Accepts (r.history calls) := by
  induction calls generalizing r with
  | nil => exact hr.accepts_nil
  | cons c rest ih =>
    refine accepts_append.2 ⟨accepts_gains hr c, ?_⟩
    -- the later calls are accepted by what this one leaves, which is valid again
    rw [← registry_call]
    exact ih (hr.call c)

theorem Valid.after (hr : r.Valid) (calls : List Call) : (r.after calls).Valid := by
  rw [after_eq_pushAll]
  exact hr.pushAll (accepts_history hr calls)

theorem after_append (r : Registry) (before rest : List Call) :
    r.after (before ++ rest) = (r.after before).after rest :=
  List.foldl_append

theorem after_append_cons (r : Registry) (before : List Call) (c : Call) (rest : List Call) :
    r.after (before ++ c :: rest) = ((r.after before).call c).registry.after rest :=
  after_append r before (c :: rest)

theorem bare_iterate_applyCapabilities (r : Registry) (n : Nat) :
    (applyCapabilities^[n] r).bare = r.bare := by
  induction n generalizing r with
  | zero => rfl
  | succ n ih => rw [Function.iterate_succ_apply, ih, bare_applyCapabilities]

/-! ## Identities -/

/-- The identity stands for the model, whatever its capabilities, and is found under its name. -/
structure Denotes (r : Registry) (id : Nat) (m : Model) : Prop where
  model : (r.models[id]?).map Model.bare = some m.bare
  found : r.modelId? m.name = some id

theorem Valid.denotes (hr : r.Valid) {id : Nat} {m : Model}
    (h : (r.models[id]?).map Model.bare = some m.bare) : r.Denotes id m := by
  obtain ⟨m', hm', hbare⟩ := Option.map_eq_some_iff.1 h
  exact ⟨h, hr.modelId?_eq_some.2 ⟨m', hm', Model.name_of_bare hbare⟩⟩

theorem getElem?_after {id : Nat} {m : Model} (h : r.models[id]? = some m) (calls : List Call) :
    (r.after calls).models[id]? = some m := by
  rw [after_eq_pushAll, models_pushAll, List.getElem?_append_left, h]
  exact (List.getElem?_eq_some_iff.1 h).1

theorem Denotes.after (hr : r.Valid) {id : Nat} {m : Model} (h : r.Denotes id m)
    (calls : List Call) : (r.after calls).Denotes id m := by
  obtain ⟨m', hm', hbare⟩ := Option.map_eq_some_iff.1 h.model
  refine (hr.after calls).denotes ?_
  rw [getElem?_after hm' calls]
  exact congrArg some hbare

theorem Denotes.of_bare {r' : Registry} {id : Nat} {m : Model} (h : r.Denotes id m)
    (hb : r.bare = r'.bare) : r'.Denotes id m where
  model := by rw [← getElem?_bare hb, h.model]
  found := by rw [modelId?, ← modelIndex_of_bare hb, ← h.found, modelId?]

/-- The identity that an addition answers is the position at the end. -/
theorem addModel_eq_ok {m : Model} {id : Nat} {r' : Registry} :
    r.addModel m = .ok (id, r') ↔
      ¬ (r.modelId? m.name).isSome = true ∧ id = r.modelCount ∧ r' = r.pushModel m := by
  rw [addModel, Outcome.guarded_eq_ok, Prod.mk.injEq]

theorem denotes_of_addModel (hr : r.Valid) {m : Model} {id : Nat} {r' : Registry}
    (h : r.addModel m = .ok (id, r')) : (r.call (.add (.model m))).registry.Denotes id m := by
  obtain ⟨-, rfl, rfl⟩ := addModel_eq_ok.1 h
  refine (hr.call _).denotes ?_
  have hadd : r.add (.model m) = .ok (r.pushModel m) := by
    rw [add, h]
    rfl
  rw [call_add_of_ok hadd]
  simp [pushModel, modelCount]

/-! ## The invariant -/

/-- One addition puts its entry at the end of its list and touches nothing else. -/
structure Appended (r : Registry) (a : Addition) (r' : Registry) : Prop where
  models : r'.models = r.models ++ a.model?.toList
  enums : r'.enums = r.enums ++ a.enum?.toList
  services : r'.services = r.services ++ a.service?.toList

theorem appended_of_add {a : Addition} {r' : Registry} (h : r.add a = .ok r') :
    r.Appended a r' := by
  obtain rfl := eq_push_of_add h
  cases a with
  | model m => exact ⟨rfl, (List.append_nil _).symm, (List.append_nil _).symm⟩
  | enum e => exact ⟨(List.append_nil _).symm, rfl, (List.append_nil _).symm⟩
  | service s => exact ⟨(List.append_nil _).symm, (List.append_nil _).symm, rfl⟩

theorem exists_add_iff_free (hr : r.Valid) {a : Addition} :
    (∃ r', r.add a = .ok r') ↔ r.Free a := by
  constructor
  · rintro ⟨r', hadd⟩
    by_contra hfree
    obtain ⟨e, he⟩ := add_of_not_free hr hfree
    rw [he] at hadd
    cases hadd
  · intro hfree
    exact ⟨_, add_of_free hr hfree⟩

/-! ## What is found -/

theorem mem_models_after {calls : List Call} {m : Model} :
    m ∈ (empty.after calls).models ↔ .model m ∈ empty.history calls := by
  rw [after_eq_pushAll, models_pushAll]
  simp [empty, List.mem_filterMap, Addition.model?_eq_some]

theorem mem_enums_after {calls : List Call} {e : Enumeration} :
    e ∈ (empty.after calls).enums ↔ .enum e ∈ empty.history calls := by
  rw [after_eq_pushAll, enums_pushAll]
  simp [empty, List.mem_filterMap, Addition.enum?_eq_some]

theorem mem_services_after {calls : List Call} {s : Service} :
    s ∈ (empty.after calls).services ↔ .service s ∈ empty.history calls := by
  rw [after_eq_pushAll, services_pushAll]
  simp [empty, List.mem_filterMap, Addition.service?_eq_some]

/-- Models are found by name, whatever their capabilities. -/
theorem Valid.bare_model?_eq_some (hr : r.Valid) {name : String} {m : Model} :
    (r.model? name).map Model.bare = some m ↔
      ∃ m' ∈ r.models, m'.name = name ∧ m'.bare = m := by
  simp only [Option.map_eq_some_iff, hr.model?_eq_some, and_assoc]

theorem model?_of_bare {r' : Registry} (hb : r.bare = r'.bare) (name : String) :
    (r.model? name).map Model.bare = (r'.model? name).map Model.bare := by
  have hid : r.modelId? name = r'.modelId? name := by rw [modelId?, modelId?, modelIndex_of_bare hb]
  rw [model?, model?, hid]
  cases r'.modelId? name with
  | none => rfl
  | some id => exact getElem?_bare hb id

/-- **A registry over its whole life.** After any calls on the empty registry, failing ones
included, and any number of passes over the capabilities, each index maps a name to a position
exactly if the entry there has that name, and the names of each kind are distinct.

A further addition succeeds exactly if its name is free. It then appends its entry, for a model at
the position that it answers; else it changes nothing. A further file enters its declarations up to
the first fault. So an identity that once stood for a model does so for ever, and what is found by
name is precisely what was entered. -/
theorem after_exact (calls : List Call) (n : Nat) :
    let r := empty.after calls
    let final := applyCapabilities^[n] r
    ((∀ name id, final.modelIndex.get? name = some id ↔
        ∃ m, final.models[id]? = some m ∧ m.name = name) ∧ final.modelNames.Nodup) ∧
    ((∀ name id, final.enumIndex.get? name = some id ↔
        ∃ e, final.enums[id]? = some e ∧ e.name = name) ∧ final.enumNames.Nodup) ∧
    final.serviceNames.Nodup ∧
    (∀ a, ((∃ r', r.add a = .ok r') ↔ r.Free a) ∧
      (∀ r', r.add a = .ok r' → r.Appended a r') ∧
      (∀ e, r.add a = .error e → (r.call (.add a)).registry = r)) ∧
    (∀ m id r', r.addModel m = .ok (id, r') → id = r.modelCount) ∧
    (∀ f, (r.addFile f).registry = r.pushAll ((passed f r f.declarations).map (·.entry f)) ∧
      ∃ rest, f.declarations = passed f r f.declarations ++ rest ∧
        ((r.addFile f).error? = none ↔ rest = [])) ∧
    (∀ before rest m id r', calls = before ++ .add (.model m) :: rest →
      (empty.after before).addModel m = .ok (id, r') → final.Denotes id m) ∧
    (∀ before rest id m, calls = before ++ rest → (empty.after before).Denotes id m →
      final.Denotes id m) ∧
    (∀ name m, (final.model? name).map Model.bare = some m ↔
      ∃ m', .model m' ∈ empty.history calls ∧ m'.name = name ∧ m'.bare = m) ∧
    (∀ name e, final.enumeration? name = some e ↔
      .enum e ∈ empty.history calls ∧ e.name = name) ∧
    (∀ name s, final.service? name = some s ↔
      .service s ∈ empty.history calls ∧ s.fullName = name) := by
  intro r final
  have hr : r.Valid := valid_empty.after calls
  have hb : r.bare = final.bare := (bare_iterate_applyCapabilities r n).symm
  have hfinal : final.Valid := hr.of_bare hb
  refine ⟨⟨?_, hfinal.models.nodup⟩, ⟨?_, hfinal.enums.nodup⟩, hfinal.services, ?_, ?_, ?_, ?_, ?_,
    ?_, ?_, ?_⟩
  · intro name id
    exact hfinal.modelId?_eq_some
  · intro name id
    rw [hfinal.enums, enumNames, List.getElem?_map, Option.map_eq_some_iff]
  · intro a
    refine ⟨exists_add_iff_free hr, fun r' => appended_of_add, fun e he => ?_⟩
    rw [call_add_of_error he]
  · intro m id r' hadd
    exact (addModel_eq_ok.1 hadd).2.1
  · intro f
    rw [addFile_eq_overList]
    exact overList_declare f r f.declarations
  · rintro before rest m id r' hcalls hadd
    have hbefore : (empty.after before).Valid := valid_empty.after before
    have hthen := (denotes_of_addModel hbefore hadd).after (hbefore.call _) rest
    rw [← after_append_cons, ← hcalls] at hthen
    exact hthen.of_bare hb
  · rintro before rest id m hcalls hdenotes
    have hthen := hdenotes.after (valid_empty.after before) rest
    rw [← after_append, ← hcalls] at hthen
    exact hthen.of_bare hb
  · intro name m
    rw [← model?_of_bare hb, hr.bare_model?_eq_some]
    simp only [r, mem_models_after]
  · intro name e
    rw [hfinal.enumeration?_eq_some, ← enums_of_bare hb, mem_enums_after]
  · intro name s
    rw [hfinal.service?_eq_some, ← services_of_bare hb, mem_services_after]

/-- A file stops at its second message, whose name a model has taken; the first one stays and the
third one never comes. The model that was there first keeps its place. -/
theorem after_exact_stopped :
    let ask : Model := { name := "a.Ask" }
    let part : Model := { name := "a.Part", package := "a" }
    let late : Model := { name := "a.Late" }
    let desk : Service :=
      { name := "Desk", package := "a", methods := [.unary "Put" "a.Ask" "a.Part"] }
    let file : File :=
      { package? := some "a"
        messages := [{ name? := some "Part" }, { name? := some "Ask" }, { name? := some "Rest" }] }
    let r := empty.after [.add (.model ask), .file file, .add (.service desk)]
    let final := applyCapabilities^[2] r
    final.Denotes 0 ask ∧ final.Denotes 1 part ∧ final.modelIndex.get? "a.Rest" = none ∧
      r.Appended (.model late) (r.pushModel late) ∧ r.modelCount = 2 ∧
      (r.call (.add (.model ask))).registry = r := by
  intro ask part late desk file r final
  obtain ⟨-, -, -, hadd, hanswer, -, hreturned, hkept, -, -, -⟩ :=
    after_exact [.add (.model ask), .file file, .add (.service desk)] 2
  refine ⟨?_, ?_, by decide +kernel, ?_, ?_, ?_⟩
  · exact hreturned [] _ ask 0 (empty.pushModel ask) rfl rfl
  · refine hkept [.add (.model ask), .file file] _ 1 part rfl ⟨?_, ?_⟩ <;> decide +kernel
  · exact (hadd (.model late)).2.1 (r.pushModel late) (by decide +kernel)
  · exact (hanswer late 2 (r.pushModel late) (by decide +kernel)).symm
  · exact (hadd (.model ask)).2.2 (.duplicateModel "a.Ask") (by decide +kernel)

end Registry

end SwiftRpc.Api
