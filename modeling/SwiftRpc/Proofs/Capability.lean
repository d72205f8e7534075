import Mathlib.Data.List.Basic
import Mathlib.Logic.Relation
import SwiftRpc.Api.Capability
import SwiftRpc.Proofs.Registry

/-!
# Capabilities are reachability

After capabilities were applied, a model has one exactly if it can be reached from a model that had
it before or that a method names, along message fields (`Needs`). The rounds of `spreadFrom` carry
two facts: what has the capability can be reached, and what has it and is not in the frontier has
passed it on already. With an empty frontier the second one says that the models with the
capability are closed under references.

All that capabilities change is capabilities: a registry is the same before and after once they are
wiped out (`bare`).
-/

namespace SwiftRpc.Api

/-! ## Models and registries without their capabilities -/

namespace Model

def bare (m : Model) : Model := { m with encodable := false, decodable := false }

@[simp] theorem bare_grant (m : Model) (c : Capability) : (m.grant c).bare = m.bare := by
  cases c <;> rfl

theorem can_grant (m : Model) (c d : Capability) :
    (m.grant c).can d = (m.can d || decide (d = c)) := by
  cases c <;> cases d <;> simp [grant, can]

theorem ext_of_bare {m m' : Model} (hb : m.bare = m'.bare) (hc : ∀ c, m.can c = m'.can c) :
    m = m' := by
  have he := hc .encode
  have hd := hc .decode
  cases m
  cases m'
  simp only [bare, can, mk.injEq] at *
  exact ⟨hb.1, hb.2.1, he, hd, hb.2.2.2.2.1, hb.2.2.2.2.2⟩

theorem name_of_bare {m m' : Model} (h : m.bare = m'.bare) : m.name = m'.name := by
  show m.bare.name = m'.bare.name
  rw [h]

theorem fields_of_bare {m m' : Model} (h : m.bare = m'.bare) : m.fields = m'.fields := by
  show m.bare.fields = m'.bare.fields
  rw [h]

theorem isMapEntry_of_bare {m m' : Model} (h : m.bare = m'.bare) :
    m.isMapEntry = m'.isMapEntry := by
  show m.bare.isMapEntry = m'.bare.isMapEntry
  rw [h]

end Model

namespace Registry

def bare (r : Registry) : Registry := { r with models := r.models.map Model.bare }

section Bare

variable {r r' : Registry}

theorem models_of_bare (h : r.bare = r'.bare) :
    r.models.map Model.bare = r'.models.map Model.bare := by
  show r.bare.models = r'.bare.models
  rw [h]

theorem modelNames_bare (r : Registry) : r.bare.modelNames = r.modelNames := by
  rw [modelNames, bare, List.map_map]
  rfl

theorem modelNames_of_bare (h : r.bare = r'.bare) : r.modelNames = r'.modelNames := by
  rw [← modelNames_bare r, h, modelNames_bare]

theorem modelCount_of_bare (h : r.bare = r'.bare) : r.modelCount = r'.modelCount := by
  have hn := congrArg List.length (modelNames_of_bare h)
  rwa [modelNames, modelNames, List.length_map, List.length_map] at hn

theorem services_of_bare (h : r.bare = r'.bare) : r.services = r'.services := by
  show r.bare.services = r'.bare.services
  rw [h]

theorem enums_of_bare (h : r.bare = r'.bare) : r.enums = r'.enums := by
  show r.bare.enums = r'.bare.enums
  rw [h]

theorem modelIndex_of_bare (h : r.bare = r'.bare) : r.modelIndex = r'.modelIndex := by
  show r.bare.modelIndex = r'.bare.modelIndex
  rw [h]

theorem enumIndex_of_bare (h : r.bare = r'.bare) : r.enumIndex = r'.enumIndex := by
  show r.bare.enumIndex = r'.bare.enumIndex
  rw [h]

theorem Valid.of_bare (hr : r.Valid) (h : r.bare = r'.bare) : r'.Valid where
  models := by
    have hm := hr.models
    rwa [modelNames_of_bare h, modelIndex_of_bare h] at hm
  enums := by
    have he := hr.enums
    rwa [enumNames, enums_of_bare h, enumIndex_of_bare h] at he
  services := by
    have hs := hr.services
    rwa [serviceNames, services_of_bare h] at hs

theorem getElem?_bare (h : r.bare = r'.bare) (id : Nat) :
    (r.models[id]?).map Model.bare = (r'.models[id]?).map Model.bare := by
  rw [← List.getElem?_map, ← List.getElem?_map, models_of_bare h]

theorem referenced_of_bare (h : r.bare = r'.bare) : r.referenced = r'.referenced := by
  funext id
  have hm := getElem?_bare h id
  have hi : r.modelId? = r'.modelId? := by
    funext name
    rw [modelId?, modelId?, modelIndex_of_bare h]
  unfold referenced
  cases h₁ : r.models[id]? with
  | none =>
    rw [h₁] at hm
    rw [Option.map_eq_none_iff.1 hm.symm]
  | some m =>
    rw [h₁] at hm
    obtain ⟨m', h₂, hb⟩ := Option.map_eq_some_iff.1 hm.symm
    simp only [h₂, hi, Model.messageFields, Model.fields_of_bare hb]

end Bare

/-! ## Who has a capability -/

theorem has_iff {r : Registry} {c : Capability} {id : Nat} :
    r.has c id = true ↔ ∃ m, r.models[id]? = some m ∧ m.can c = true := by
  rw [has, Option.any_eq_true]

theorem lacks_iff {r : Registry} {c : Capability} {id : Nat} :
    r.lacks c id = true ↔ id < r.modelCount ∧ ¬ r.has c id = true := by
  unfold lacks has modelCount
  cases hm : r.models[id]? with
  | none => simpa using List.getElem?_eq_none_iff.1 hm
  | some m =>
    have hlt := (List.getElem?_eq_some_iff.1 hm).1
    simp [hlt]

theorem ext_of_bare {r r' : Registry} (hb : r.bare = r'.bare)
    (hh : ∀ c id, r.has c id = true ↔ r'.has c id = true) : r = r' := by
  have hm : r.models = r'.models := by
    apply List.ext_getElem?
    intro id
    have hi := getElem?_bare hb id
    cases h₁ : r.models[id]? with
    | none =>
      rw [h₁] at hi
      rw [Option.map_eq_none_iff.1 hi.symm]
    | some m =>
      rw [h₁] at hi
      obtain ⟨m', h₂, hm'⟩ := Option.map_eq_some_iff.1 hi.symm
      have hc : ∀ c, m'.can c = m.can c := by
        intro c
        have := hh c id
        rw [has, has, h₁, h₂] at this
        exact Bool.eq_iff_iff.2 (by simpa using this.symm)
      rw [h₂, Model.ext_of_bare hm' hc]
  cases r
  cases r'
  simp only [bare, mk.injEq] at hb hm ⊢
  exact ⟨hm, hb.2⟩

theorem bare_grantAt (r : Registry) (c : Capability) (id : Nat) :
    (r.grantAt c id).bare = r.bare := by
  have hm : (r.models.modify id (·.grant c)).map Model.bare = r.models.map Model.bare := by
    apply List.ext_getElem?
    intro j
    rw [List.getElem?_map, List.getElem?_map, List.getElem?_modify]
    by_cases hj : id = j
    · cases r.models[j]? <;> simp [hj]
    · simp [hj]
  simp only [bare, grantAt, hm]

theorem has_grantAt {r : Registry} {c d : Capability} {id j : Nat} :
    (r.grantAt c id).has d j = true ↔
      r.has d j = true ∨ (d = c ∧ j = id ∧ j < r.modelCount) := by
  unfold has grantAt modelCount
  rw [List.getElem?_modify]
  cases hm : r.models[j]? with
  | none =>
    have hge := List.getElem?_eq_none_iff.1 hm
    simp [hge]
  | some m =>
    have hlt := (List.getElem?_eq_some_iff.1 hm).1
    by_cases hj : id = j
    · simp [hj, hlt, Model.can_grant]
    · simp [hj, Ne.symm hj]

theorem mem_holders {r : Registry} {c : Capability} {id : Nat} :
    id ∈ r.holders c ↔ r.has c id = true := by
  rw [holders, List.mem_filter, List.mem_range]
  constructor
  · exact And.right
  · intro h
    obtain ⟨m, hm, -⟩ := has_iff.1 h
    exact ⟨(List.getElem?_eq_some_iff.1 hm).1, h⟩

end Registry

/-! ## One round -/

/-- From `s` to `t` the capability went to the models of `l`; `t` knows which of them are new. -/
structure Round.Passed (c : Capability) (s t : Round) (l : List Nat) : Prop where
  bare : t.registry.bare = s.registry.bare
  has : ∀ d j, t.registry.has d j = true ↔
    s.registry.has d j = true ∨ (d = c ∧ j ∈ l ∧ j < s.registry.modelCount)
  gained : ∀ j, j ∈ t.gained ↔ j ∈ s.gained ∨ (j ∈ l ∧ s.registry.lacks c j = true)

namespace Round

variable {c : Capability}

theorem Passed.nil (s : Round) : Passed c s s [] := ⟨rfl, by simp, by simp⟩

theorem Passed.trans {s t u : Round} {l l' : List Nat} (h : Passed c s t l)
    (h' : Passed c t u l') : Passed c s u (l ++ l') := by
  have hcount := Registry.modelCount_of_bare h.bare
  refine ⟨h'.bare.trans h.bare, ?_, ?_⟩
  · intro d j
    rw [h'.has, h.has, hcount, List.mem_append]
    tauto
  · intro j
    have hlacks : t.registry.lacks c j = true ↔ s.registry.lacks c j = true ∧ j ∉ l := by
      rw [Registry.lacks_iff, Registry.lacks_iff, h.has, hcount]
      tauto
    rw [h'.gained, h.gained, hlacks, List.mem_append]
    tauto

theorem passed_pass (s : Round) (id : Nat) : Passed c s (s.pass c id) [id] := by
  by_cases hl : s.registry.lacks c id = true
  · rw [pass, if_pos hl]
    refine ⟨Registry.bare_grantAt _ _ _, ?_, ?_⟩
    · intro d j
      rw [Registry.has_grantAt, List.mem_singleton]
    · intro j
      simp only [List.mem_append, List.mem_singleton]
      constructor
      · rintro (hj | rfl)
        · exact Or.inl hj
        · exact Or.inr ⟨rfl, hl⟩
      · rintro (hj | ⟨rfl, -⟩)
        · exact Or.inl hj
        · exact Or.inr rfl
  · rw [pass, if_neg hl]
    refine ⟨rfl, ?_, ?_⟩
    · intro d j
      rw [List.mem_singleton]
      constructor
      · exact Or.inl
      · rintro (hj | ⟨rfl, rfl, hj⟩)
        · exact hj
        · by_contra hh
          exact hl (Registry.lacks_iff.2 ⟨hj, hh⟩)
    · intro j
      rw [List.mem_singleton]
      constructor
      · exact Or.inl
      · rintro (hj | ⟨rfl, hj⟩)
        · exact hj
        · exact absurd hj hl

theorem passed_foldl_pass (l : List Nat) (s : Round) : Passed c s (l.foldl (pass c) s) l := by
  induction l generalizing s with
  | nil => exact Passed.nil s
  | cons id rest ih => exact (passed_pass s id).trans (ih (s.pass c id))

theorem passed_foldl_visit (frontier : List Nat) (s : Round) :
    Passed c s (frontier.foldl (visit c) s) (frontier.flatMap s.registry.referenced) := by
  induction frontier generalizing s with
  | nil => exact Passed.nil s
  | cons id rest ih =>
    have hv : Passed c s (s.visit c id) (s.registry.referenced id) := passed_foldl_pass _ s
    -- the references do not change on the way
    have hr : s.registry.referenced = (s.visit c id).registry.referenced :=
      (Registry.referenced_of_bare hv.bare).symm
    rw [List.flatMap_cons, hr]
    exact (hr ▸ hv).trans (ih (s.visit c id))

end Round

namespace Registry

variable {r : Registry} {c : Capability}

theorem passed_round (r : Registry) (c : Capability) (frontier : List Nat) :
    Round.Passed c ⟨r, []⟩ (r.round c frontier) (frontier.flatMap r.referenced) :=
  Round.passed_foldl_visit frontier ⟨r, []⟩

theorem bare_spreadFrom (c : Capability) (r : Registry) (frontier : List Nat) :
    (spreadFrom c r frontier).bare = r.bare := by
  fun_induction spreadFrom c r frontier with
  | case1 => rfl
  | case2 r frontier _ ih => rw [ih, (passed_round r c frontier).bare]

theorem has_spreadFrom_of_ne {d : Capability} (hd : d ≠ c) (r : Registry) (frontier : List Nat)
    (id : Nat) : (spreadFrom c r frontier).has d id = true ↔ r.has d id = true := by
  fun_induction spreadFrom c r frontier with
  | case1 => rfl
  | case2 r frontier _ ih =>
    rw [ih, (passed_round r c frontier).has]
    simp [hd]

/-! ## All rounds -/

theorem Valid.lt_of_mem_referenced (hr : r.Valid) {i j : Nat} (h : j ∈ r.referenced i) :
    j < r.modelCount := by
  unfold referenced at h
  split at h
  · obtain ⟨f, -, hf⟩ := List.mem_filterMap.1 h
    obtain ⟨m, hm, -⟩ := hr.modelId?_eq_some.1 hf
    exact (List.getElem?_eq_some_iff.1 hm).1
  · simp at h

/-- The models that can be reached from the ones with the capability. -/
def Reached (r : Registry) (c : Capability) (j : Nat) : Prop :=
  ∃ i, r.has c i = true ∧ Relation.ReflTransGen (fun a b => b ∈ r.referenced a) i j

/-- The models that have the capability and are not in the frontier have passed it on. -/
def Settled (r : Registry) (c : Capability) (frontier : List Nat) : Prop :=
  ∀ i, r.has c i = true → i ∉ frontier → ∀ j ∈ r.referenced i, r.has c j = true

theorem reached_of_settled (h : r.Settled c []) {j : Nat} :
    r.Reached c j ↔ r.has c j = true := by
  constructor
  · rintro ⟨i, hi, hij⟩
    induction hij with
    | refl => exact hi
    | tail _ hstep ih => exact h _ ih List.not_mem_nil _ hstep
  · intro hj
    exact ⟨j, hj, Relation.ReflTransGen.refl⟩

theorem has_round (hr : r.Valid) {frontier : List Nat} {j : Nat} :
    (r.round c frontier).registry.has c j = true ↔
      r.has c j = true ∨ ∃ i ∈ frontier, j ∈ r.referenced i := by
  rw [(passed_round r c frontier).has, List.mem_flatMap]
  constructor
  · rintro (hj | ⟨-, hj, -⟩)
    · exact Or.inl hj
    · exact Or.inr hj
  · rintro (hj | ⟨i, hi, hj⟩)
    · exact Or.inl hj
    · exact Or.inr ⟨rfl, ⟨i, hi, hj⟩, hr.lt_of_mem_referenced hj⟩

/-- A round that starts from settled models ends with settled models. -/
theorem Settled.round (hr : r.Valid) {frontier : List Nat} (h : r.Settled c frontier) :
    (r.round c frontier).registry.Settled c (r.round c frontier).gained := by
  have hp := passed_round r c frontier
  intro i hi hg j hj
  rw [referenced_of_bare hp.bare] at hj
  -- a model that got the capability in this round is in the next frontier
  have hold : r.has c i = true := by
    by_contra hno
    rcases (has_round hr).1 hi with hi | ⟨k, hk, hik⟩
    · exact hno hi
    · refine hg ((hp.gained i).2 (Or.inr ⟨List.mem_flatMap.2 ⟨k, hk, hik⟩, ?_⟩))
      exact lacks_iff.2 ⟨hr.lt_of_mem_referenced hik, hno⟩
  by_cases hf : i ∈ frontier
  · exact (has_round hr).2 (Or.inr ⟨i, hf, hj⟩)
  · exact (has_round hr).2 (Or.inl (h i hold hf j hj))

theorem reached_round (hr : r.Valid) {frontier : List Nat}
    (hf : ∀ i ∈ frontier, r.has c i = true) {j : Nat} :
    (r.round c frontier).registry.Reached c j ↔ r.Reached c j := by
  unfold Reached
  rw [referenced_of_bare (passed_round r c frontier).bare]
  constructor
  · rintro ⟨i, hi, hij⟩
    rcases (has_round hr).1 hi with hi | ⟨k, hk, hki⟩
    · exact ⟨i, hi, hij⟩
    · -- the round took the first step of a longer path
      exact ⟨k, hf k hk, Relation.ReflTransGen.head hki hij⟩
  · rintro ⟨i, hi, hij⟩
    exact ⟨i, (has_round hr).2 (Or.inl hi), hij⟩

theorem has_spreadFrom (hr : r.Valid) {frontier : List Nat}
    (hf : ∀ i ∈ frontier, r.has c i = true) (h : r.Settled c frontier) {j : Nat} :
    (spreadFrom c r frontier).has c j = true ↔ r.Reached c j := by
  fun_induction spreadFrom c r frontier with
  | case1 r => exact (reached_of_settled h).symm
  | case2 r frontier hne ih =>
    have hp := passed_round r c frontier
    have hg : ∀ i ∈ (r.round c frontier).gained, (r.round c frontier).registry.has c i = true := by
      intro i hi
      rcases (hp.gained i).1 hi with hi | ⟨hi, -⟩
      · simp at hi
      · exact (has_round hr).2 (Or.inr (List.mem_flatMap.1 hi))
    rw [ih (hr.of_bare hp.bare.symm) hg (h.round hr), reached_round hr hf]

theorem has_spread (hr : r.Valid) {j : Nat} : (r.spread c).has c j = true ↔ r.Reached c j := by
  refine has_spreadFrom hr (fun i hi => mem_holders.1 hi) ?_
  intro i hi hn
  exact absurd (mem_holders.2 hi) hn

/-! ## Seeds, and both capabilities -/

theorem mem_seeds {j : Nat} :
    (j, c) ∈ r.seeds ↔ ∃ s ∈ r.services, ∃ k ∈ s.methods, r.modelId? (k.endType c) = some j := by
  have hall : c ∈ Capability.all := by cases c <;> decide
  unfold seeds
  simp only [List.mem_flatMap, List.mem_filterMap, Option.map_eq_some_iff, Prod.mk.injEq]
  constructor
  · rintro ⟨s, hs, k, hk, d, -, i, hi, rfl, rfl⟩
    exact ⟨s, hs, k, hk, hi⟩
  · rintro ⟨s, hs, k, hk, hj⟩
    exact ⟨s, hs, k, hk, c, hall, j, hj, rfl, rfl⟩

theorem foldl_grantAt (seeds : List (Nat × Capability)) (r : Registry) :
    (seeds.foldl (fun r s => r.grantAt s.2 s.1) r).bare = r.bare ∧
      ∀ c j, (seeds.foldl (fun r s => r.grantAt s.2 s.1) r).has c j = true ↔
        r.has c j = true ∨ ((j, c) ∈ seeds ∧ j < r.modelCount) := by
  induction seeds generalizing r with
  | nil => simp
  | cons s rest ih =>
    obtain ⟨id, d⟩ := s
    obtain ⟨hb, hh⟩ := ih (r.grantAt d id)
    have hcount := modelCount_of_bare (bare_grantAt r d id)
    refine ⟨hb.trans (bare_grantAt r d id), ?_⟩
    intro c j
    rw [List.foldl_cons, hh, has_grantAt, hcount, List.mem_cons, Prod.mk.injEq]
    tauto

theorem bare_seed (r : Registry) : r.seed.bare = r.bare := (foldl_grantAt r.seeds r).1

theorem has_seed (hr : r.Valid) {j : Nat} :
    r.seed.has c j = true ↔ r.has c j = true ∨
      ∃ s ∈ r.services, ∃ k ∈ s.methods, r.modelId? (k.endType c) = some j := by
  rw [seed, (foldl_grantAt r.seeds r).2, mem_seeds]
  constructor
  · rintro (hj | ⟨hj, -⟩)
    · exact Or.inl hj
    · exact Or.inr hj
  · rintro (hj | ⟨s, hs, k, hk, hj⟩)
    · exact Or.inl hj
    · obtain ⟨m, hm, -⟩ := hr.modelId?_eq_some.1 hj
      exact Or.inr ⟨⟨s, hs, k, hk, hj⟩, (List.getElem?_eq_some_iff.1 hm).1⟩

theorem reached_congr {r' : Registry} (hb : r.bare = r'.bare)
    (hh : ∀ i, r.has c i = true ↔ r'.has c i = true) {j : Nat} :
    r.Reached c j ↔ r'.Reached c j := by
  unfold Reached
  rw [referenced_of_bare hb]
  exact exists_congr fun i => and_congr_left fun _ => hh i

theorem bare_applyCapabilities (r : Registry) : r.applyCapabilities.bare = r.bare := by
  show ((r.seed.spread .encode).spread .decode).bare = r.bare
  rw [spread, bare_spreadFrom, spread, bare_spreadFrom, bare_seed]

theorem has_applyCapabilities (hr : r.Valid) {j : Nat} :
    r.applyCapabilities.has c j = true ↔ r.seed.Reached c j := by
  have hs : r.seed.Valid := hr.of_bare (bare_seed r).symm
  have hb : (r.seed.spread .encode).bare = r.seed.bare := bare_spreadFrom _ _ _
  show ((r.seed.spread .encode).spread .decode).has c j = true ↔ _
  cases c with
  | encode =>
    rw [spread, has_spreadFrom_of_ne (by decide)]
    exact has_spread hs
  | decode =>
    rw [has_spread (hs.of_bare hb.symm)]
    -- the first pass left the second capability alone
    exact reached_congr hb fun i => has_spreadFrom_of_ne (by decide) _ _ i

/-! ## Reachability by name -/

/-- A message field of the model `a` names the registered model `b`. -/
def Refers (r : Registry) (a b : String) : Prop :=
  b ∈ r.modelNames ∧
    ∃ m ∈ r.models, m.name = a ∧ ∃ f ∈ m.fields, f.isMessage = true ∧ f.typeName = b

/-- The registered model `a` has the capability, or a method asks for it. -/
def Asked (r : Registry) (c : Capability) (a : String) : Prop :=
  a ∈ r.modelNames ∧
    ((∃ m ∈ r.models, m.name = a ∧ m.can c = true) ∨
      ∃ s ∈ r.services, ∃ k ∈ s.methods, k.endType c = a)

def Needs (r : Registry) (c : Capability) (b : String) : Prop :=
  ∃ a, r.Asked c a ∧ Relation.ReflTransGen r.Refers a b

theorem mem_referenced {i j : Nat} {m : Model} (hi : r.models[i]? = some m) :
    j ∈ r.referenced i ↔
      ∃ f ∈ m.fields, f.isMessage = true ∧ r.modelId? f.typeName = some j := by
  simp only [referenced, hi, Model.messageFields, List.mem_filterMap, List.mem_filter, and_assoc]

theorem Valid.refers_of_referenced (hr : r.Valid) {i j : Nat} {m : Model}
    (hi : r.models[i]? = some m) (h : j ∈ r.referenced i) :
    ∃ m', r.models[j]? = some m' ∧ r.Refers m.name m'.name := by
  obtain ⟨f, hf, hmsg, hj⟩ := (mem_referenced hi).1 h
  obtain ⟨m', hm', hn⟩ := hr.modelId?_eq_some.1 hj
  exact ⟨m', hm', List.mem_map_of_mem (List.mem_of_getElem? hm'),
    m, List.mem_of_getElem? hi, rfl, f, hf, hmsg, hn.symm⟩

theorem Valid.referenced_of_refers (hr : r.Valid) {i : Nat} {m : Model} {b : String}
    (hi : r.models[i]? = some m) (h : r.Refers m.name b) :
    ∃ j ∈ r.referenced i, ∃ m', r.models[j]? = some m' ∧ m'.name = b := by
  obtain ⟨hb, m₀, hm₀, hn, f, hf, hmsg, hty⟩ := h
  have hm : m₀ = m :=
    List.inj_on_of_nodup_map hr.models.nodup hm₀ (List.mem_of_getElem? hi) hn
  subst hm
  obtain ⟨j, hj⟩ := Option.isSome_iff_exists.1 ((hr.modelId?_isSome b).2 hb)
  exact ⟨j, (mem_referenced hi).2 ⟨f, hf, hmsg, hty ▸ hj⟩, hr.modelId?_eq_some.1 hj⟩

theorem Valid.path_of_referenced (hr : r.Valid) {i j : Nat}
    (h : Relation.ReflTransGen (fun a b => b ∈ r.referenced a) i j) {m : Model}
    (hi : r.models[i]? = some m) :
    ∃ m', r.models[j]? = some m' ∧ Relation.ReflTransGen r.Refers m.name m'.name := by
  induction h with
  | refl => exact ⟨m, hi, Relation.ReflTransGen.refl⟩
  | tail _ hstep ih =>
    obtain ⟨mid, hmid, hpath⟩ := ih
    obtain ⟨m', hm', hrefers⟩ := hr.refers_of_referenced hmid hstep
    exact ⟨m', hm', hpath.tail hrefers⟩

theorem Valid.path_of_refers (hr : r.Valid) {a b : String}
    (h : Relation.ReflTransGen r.Refers a b) {i : Nat} {m : Model}
    (hi : r.models[i]? = some m) (hn : m.name = a) :
    ∃ j m', r.models[j]? = some m' ∧ m'.name = b ∧
      Relation.ReflTransGen (fun a b => b ∈ r.referenced a) i j := by
  induction h with
  | refl => exact ⟨i, m, hi, hn, Relation.ReflTransGen.refl⟩
  | tail _ hstep ih =>
    obtain ⟨k, mid, hk, rfl, hpath⟩ := ih
    obtain ⟨j, hj, m', hm', hb⟩ := hr.referenced_of_refers hk hstep
    exact ⟨j, m', hm', hb, hpath.tail hj⟩

theorem Valid.asked_iff (hr : r.Valid) {i : Nat} {m : Model} (hi : r.models[i]? = some m) :
    r.Asked c m.name ↔ r.seed.has c i = true := by
  have hmem := List.mem_of_getElem? hi
  have hid : r.modelId? m.name = some i := hr.modelId?_eq_some.2 ⟨m, hi, rfl⟩
  rw [has_seed hr, has_iff]
  constructor
  · rintro ⟨-, ⟨m₀, hm₀, hn, hcan⟩ | ⟨s, hs, k, hk, hend⟩⟩
    · have hm : m₀ = m := List.inj_on_of_nodup_map hr.models.nodup hm₀ hmem hn
      exact Or.inl ⟨m, hi, hm ▸ hcan⟩
    · exact Or.inr ⟨s, hs, k, hk, hend ▸ hid⟩
  · rintro (⟨m₀, hm₀, hcan⟩ | ⟨s, hs, k, hk, hend⟩)
    · rw [hi] at hm₀
      cases hm₀
      exact ⟨List.mem_map_of_mem hmem, Or.inl ⟨m, hmem, rfl, hcan⟩⟩
    · obtain ⟨m₀, hm₀, hn⟩ := hr.modelId?_eq_some.1 hend
      rw [hi] at hm₀
      cases hm₀
      exact ⟨List.mem_map_of_mem hmem, Or.inr ⟨s, hs, k, hk, hn.symm⟩⟩

theorem Valid.reached_iff_needs (hr : r.Valid) {j : Nat} {m : Model}
    (hj : r.models[j]? = some m) : r.seed.Reached c j ↔ r.Needs c m.name := by
  unfold Reached Needs
  rw [referenced_of_bare (bare_seed r)]
  constructor
  · rintro ⟨i, hi, hij⟩
    obtain ⟨mi, hmi⟩ : ∃ mi, r.models[i]? = some mi := by
      obtain ⟨mi, hmi, -⟩ := has_iff.1 hi
      have hb := getElem?_bare (bare_seed r) i
      rw [hmi] at hb
      obtain ⟨m', hm', -⟩ := Option.map_eq_some_iff.1 hb.symm
      exact ⟨m', hm'⟩
    obtain ⟨m', hm', hpath⟩ := hr.path_of_referenced hij hmi
    rw [hj] at hm'
    cases hm'
    exact ⟨mi.name, (hr.asked_iff hmi).2 hi, hpath⟩
  · rintro ⟨a, ha, hpath⟩
    obtain ⟨mi, hmem, rfl⟩ := List.mem_map.1 ha.1
    obtain ⟨i, hi⟩ := List.mem_iff_getElem?.1 hmem
    obtain ⟨k, m', hk, hn, hik⟩ := hr.path_of_refers hpath hi rfl
    have hkj : k = j := by
      have h₁ := hr.modelId?_eq_some.2 ⟨m', hk, hn⟩
      rw [hr.modelId?_eq_some.2 ⟨m, hj, rfl⟩] at h₁
      exact (Option.some.inj h₁).symm
    exact ⟨i, (hr.asked_iff hi).1 ha, hkj ▸ hik⟩

theorem exists_of_bare {r' : Registry} (hb : r.bare = r'.bare) {j : Nat} {m : Model}
    (hj : r.models[j]? = some m) : ∃ m', r'.models[j]? = some m' ∧ m'.bare = m.bare := by
  have hi := getElem?_bare hb j
  rw [hj] at hi
  exact Option.map_eq_some_iff.1 hi.symm

/-! ## The result -/

theorem Valid.applyCapabilities (hr : r.Valid) : r.applyCapabilities.Valid :=
  hr.of_bare (bare_applyCapabilities r).symm

theorem Valid.can_iff_needs (hr : r.Valid) {m : Model} (hm : m ∈ r.applyCapabilities.models) :
    m.can c = true ↔ r.Needs c m.name := by
  obtain ⟨j, hj⟩ := List.mem_iff_getElem?.1 hm
  obtain ⟨m₀, hj₀, hb⟩ := exists_of_bare (bare_applyCapabilities r) hj
  rw [← Model.name_of_bare hb, ← hr.reached_iff_needs hj₀, ← has_applyCapabilities hr, has_iff]
  constructor
  · intro hcan
    exact ⟨m, hj, hcan⟩
  · rintro ⟨m', hm', hcan⟩
    rw [hj] at hm'
    cases hm'
    exact hcan

/-- What a method takes can be encoded, and what it gives can be decoded. -/
theorem Valid.can_of_endType (hr : r.Valid) {m : Model} (hm : m ∈ r.applyCapabilities.models)
    {s : Service} (hs : s ∈ r.services) {k : Method} (hk : k ∈ s.methods)
    (hend : k.endType c = m.name) : m.can c = true := by
  have hname : m.name ∈ r.modelNames := by
    rw [← modelNames_of_bare (bare_applyCapabilities r)]
    exact List.mem_map_of_mem hm
  refine (hr.can_iff_needs hm).2 ⟨m.name, ⟨hname, Or.inr ⟨s, hs, k, hk, hend⟩⟩, ?_⟩
  exact Relation.ReflTransGen.refl

/-- A model passes its capabilities on to the models that its message fields name. -/
theorem Valid.can_of_field (hr : r.Valid) {m m' : Model} (hm : m ∈ r.applyCapabilities.models)
    (hm' : m' ∈ r.applyCapabilities.models) {f : Field} (hf : f ∈ m.fields)
    (hmsg : f.isMessage = true) (hty : f.typeName = m'.name) (hcan : m.can c = true) :
    m'.can c = true := by
  obtain ⟨a, ha, hpath⟩ := (hr.can_iff_needs hm).1 hcan
  refine (hr.can_iff_needs hm').2 ⟨a, ha, hpath.tail ⟨?_, ?_⟩⟩
  · rw [← modelNames_of_bare (bare_applyCapabilities r)]
    exact List.mem_map_of_mem hm'
  · obtain ⟨j, hj⟩ := List.mem_iff_getElem?.1 hm
    obtain ⟨m₀, hj₀, hb⟩ := exists_of_bare (bare_applyCapabilities r) hj
    rw [← Model.name_of_bare hb]
    rw [← Model.fields_of_bare hb] at hf
    exact ⟨m₀, List.mem_of_getElem? hj₀, rfl, f, hf, hmsg, hty⟩

end Registry

end SwiftRpc.Api
