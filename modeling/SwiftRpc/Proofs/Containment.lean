import Mathlib.Data.List.Basic
import Mathlib.Logic.Relation
import SwiftRpc.Api.Containment
import SwiftRpc.Proofs.Capability

/-!
# The search for models that contain themselves is exact

`stores` finds a chain of inline fields to the model asked for if and only if there is one. That a
hit is a chain follows the search step by step. That a miss is final rests on what the search knows
of a model it has entered (`Explored`): it waits on the stack, or it does not store the model asked
for and all that it stores has been entered too. With an empty stack only the second can be, so no
chain leads out of what was entered.
-/

namespace SwiftRpc.Api.Registry

/-- The registered model `a` stores the registered model `b` inline. -/
def Inlines (r : Registry) (a b : String) : Prop :=
  b ∈ r.modelNames ∧ ∃ m ∈ r.models, m.name = a ∧ b ∈ m.inlineTypes

/-- Capabilities make no difference to what is stored. -/
theorem inlines_of_bare {r r' : Registry} (h : r.bare = r'.bare) {a b : String} :
    r.Inlines a b ↔ r'.Inlines a b := by
  have hmodels (r : Registry) : (∃ m ∈ r.models, m.name = a ∧ b ∈ m.inlineTypes) ↔
      ∃ m ∈ r.models.map Model.bare, m.name = a ∧ b ∈ m.inlineTypes := by
    simp only [List.mem_map, exists_exists_and_eq_and]
    rfl
  rw [Inlines, Inlines, modelNames_of_bare h, hmodels r, hmodels r', models_of_bare h]

/-- A chain of inline fields leads from `m` to `goal`, through registered models. -/
inductive Leads (r : Registry) (goal : String) : Model → Prop where
  | here {m : Model} : goal ∈ m.inlineTypes → Leads r goal m
  | through {m m' : Model} :
      m' ∈ r.models → m'.name ∈ m.inlineTypes → Leads r goal m' → Leads r goal m

variable {r : Registry} {goal : String}

theorem mem_stacked {ids : List Nat} {m : Model} :
    m ∈ r.stacked ids ↔ ∃ id ∈ ids, r.models[id]? = some m := by
  rw [stacked, List.mem_reverse, List.mem_filterMap]

theorem mem_entered {seen : List Nat} {m : Model} {id : Nat} :
    id ∈ r.entered seen m ↔ (∃ n ∈ m.inlineTypes, r.modelId? n = some id) ∧ id ∉ seen := by
  rw [entered, Reach.mem_fresh, List.mem_filterMap]

theorem leads_of_stores (hr : r.Valid) {seen : List Nat} {stack : List Model}
    (h : r.stores goal seen stack = true) : ∃ m ∈ stack, r.Leads goal m := by
  fun_induction stores r goal seen stack with
  | case1 => simp at h
  | case2 seen m stack hm => exact ⟨m, List.mem_cons_self, .here hm⟩
  | case3 seen m stack hm ih =>
    obtain ⟨x, hx, hlead⟩ := ih h
    rcases List.mem_append.1 hx with hx | hx
    · -- the hit is below `m`: one more step leads to it from `m`
      obtain ⟨id, hid, hidx⟩ := mem_stacked.1 hx
      obtain ⟨⟨n, hn, hnid⟩, -⟩ := mem_entered.1 hid
      obtain ⟨x', hx', hname⟩ := hr.modelId?_eq_some.1 hnid
      rw [hidx] at hx'
      cases hx'
      exact ⟨m, List.mem_cons_self, .through (List.mem_of_getElem? hidx) (hname ▸ hn) hlead⟩
    · exact ⟨x, List.mem_cons_of_mem m hx, hlead⟩

/-- Every model that was entered waits on the stack or is done with. -/
def Explored (r : Registry) (goal : String) (seen : List Nat) (stack : List Model) : Prop :=
  ∀ id ∈ seen, ∀ m, r.models[id]? = some m →
    m ∈ stack ∨ (goal ∉ m.inlineTypes ∧
      ∀ n ∈ m.inlineTypes, ∀ id', r.modelId? n = some id' → id' ∈ seen)

theorem mem_seen_of_inline {seen : List Nat} {m : Model} {n : String} {id : Nat}
    (hn : n ∈ m.inlineTypes) (hid : r.modelId? n = some id) :
    id ∈ seen ++ r.entered seen m := by
  by_cases hs : id ∈ seen
  · exact List.mem_append_left _ hs
  · exact List.mem_append_right _ (mem_entered.2 ⟨⟨n, hn, hid⟩, hs⟩)

theorem Explored.step {seen : List Nat} {m : Model} {stack : List Model}
    (h : r.Explored goal seen (m :: stack)) (hm : goal ∉ m.inlineTypes) :
    r.Explored goal (seen ++ r.entered seen m) (r.stacked (r.entered seen m) ++ stack) := by
  intro id hid x hx
  rcases List.mem_append.1 hid with hid | hid
  · rcases h id hid x hx with hstack | ⟨hgoal, hdone⟩
    · -- taking `m` off the stack, all that it stores is entered
      rcases List.mem_cons.1 hstack with rfl | hstack
      · exact Or.inr ⟨hm, fun n hn id' hid' => mem_seen_of_inline hn hid'⟩
      · exact Or.inl (List.mem_append_right _ hstack)
    · exact Or.inr ⟨hgoal, fun n hn id' hid' =>
        List.mem_append_left _ (hdone n hn id' hid')⟩
  · exact Or.inl (List.mem_append_left _ (mem_stacked.2 ⟨id, hid, hx⟩))

/-- With an empty stack the entered models are closed, so no chain leaves them. -/
theorem Explored.not_leads (hr : r.Valid) {seen : List Nat} (h : r.Explored goal seen [])
    {id : Nat} (hid : id ∈ seen) {m : Model} (hm : r.models[id]? = some m) :
    ¬ r.Leads goal m := by
  intro hlead
  induction hlead generalizing id with
  | here hg =>
    rcases h id hid _ hm with hnil | ⟨hno, -⟩
    · simp at hnil
    · exact hno hg
  | @through m m' hm' hn _ ih =>
    rcases h id hid _ hm with hnil | ⟨-, hdone⟩
    · simp at hnil
    · obtain ⟨id', hid'⟩ := List.mem_iff_getElem?.1 hm'
      exact ih (hdone _ hn id' (hr.modelId?_eq_some.2 ⟨m', hid', rfl⟩)) hid'

theorem not_leads_of_stores_eq_false (hr : r.Valid) {seen : List Nat} {stack : List Model}
    (hx : r.Explored goal seen stack) (h : r.stores goal seen stack = false) :
    (∀ m ∈ stack, ¬ r.Leads goal m) ∧
      ∀ id ∈ seen, ∀ m, r.models[id]? = some m → ¬ r.Leads goal m := by
  fun_induction stores r goal seen stack with
  | case1 seen => exact ⟨by simp, fun id hid m hm => hx.not_leads hr hid hm⟩
  | case2 => simp at h
  | case3 seen m stack hm ih =>
    obtain ⟨hstack, hseen⟩ := ih (hx.step hm) h
    refine ⟨?_, fun id hid => hseen id (List.mem_append_left _ hid)⟩
    intro x hxs hlead
    rcases List.mem_cons.1 hxs with rfl | hxs
    · cases hlead with
      | here hg => exact hm hg
      | @through _ m' hm' hn hlead =>
        obtain ⟨id, hid⟩ := List.mem_iff_getElem?.1 hm'
        have hid' := hr.modelId?_eq_some.2 ⟨m', hid, rfl⟩
        exact hseen id (mem_seen_of_inline hn hid') m' hid hlead
    · exact hstack x (List.mem_append_right _ hxs) hlead

theorem containsItself_iff_leads (hr : r.Valid) {m : Model} :
    r.containsItself m = true ↔ r.Leads m.name m := by
  constructor
  · intro h
    obtain ⟨x, hx, hlead⟩ := leads_of_stores hr h
    exact List.mem_singleton.1 hx ▸ hlead
  · intro hlead
    by_contra hno
    have hx : r.Explored m.name [] [m] := fun id hid => absurd hid List.not_mem_nil
    have hmiss := (not_leads_of_stores_eq_false hr hx (Bool.not_eq_true _ ▸ hno)).1
    exact hmiss m List.mem_cons_self hlead

/-- For registered models, chains are paths of `Inlines`. -/
theorem leads_iff_transGen (hr : r.Valid) (hg : goal ∈ r.modelNames) {m : Model}
    (hm : m ∈ r.models) : r.Leads goal m ↔ Relation.TransGen r.Inlines m.name goal := by
  constructor
  · intro h
    induction h with
    | @here m hin => exact .single ⟨hg, m, hm, rfl, hin⟩
    | @through m m' hm' hn _ ih =>
      exact .head ⟨List.mem_map_of_mem hm', m, hm, rfl, hn⟩ (ih hm')
  · intro h
    generalize hn : m.name = a at h
    induction h using Relation.TransGen.head_induction_on generalizing m with
    | single hstep =>
      obtain ⟨-, m₀, hm₀, hname, hin⟩ := hstep
      have heq := List.inj_on_of_nodup_map hr.models.nodup hm₀ hm (hname.trans hn.symm)
      exact .here (heq ▸ hin)
    | head hstep _ ih =>
      obtain ⟨hb, m₀, hm₀, hname, hin⟩ := hstep
      have heq := List.inj_on_of_nodup_map hr.models.nodup hm₀ hm (hname.trans hn.symm)
      obtain ⟨m', hm', rfl⟩ := List.mem_map.1 hb
      exact .through hm' (heq ▸ hin) (ih hm' rfl)

theorem containsItself_iff (hr : r.Valid) {m : Model} (hm : m ∈ r.models) :
    r.containsItself m = true ↔ Relation.TransGen r.Inlines m.name m.name := by
  rw [containsItself_iff_leads hr, leads_iff_transGen hr (List.mem_map_of_mem hm) hm]

end SwiftRpc.Api.Registry
