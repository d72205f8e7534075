import Mathlib.Algebra.Order.BigOperators.Group.List
import Mathlib.Data.List.Nodup
import SwiftRpc.Proofs.Capability

/-!
# Every model is visited once

`Rounds` lists the frontiers that a capability goes through while it spreads. A round grants the
capability to what it puts into the next frontier, and puts there only what lacked it, so a model
that stood in one frontier can stand in no later one, whatever cycles the references make. As no
frontier that is visited is empty, there are at most as many rounds as models.
-/

namespace SwiftRpc.Api

/-! ## One round -/

/-- What gained the capability is listed once, and has it by now. -/
structure Round.Listed (c : Capability) (s : Round) : Prop where
  nodup : s.gained.Nodup
  has : ∀ id ∈ s.gained, s.registry.has c id = true

namespace Round

variable {c : Capability}

theorem Listed.pass {s : Round} (h : s.Listed c) (id : Nat) : (s.pass c id).Listed c := by
  by_cases hl : s.registry.lacks c id = true
  · obtain ⟨hlt, hno⟩ := Registry.lacks_iff.1 hl
    rw [Round.pass, if_pos hl]
    refine ⟨?_, ?_⟩
    · -- what is listed has the capability, and this model lacked it
      have hnew : id ∉ s.gained := fun hid => hno (h.has id hid)
      rw [List.nodup_append_comm, List.singleton_append, List.nodup_cons]
      exact ⟨hnew, h.nodup⟩
    · intro j hj
      rw [Registry.has_grantAt]
      rcases List.mem_append.1 hj with hj | hj
      · exact Or.inl (h.has j hj)
      · obtain rfl := List.mem_singleton.1 hj
        exact Or.inr ⟨rfl, rfl, hlt⟩
  · rw [Round.pass, if_neg hl]
    exact h

theorem Listed.visit {s : Round} (h : s.Listed c) (id : Nat) : (s.visit c id).Listed c :=
  List.foldlRecOn _ (Round.pass c) h fun _ ht j _ => ht.pass j

end Round

namespace Registry

variable {r r' : Registry} {c : Capability} {frontier : List Nat} {fs : List (List Nat)}

theorem listed_round (r : Registry) (c : Capability) (frontier : List Nat) :
    (r.round c frontier).Listed c :=
  List.foldlRecOn frontier (Round.visit c) ⟨List.nodup_nil, by simp⟩ fun _ ht id _ => ht.visit id

/-- A model that refers to another one twice and to itself gives one model to the next round. -/
example :
    let ask : Model :=
      { name := "a.Ask", encodable := true,
        fields := [.message "left" "a.Part", .message "next" "a.Ask", .message "right" "a.Part"] }
    let r := (empty.pushModel ask).pushModel { name := "a.Part" }
    (r.round .encode (r.holders .encode)).gained = [1] := by
  decide +kernel

theorem lacks_of_mem_gained {id : Nat} (h : id ∈ (r.round c frontier).gained) :
    r.lacks c id = true := by
  rcases ((passed_round r c frontier).gained id).1 h with hid | ⟨-, hid⟩
  · exact absurd hid List.not_mem_nil
  · exact hid

theorem has_round_iff_gained {id : Nat} :
    (r.round c frontier).registry.has c id = true ↔
      r.has c id = true ∨ id ∈ (r.round c frontier).gained := by
  have hp := passed_round r c frontier
  rw [hp.has, hp.gained, lacks_iff]
  simp only [List.not_mem_nil, false_or, true_and]
  tauto

/-- Nothing is taken away, so what lacks the capability after a round lacked it before. -/
theorem lacks_of_lacks_round {id : Nat} (h : (r.round c frontier).registry.lacks c id = true) :
    r.lacks c id = true := by
  obtain ⟨hlt, hno⟩ := lacks_iff.1 h
  rw [modelCount_of_bare (passed_round r c frontier).bare] at hlt
  exact lacks_iff.2 ⟨hlt, fun hid => hno (has_round_iff_gained.2 (Or.inl hid))⟩

/-! ## All rounds -/

/-- With `frontier` to be visited in `r`, the rounds visit the frontiers `fs` one after the other
and leave `r'`. -/
inductive Rounds (c : Capability) :
    Registry → List Nat → List (List Nat) → Registry → Prop where
  | done (r : Registry) : Rounds c r [] [] r
  | round {r r' : Registry} {frontier : List Nat} {fs : List (List Nat)} (hne : frontier ≠ [])
      (rest : Rounds c (r.round c frontier).registry (r.round c frontier).gained fs r') :
      Rounds c r frontier (frontier :: fs) r'

namespace Rounds

theorem exists_spreadFrom (c : Capability) (r : Registry) (frontier : List Nat) :
    ∃ fs, Rounds c r frontier fs (spreadFrom c r frontier) := by
  fun_induction spreadFrom c r frontier with
  | case1 r => exact ⟨[], done r⟩
  | case2 r frontier hne ih =>
    obtain ⟨fs, hfs⟩ := ih
    exact ⟨frontier :: fs, round hne hfs⟩

theorem unique (h : Rounds c r frontier fs r') {fs' : List (List Nat)} {r'' : Registry}
    (h' : Rounds c r frontier fs' r'') : fs' = fs ∧ r'' = r' := by
  induction h generalizing fs' r'' with
  | done r =>
    cases h' with
    | done => exact ⟨rfl, rfl⟩
    | round hne _ => exact absurd rfl hne
  | round hne _ ih =>
    cases h' with
    | done => exact absurd rfl hne
    | round _ rest' =>
      obtain ⟨rfl, rfl⟩ := ih rest'
      exact ⟨rfl, rfl⟩

theorem ne_nil (h : Rounds c r frontier fs r') : ∀ f ∈ fs, f ≠ [] := by
  induction h with
  | done r => simp
  | round hne _ ih => exact List.forall_mem_cons.2 ⟨hne, ih⟩

theorem nodup (h : Rounds c r frontier fs r') (hf : frontier.Nodup) : ∀ f ∈ fs, f.Nodup := by
  induction h with
  | done r => simp
  | @round r _ frontier _ _ _ ih =>
    exact List.forall_mem_cons.2 ⟨hf, ih (listed_round r c frontier).nodup⟩

/-- The frontier that is to be visited comes first. -/
theorem eq_or_mem_tail (h : Rounds c r frontier fs r') {f : List Nat} (hf : f ∈ fs) :
    f = frontier ∨ f ∈ fs.tail := by
  cases h with
  | done => exact absurd hf List.not_mem_nil
  | round => exact List.mem_cons.1 hf

theorem exists_mem_of_mem (h : Rounds c r frontier fs r') {id : Nat} (hid : id ∈ frontier) :
    ∃ f ∈ fs, id ∈ f := by
  cases h with
  | done => exact absurd hid List.not_mem_nil
  | round => exact ⟨frontier, List.mem_cons_self, hid⟩

theorem lacks_of_mem_tail (h : Rounds c r frontier fs r') :
    ∀ f ∈ fs.tail, ∀ id ∈ f, r.lacks c id = true := by
  induction h with
  | done r => simp
  | @round r _ frontier fs _ rest ih =>
    intro f hf id hid
    -- a later frontier is the next one, or comes after the next one
    rcases rest.eq_or_mem_tail hf with rfl | hlater
    · exact lacks_of_mem_gained hid
    · exact lacks_of_lacks_round (ih f hlater id hid)

theorem disjoint (h : Rounds c r frontier fs r') (hf : ∀ id ∈ frontier, r.has c id = true) :
    fs.Pairwise List.Disjoint := by
  induction h with
  | done r => exact List.Pairwise.nil
  | @round r _ frontier fs hne rest ih =>
    refine List.pairwise_cons.2 ⟨?_, ih (listed_round r c frontier).has⟩
    intro f hmem id hid hid'
    have hlacks := (round hne rest).lacks_of_mem_tail f hmem id hid'
    exact (lacks_iff.1 hlacks).2 (hf id hid)

theorem has_iff (h : Rounds c r frontier fs r') (hf : ∀ id ∈ frontier, r.has c id = true)
    {id : Nat} : r'.has c id = true ↔ r.has c id = true ∨ ∃ f ∈ fs, id ∈ f := by
  induction h with
  | done r => simp
  | @round r r' frontier fs _ rest ih =>
    rw [ih (listed_round r c frontier).has, has_round_iff_gained, List.exists_mem_cons_iff]
    constructor
    · rintro ((hid | hid) | hid)
      · exact Or.inl hid
      · exact Or.inr (Or.inr (rest.exists_mem_of_mem hid))
      · exact Or.inr (Or.inr hid)
    · rintro (hid | hid | hid)
      · exact Or.inl (Or.inl hid)
      · exact Or.inl (Or.inl (hf id hid))
      · exact Or.inr hid

end Rounds

/-- A family of disjoint lists of models that are not empty has at most as many members as there
are models. -/
theorem length_le_modelCount (hne : ∀ f ∈ fs, f ≠ []) (hnodup : fs.flatten.Nodup)
    (hlt : ∀ f ∈ fs, ∀ id ∈ f, id < r.modelCount) : fs.length ≤ r.modelCount := by
  have hsubset : fs.flatten ⊆ List.range r.modelCount := by
    intro id hid
    obtain ⟨f, hf, hid⟩ := List.mem_flatten.1 hid
    exact List.mem_range.2 (hlt f hf id hid)
  calc fs.length = (fs.map List.length).length := (List.length_map _).symm
    _ ≤ (fs.map List.length).sum := by
      refine List.length_le_sum_of_one_le _ (List.forall_mem_map.2 ?_)
      intro f hf
      exact List.length_pos_iff.2 (hne f hf)
    _ = fs.flatten.length := List.length_flatten.symm
    _ ≤ (List.range r.modelCount).length := (List.subperm_of_subset hnodup hsubset).length_le
    _ = r.modelCount := List.length_range

theorem nodup_holders (r : Registry) (c : Capability) : (r.holders c).Nodup :=
  List.nodup_range.filter _

/-- **Every model is visited once.** Whatever a registry holds, spreading a capability visits one
sequence of frontiers. No model stands twice in a frontier or in two frontiers, the models that are
visited are the ones that have the capability in the end, those of the later frontiers lacked it in
the beginning, and there are no more rounds than models. -/
theorem spread_visitsOnce (r : Registry) (c : Capability) :
    ∃ fs : List (List Nat),
      (∀ fs' r', Rounds c r (r.holders c) fs' r' ↔ fs' = fs ∧ r' = r.spread c) ∧
      (∀ f ∈ fs, f.Nodup) ∧ fs.Pairwise List.Disjoint ∧
      (∀ id, (∃ f ∈ fs, id ∈ f) ↔ (r.spread c).has c id = true) ∧
      (∀ f ∈ fs.tail, ∀ id ∈ f, r.lacks c id = true) ∧
      fs.length ≤ r.modelCount := by
  obtain ⟨fs, hfs⟩ := Rounds.exists_spreadFrom c r (r.holders c)
  have hhas : ∀ id ∈ r.holders c, r.has c id = true := fun id => mem_holders.1
  have hnodup := hfs.nodup (nodup_holders r c)
  have hdisjoint := hfs.disjoint hhas
  have hvisited : ∀ id, (∃ f ∈ fs, id ∈ f) ↔ (r.spread c).has c id = true := by
    intro id
    rw [spread, hfs.has_iff hhas]
    constructor
    · exact Or.inr
    · rintro (hid | hid)
      · exact hfs.exists_mem_of_mem (mem_holders.2 hid)
      · exact hid
  refine ⟨fs, ?_, hnodup, hdisjoint, hvisited, hfs.lacks_of_mem_tail, ?_⟩
  · intro fs' r'
    constructor
    · exact hfs.unique
    · rintro ⟨rfl, rfl⟩
      exact hfs
  · refine length_le_modelCount hfs.ne_nil (List.nodup_flatten.2 ⟨hnodup, hdisjoint⟩) ?_
    intro f hf id hid
    obtain ⟨m, hm, -⟩ := Registry.has_iff.1 ((hvisited id).1 ⟨f, hf, hid⟩)
    rw [← modelCount_of_bare (bare_spreadFrom c r (r.holders c))]
    exact (List.getElem?_eq_some_iff.1 hm).1

end Registry

end SwiftRpc.Api
