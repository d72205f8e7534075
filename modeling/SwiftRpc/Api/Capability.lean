import SwiftRpc.Api.Registry

/-!
# Spreading capabilities

A client sends method inputs and receives method outputs, so the input models have to be encodable
and the output models decodable. A model that has a capability passes it on to the models that its
message fields refer to. References that name no registered model are passed over, and what a model
can do already is never taken away.

A capability spreads in rounds. A round visits the models of a frontier and grants the capability
to what they refer to; the models that lacked it before are the next frontier. Every model gains a
capability at most once, so the rounds come to an end whatever the references look like.
-/

namespace SwiftRpc.Api

namespace Registry

def has (r : Registry) (c : Capability) (id : Nat) : Bool := (r.models[id]?).any (·.can c)

def lacks (r : Registry) (c : Capability) (id : Nat) : Bool := (r.models[id]?).any (! ·.can c)

def grantAt (r : Registry) (c : Capability) (id : Nat) : Registry :=
  { r with models := r.models.modify id (·.grant c) }

/-- The models that methods name, each with the capability that is needed for it. -/
def seeds (r : Registry) : List (Nat × Capability) :=
  r.services.flatMap fun s => s.methods.flatMap fun m =>
    Capability.all.filterMap fun c => (r.modelId? (m.endType c)).map (·, c)

def seed (r : Registry) : Registry := r.seeds.foldl (fun r s => r.grantAt s.2 s.1) r

def holders (r : Registry) (c : Capability) : List Nat :=
  (List.range r.modelCount).filter (r.has c)

/-- The registered models that the message fields of a model refer to. -/
def referenced (r : Registry) (id : Nat) : List Nat :=
  match r.models[id]? with
  | some m => m.messageFields.filterMap fun f => r.modelId? f.typeName
  | none => []

/-- How many models are without `c`. -/
def lacking (r : Registry) (c : Capability) : Nat := r.models.countP (! ·.can c)

theorem lacking_grantAt {r : Registry} {c : Capability} {id : Nat} (h : r.lacks c id = true) :
    (r.grantAt c id).lacking c + 1 = r.lacking c := by
  have key : ∀ (l : List Model) (id : Nat), (l[id]?).any (! ·.can c) = true →
      (l.modify id (·.grant c)).countP (! ·.can c) + 1 = l.countP (! ·.can c) := by
    intro l
    induction l with
    | nil => simp
    | cons m rest ih =>
      intro id h
      cases id with
      | zero =>
        have hm : m.can c = false := by simpa using h
        have hg : (m.grant c).can c = true := by cases c <;> rfl
        simp [hm, hg]
      | succ id =>
        have hr := ih id (by simpa using h)
        simp only [List.modify_succ_cons, List.countP_cons]
        omega
  exact key r.models id h

end Registry

/-- A round under way: the registry by now, and the models that gained the capability so far. -/
structure Round where
  registry : Registry
  gained : List Nat := []

namespace Round

def pass (c : Capability) (s : Round) (id : Nat) : Round :=
  if s.registry.lacks c id then ⟨s.registry.grantAt c id, s.gained ++ [id]⟩ else s

def visit (c : Capability) (s : Round) (id : Nat) : Round :=
  (s.registry.referenced id).foldl (pass c) s

theorem lacking_pass (c : Capability) (s : Round) (id : Nat) :
    (s.pass c id).registry.lacking c + (s.pass c id).gained.length =
      s.registry.lacking c + s.gained.length := by
  by_cases h : s.registry.lacks c id = true
  · have hl := Registry.lacking_grantAt h
    simp only [pass, h, if_true, List.length_append, List.length_singleton]
    omega
  · simp [pass, h]

theorem lacking_foldl {α : Type} {c : Capability} {step : Round → α → Round}
    (hstep : ∀ s a, (step s a).registry.lacking c + (step s a).gained.length =
      s.registry.lacking c + s.gained.length) (l : List α) (s : Round) :
    (l.foldl step s).registry.lacking c + (l.foldl step s).gained.length =
      s.registry.lacking c + s.gained.length := by
  induction l generalizing s with
  | nil => rfl
  | cons a rest ih => rw [List.foldl_cons, ih, hstep]

end Round

namespace Registry

def round (r : Registry) (c : Capability) (frontier : List Nat) : Round :=
  frontier.foldl (Round.visit c) ⟨r, []⟩

/-- What a round grants is what it takes off the models that lack the capability. -/
theorem lacking_round (r : Registry) (c : Capability) (frontier : List Nat) :
    (r.round c frontier).registry.lacking c + (r.round c frontier).gained.length =
      r.lacking c :=
  Round.lacking_foldl
    (fun s id => Round.lacking_foldl (Round.lacking_pass c) (s.registry.referenced id) s)
    frontier ⟨r, []⟩

def spreadFrom (c : Capability) (r : Registry) (frontier : List Nat) : Registry :=
  if frontier = [] then r
  else spreadFrom c (r.round c frontier).registry (r.round c frontier).gained
termination_by r.lacking c + if frontier = [] then 0 else 1
decreasing_by
  rename_i hf
  have hl := lacking_round r c frontier
  by_cases hg : (r.round c frontier).gained = []
  · simp only [hf, hg, if_true, if_false, List.length_nil] at hl ⊢
    omega
  · have hp := List.length_pos_iff.2 hg
    simp only [hf, hg, if_false]
    omega

def spread (r : Registry) (c : Capability) : Registry := spreadFrom c r (r.holders c)

/-- Grants what the methods ask for and spreads it, one capability after the other. -/
def applyCapabilities (r : Registry) : Registry := Capability.all.foldl spread r.seed

end Registry

end SwiftRpc.Api
