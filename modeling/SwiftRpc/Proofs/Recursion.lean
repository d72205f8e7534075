import Mathlib.Data.List.Chain
import SwiftRpc.Proofs.Growth
import SwiftRpc.Proofs.Render

/-!
# Which models are refused for storing themselves

A model cannot be a structure exactly if a chain of singular message fields leads from it back to
it, through registered models. Other circles do not matter, not even those that a chain from the
model runs into, nor do lists and maps.

The search is sure to end: each turn takes one model off the stack, and no model but the first one
is on it twice (`storesWithin_eq`).
-/

namespace SwiftRpc.Api

theorem Model.mem_inlineTypes {m : Model} {name : String} :
    name ∈ m.inlineTypes ↔ ∃ f ∈ m.fields,
      f.isMessage = true ∧ f.isRepeated = false ∧ Name.absolute f.typeName = name := by
  simp [inlineTypes, messageFields, and_assoc, and_left_comm]

namespace Registry

variable {r : Registry} {goal : String}

/-! ## Circles of models -/

/-- A singular message field of the registered model `a` names the registered model `b`. -/
structure Embeds (r : Registry) (a b : Model) : Prop where
  outer : a ∈ r.models
  inner : b ∈ r.models
  field : ∃ f ∈ a.fields,
    f.isMessage = true ∧ f.isRepeated = false ∧ Name.absolute f.typeName = b.name

/-- A chain to the name of a registered model is a list of models, each of which embeds the next. -/
theorem leads_iff_isChain {a b : Model} (ha : a ∈ r.models) (hb : b ∈ r.models) :
    r.Leads b.name a ↔ ∃ path, List.IsChain r.Embeds (a :: (path ++ [b])) := by
  constructor
  · intro hlead
    induction hlead with
    | @here a hin =>
      refine ⟨[], List.isChain_pair.2 ⟨ha, hb, Model.mem_inlineTypes.1 hin⟩⟩
    | @through a c hc hin _ ih =>
      obtain ⟨path, hpath⟩ := ih hc
      refine ⟨c :: path, List.isChain_cons_cons.2 ⟨⟨ha, hc, Model.mem_inlineTypes.1 hin⟩, hpath⟩⟩
  · rintro ⟨path, hpath⟩
    induction path generalizing a with
    | nil => exact .here (Model.mem_inlineTypes.2 (List.isChain_pair.1 hpath).field)
    | cons c rest ih =>
      obtain ⟨hstep, hrest⟩ := List.isChain_cons_cons.1 hpath
      exact .through hstep.inner (Model.mem_inlineTypes.2 hstep.field) (ih hstep.inner hrest)

theorem containsItself_iff_isChain (hr : r.Valid) {m : Model} (hm : m ∈ r.models) :
    r.containsItself m = true ↔ ∃ path, List.IsChain r.Embeds (m :: (path ++ [m])) := by
  rw [containsItself_iff_leads hr, leads_iff_isChain hm hm]

/-! ## The number of turns -/

/-- The search, given up after that many turns. -/
def storesWithin (r : Registry) (goal : String) : Nat → List Nat → List Model → Option Bool
  | _, _, [] => some false
  | 0, _, _ :: _ => none
  | n + 1, seen, m :: stack =>
    if goal ∈ m.inlineTypes then some true
    else r.storesWithin goal n (seen ++ r.entered seen m) (r.stacked (r.entered seen m) ++ stack)

/-- As many turns are enough as there are models to be seen and models on the stack. -/
theorem storesWithin_eq {n : Nat} {seen : List Nat} {stack : List Model}
    (hn : (Reach.unseen (List.range r.modelCount) seen).length + stack.length ≤ n) :
    r.storesWithin goal n seen stack = some (r.stores goal seen stack) := by
  fun_induction stores r goal seen stack generalizing n with
  | case1 seen => rw [storesWithin]
  | case2 seen m stack hm =>
    rw [List.length_cons] at hn
    obtain ⟨k, rfl⟩ : ∃ k, n = k + 1 := ⟨n - 1, by omega⟩
    rw [storesWithin, if_pos hm]
  | case3 seen m stack hm ih =>
    have hless := r.length_unseen_add_stack_lt seen m stack
    obtain ⟨k, rfl⟩ : ∃ k, n = k + 1 := ⟨n - 1, by omega⟩
    rw [storesWithin, if_neg hm]
    exact ih (by omega)

theorem containsItself_within (r : Registry) (m : Model) :
    r.storesWithin m.name (r.modelCount + 1) [] [m] = some (r.containsItself m) := by
  apply storesWithin_eq
  simp [Reach.unseen]

end Registry

end SwiftRpc.Api

namespace SwiftRpc.Swift

open SwiftRpc.Api

/-! ## Who reports it -/

variable {r : Registry} {index : TypeIndex}

theorem swiftName_ne_recursive (reference referrer name : String) :
    index.swiftName reference referrer ≠ .error (.recursiveValueType name) := by
  unfold TypeIndex.swiftName
  cases index.resolve? reference <;> simp

theorem elementType_ne_recursive (f : Field) (referrer name : String) :
    elementType index f referrer ≠ .error (.recursiveValueType name) := by
  unfold elementType
  cases f.scalar with
  | some s => simp
  | none => exact swiftName_ne_recursive f.typeName referrer name

theorem mapType_ne_recursive (entry : Model) (referrer name : String) :
    mapType index entry referrer ≠ .error (.recursiveValueType name) := by
  intro h
  unfold mapType at h
  cases hkey : entry.field? "key" with
  | none =>
    rw [hkey] at h
    cases h
  | some key =>
    cases hvalue : entry.field? "value" with
    | none =>
      rw [hkey, hvalue] at h
      cases h
    | some value =>
      simp only [hkey, hvalue, Outcome.bind_eq_error] at h
      rcases h with h | ⟨keyType, -, h | ⟨valueType, -, h⟩⟩
      · exact elementType_ne_recursive key referrer name h
      · exact elementType_ne_recursive value referrer name h
      · cases h

theorem ofField_ne_recursive (m : Model) (f : Field) (name : String) :
    Property.ofField r index m f ≠ .error (.recursiveValueType name) := by
  unfold Property.ofField
  cases entryModel? r f with
  | some entry =>
    rw [Ne, Outcome.map_eq_error]
    exact mapType_ne_recursive entry _ name
  | none =>
    rw [Ne, Outcome.map_eq_error]
    exact elementType_ne_recursive f _ name

/-- A model is refused as recursive only by the search, and under its own name. -/
theorem renderModel_eq_recursive {m : Model} {name : String} :
    renderModel r index m = .error (.recursiveValueType name) ↔
      r.containsItself m = true ∧ name = m.name := by
  simp only [renderModel, Struct.ofModel, Outcome.map_eq_error, Outcome.refused_eq_error,
    Outcome.bind_eq_error, Outcome.mapM_eq_error]
  constructor
  · rintro (⟨hself, herror⟩ | ⟨-, h⟩)
    · cases herror
      exact ⟨hself, rfl⟩
    · rcases h with h | ⟨_, -, ⟨_, f, _, -, -, h⟩ | ⟨_, -, h⟩⟩
      · exact absurd h (swiftName_ne_recursive _ _ name)
      · exact absurd h (ofField_ne_recursive m f name)
      · cases h
  · rintro ⟨hself, rfl⟩
    exact Or.inl ⟨hself, rfl⟩

end SwiftRpc.Swift

namespace SwiftRpc.Api.Registry

open SwiftRpc.Swift

/-- **Models that store themselves are refused, and no others.** Whatever calls filled a registry,
and however often its capabilities were applied, the search for a registered model comes to its
answer in at most one turn more than there are models. It finds a hit, and rendering the model fails
for it, exactly if there is a list of registered models that starts and ends with the model and in
which a singular message field of each names the next. -/
theorem containsItself_exact (calls : List Call) (n : Nat) :
    let r := applyCapabilities^[n] (empty.after calls)
    ∀ m ∈ r.models,
      r.storesWithin m.name (r.modelCount + 1) [] [m] = some (r.containsItself m) ∧
      (r.containsItself m = true ↔ ∃ path, List.IsChain r.Embeds (m :: (path ++ [m]))) ∧
      ∀ index name, renderModel r index m = .error (.recursiveValueType name) ↔
        name = m.name ∧ ∃ path, List.IsChain r.Embeds (m :: (path ++ [m])) := by
  intro r m hm
  have hr : r.Valid :=
    (valid_empty.after calls).of_bare (bare_iterate_applyCapabilities _ n).symm
  have hchain := containsItself_iff_isChain hr hm
  refine ⟨containsItself_within r m, hchain, fun index name => ?_⟩
  rw [renderModel_eq_recursive, hchain, and_comm]

/-- Two models that store each other are refused; a model that stores one of them, or a list of
itself, is not. -/
theorem containsItself_exact_ping :
    let ping : Model := { name := "a.Ping", fields := [.message "pong" ".a.Pong"] }
    let pong : Model := { name := "a.Pong", fields := [.message "ping" "a.Ping"] }
    let game : Model := { name := "a.Game", fields := [.message "last" "a.Ping"] }
    let list : Model := { name := "a.List", fields := [(Field.message "next" "a.List").repeated] }
    let r := empty.after [.add (.model ping), .add (.model pong), .add (.model game),
      .add (.model list)]
    r.storesWithin "a.Ping" 5 [] [ping] = some true ∧ r.containsItself pong = true ∧
      (¬ ∃ path, List.IsChain r.Embeds (game :: (path ++ [game]))) ∧
      ∀ index, renderModel r index list ≠ .error (.recursiveValueType "a.List") := by
  intro ping pong game list r
  have hmodels : r.models = [ping, pong, game, list] := by decide +kernel
  have hexact : ∀ m ∈ r.models, _ := containsItself_exact
    [.add (.model ping), .add (.model pong), .add (.model game), .add (.model list)] 0
  obtain ⟨hwithin, hself, -⟩ := hexact ping (by simp [hmodels])
  obtain ⟨-, hpong, -⟩ := hexact pong (by simp [hmodels])
  obtain ⟨-, hgame, -⟩ := hexact game (by simp [hmodels])
  obtain ⟨-, hlist, hrender⟩ := hexact list (by simp [hmodels])
  have hthere : r.Embeds ping pong := ⟨by simp [hmodels], by simp [hmodels], by decide +kernel⟩
  have hback : r.Embeds pong ping := ⟨by simp [hmodels], by simp [hmodels], by decide +kernel⟩
  refine ⟨?_, hpong.2 ⟨[ping], ?_⟩, ?_, ?_⟩
  · refine hwithin.trans (congrArg some (hself.2 ⟨[pong], ?_⟩))
    exact List.isChain_cons_cons.2 ⟨hthere, List.isChain_pair.2 hback⟩
  · exact List.isChain_cons_cons.2 ⟨hback, List.isChain_pair.2 hthere⟩
  · intro hcircle
    exact absurd (hgame.2 hcircle) (by decide +kernel)
  · intro index hrefused
    exact absurd (hlist.2 ((hrender index _).1 hrefused).2) (by decide +kernel)

end SwiftRpc.Api.Registry
