import SwiftRpc.Api.Registry
import SwiftRpc.Reach

/-!
# Models that contain themselves

A singular message field stores its value inline, so a model whose singular message fields lead
back to it would have no finite size. Lists break such a chain.

The search goes depth first: it takes a model off a stack and puts the registered models that it
stores, and that were not met before, on it. It ends with the first model that stores the one
asked for.
-/

namespace SwiftRpc.Api

/-- The types a model stores inline. -/
def Model.inlineTypes (m : Model) : List String :=
  (m.messageFields.filter (! ·.isRepeated)).map (Name.absolute ·.typeName)

namespace Registry

/-- The registered models that `m` stores and that are not in `seen`. -/
def entered (r : Registry) (seen : List Nat) (m : Model) : List Nat :=
  Reach.fresh seen (m.inlineTypes.filterMap r.modelId?)

/-- The models that go on the stack, the last one on top. -/
def stacked (r : Registry) (ids : List Nat) : List Model := (ids.filterMap (r.models[·]?)).reverse

theorem length_stacked_le (r : Registry) (ids : List Nat) :
    (r.stacked ids).length ≤ (ids.filter (· ∈ List.range r.modelCount)).length := by
  rw [stacked, List.length_reverse, List.length_filterMap_eq_countP, ← List.countP_eq_length_filter]
  refine List.countP_mono_left fun id _ h => ?_
  simpa [modelCount] using h

/-- What goes on the stack is no longer left to be seen, and the top of the stack is gone. -/
theorem length_unseen_add_stack_lt (r : Registry) (seen : List Nat) (m : Model)
    (stack : List Model) :
    (Reach.unseen (List.range r.modelCount) (seen ++ r.entered seen m)).length +
        (r.stacked (r.entered seen m) ++ stack).length <
      (Reach.unseen (List.range r.modelCount) seen).length + (m :: stack).length := by
  have hleft : (Reach.unseen (List.range r.modelCount) (seen ++ r.entered seen m)).length +
      ((r.entered seen m).filter (· ∈ List.range r.modelCount)).length ≤
        (Reach.unseen (List.range r.modelCount) seen).length :=
    Reach.length_unseen_append_add_le (Reach.nodup_fresh _ _) fun id hid =>
      (Reach.mem_fresh.1 hid).2
  have hstack := r.length_stacked_le (r.entered seen m)
  rw [List.length_append, List.length_cons]
  omega

/-- Whether a model of the stack stores `goal`, at any depth. -/
def stores (r : Registry) (goal : String) (seen : List Nat) : List Model → Bool
  | [] => false
  | m :: stack =>
    if goal ∈ m.inlineTypes then true
    else r.stores goal (seen ++ r.entered seen m) (r.stacked (r.entered seen m) ++ stack)
termination_by stack => (Reach.unseen (List.range r.modelCount) seen).length + stack.length
decreasing_by exact r.length_unseen_add_stack_lt seen m stack

/-- Whether `m` stores a value of its own type. The model need not be registered itself. -/
def containsItself (r : Registry) (m : Model) : Bool := r.stores m.name [] [m]

end Registry

end SwiftRpc.Api
