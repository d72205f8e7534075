/-!
# Nodes not seen before

Searches of a finite graph keep the nodes that they have entered. What a node leads to is entered
once, where it occurs first; each node entered is one less that is left.
-/

namespace SwiftRpc.Reach

variable {α : Type} [DecidableEq α]

/-- The members of a list that are not in `seen`, each where it occurs first. -/
def fresh (seen : List α) : List α → List α
  | [] => []
  | a :: rest => if a ∈ seen then fresh seen rest else a :: fresh (a :: seen) rest

theorem mem_fresh {seen l : List α} {a : α} : a ∈ fresh seen l ↔ a ∈ l ∧ a ∉ seen := by
  induction l generalizing seen with
  | nil => simp [fresh]
  | cons b rest ih =>
    by_cases hb : b ∈ seen
    · simp only [fresh, hb, if_true, ih, List.mem_cons]
      grind
    · simp only [fresh, hb, if_false, List.mem_cons, ih]
      grind

theorem nodup_fresh (seen l : List α) : (fresh seen l).Nodup := by
  induction l generalizing seen with
  | nil => simp [fresh]
  | cons b rest ih =>
    by_cases hb : b ∈ seen
    · simpa only [fresh, hb, if_true] using ih seen
    · simp only [fresh, hb, if_false, List.nodup_cons, mem_fresh]
      exact ⟨by simp, ih (b :: seen)⟩

/-- The nodes that are left. -/
def unseen (nodes seen : List α) : List α := nodes.filter (· ∉ seen)

theorem unseen_append (nodes seen found : List α) :
    unseen nodes (seen ++ found) = unseen (unseen nodes seen) found := by
  rw [unseen, unseen, unseen, List.filter_filter]
  exact List.filter_congr fun x _ => by simp [Bool.and_comm]

theorem length_unseen_append_le (nodes seen found : List α) :
    (unseen nodes (seen ++ found)).length ≤ (unseen nodes seen).length := by
  rw [unseen_append]
  exact List.length_filter_le _ _

theorem length_unseen_append_lt {nodes seen found : List α} {a : α} (hn : a ∈ nodes)
    (hs : a ∉ seen) (hf : a ∈ found) :
    (unseen nodes (seen ++ found)).length < (unseen nodes seen).length := by
  rw [unseen_append]
  refine List.length_filter_lt_length_iff_exists.2 ⟨a, ?_, ?_⟩
  · simp [unseen, hn, hs]
  · simp [hf]

/-- What is found was left before and is not left after. -/
theorem length_unseen_append_add_le {nodes seen found : List α} (hnodup : found.Nodup)
    (hseen : ∀ a ∈ found, a ∉ seen) :
    (unseen nodes (seen ++ found)).length + (found.filter (· ∈ nodes)).length ≤
      (unseen nodes seen).length := by
  induction found generalizing seen with
  | nil => simp
  | cons a rest ih =>
    obtain ⟨ha, hrest⟩ := List.nodup_cons.1 hnodup
    have hstep := @ih (seen ++ [a]) hrest fun b hb => by
      simp only [List.mem_append, List.mem_singleton, not_or]
      exact ⟨hseen b (List.mem_cons_of_mem _ hb), fun h => ha (h ▸ hb)⟩
    rw [List.append_assoc, List.singleton_append] at hstep
    by_cases hn : a ∈ nodes
    · have hlt := length_unseen_append_lt hn (hseen a List.mem_cons_self)
        (List.mem_singleton_self a)
      rw [List.filter_cons_of_pos (by simpa using hn), List.length_cons]
      omega
    · have hle := length_unseen_append_le nodes seen [a]
      rw [List.filter_cons_of_neg (by simpa using hn)]
      omega

end SwiftRpc.Reach
