import Mathlib.Data.List.Nodup
import SwiftRpc.Dictionary

/-!
# Dictionaries as finite maps

What a dictionary says is which value it finds under a name. A dictionary made from a list of
bindings finds the last binding of a name, has every name once, and keeps the list as it is if no
name is bound twice.
-/

namespace SwiftRpc.Dictionary

variable {α : Type} {bindings : List (String × α)} {name : String} {value : α}

theorem get?_insert (d : Dictionary α) (name other : String) (value : α) :
    (d.insert name value).get? other = if other = name then some value else d.get? other := by
  by_cases h : other = name
  · rw [if_pos h, h, get?_insert_self]
  · rw [if_neg h, get?_insert_of_ne d value h]

theorem mem_keys {d : Dictionary α} : name ∈ d.keys ↔ ∃ value, d.get? name = some value := by
  rw [keys, get?, ← Option.isSome_iff_exists, List.lookup_isSome_iff, List.mem_map]
  constructor
  · rintro ⟨b, hb, rfl⟩
    exact ⟨b, hb, beq_self_eq_true b.1⟩
  · rintro ⟨b, hb, hname⟩
    exact ⟨b, hb, (eq_of_beq hname).symm⟩

theorem keys_insert (d : Dictionary α) (name : String) (value : α) :
    (d.insert name value).keys = d.keys.filter (· != name) ++ [name] := by
  rw [keys, insert, List.map_append, keys, List.filter_map]
  rfl

/-! ## From a list of bindings -/

/-- The last binding of a name counts. -/
theorem get?_ofList (bindings : List (String × α)) (name : String) :
    (ofList bindings).get? name = bindings.reverse.lookup name := by
  have key : ∀ d : Dictionary α,
      (bindings.foldl (fun d b => d.insert b.1 b.2) d).get? name =
        (bindings.reverse.lookup name).or (d.get? name) := by
    induction bindings with
    | nil => simp
    | cons b rest ih =>
      intro d
      rw [List.foldl_cons, ih, get?_insert, List.reverse_cons, List.lookup_append, Option.or_assoc]
      congr 1
      rw [List.lookup_cons]
      by_cases hb : name = b.1
      · simp [hb]
      · simp [hb, beq_false_of_ne hb]
  rw [ofList, key empty]
  simp [get?, empty]

theorem mem_keys_ofList : name ∈ (ofList bindings).keys ↔ name ∈ bindings.map (·.1) := by
  rw [mem_keys, get?_ofList, ← Option.isSome_iff_exists, List.lookup_isSome_iff, List.mem_map]
  simp only [List.mem_reverse, beq_iff_eq]
  exact exists_congr fun b => and_congr_right fun _ => eq_comm

theorem mem_of_get?_ofList (h : (ofList bindings).get? name = some value) :
    (name, value) ∈ bindings := by
  rw [get?_ofList] at h
  obtain ⟨before, after, hsplit, -⟩ := List.lookup_eq_some_iff.1 h
  rw [← List.mem_reverse, hsplit]
  simp

theorem get?_ofList_of_nodup (hnodup : (bindings.map (·.1)).Nodup) :
    (ofList bindings).get? name = some value ↔ (name, value) ∈ bindings := by
  constructor
  · exact mem_of_get?_ofList
  · intro hmem
    obtain ⟨value', hvalue'⟩ := mem_keys.1 (mem_keys_ofList.2 (List.mem_map_of_mem hmem))
    -- a second binding of the name would be a second occurrence of it
    have heq := List.inj_on_of_nodup_map hnodup (mem_of_get?_ofList hvalue') hmem rfl
    rw [hvalue', (Prod.mk.inj heq).2]

theorem nodup_keys_ofList (bindings : List (String × α)) : (ofList bindings).keys.Nodup := by
  have key : ∀ d : Dictionary α, d.keys.Nodup →
      (bindings.foldl (fun d b => d.insert b.1 b.2) d).keys.Nodup := by
    induction bindings with
    | nil => exact fun d hd => hd
    | cons b rest ih =>
      intro d hd
      refine ih _ ?_
      rw [keys_insert, List.nodup_append]
      refine ⟨hd.filter _, List.nodup_singleton _, ?_⟩
      intro name hname other hother
      rw [List.mem_singleton.1 hother]
      simpa using (List.mem_filter.1 hname).2
  exact key empty List.nodup_nil

/-- Nothing is replaced if no name is bound twice. -/
theorem ofList_of_nodup (hnodup : (bindings.map (·.1)).Nodup) : ofList bindings = ⟨bindings⟩ := by
  have key : ∀ (before after : List (String × α)), ((before ++ after).map (·.1)).Nodup →
      after.foldl (fun d b => d.insert b.1 b.2) ⟨before⟩ = (⟨before ++ after⟩ : Dictionary α) := by
    intro before after
    induction after generalizing before with
    | nil => simp
    | cons b rest ih =>
      intro h
      have hkeep : before.filter (·.1 != b.1) = before := by
        rw [List.filter_eq_self]
        intro other hother
        rw [List.map_append, List.nodup_append] at h
        simpa using h.2.2 other.1 (List.mem_map_of_mem hother) b.1 (by simp)
      have hstep : (⟨before⟩ : Dictionary α).insert b.1 b.2 = ⟨before ++ [b]⟩ := by
        rw [insert, hkeep]
      rw [List.foldl_cons, hstep, ih, List.append_assoc, List.singleton_append]
      rwa [List.append_assoc, List.singleton_append]
  exact key [] bindings hnodup

/-- Whatever the order of its bindings, a dictionary finds the same. -/
theorem get?_of_perm {d : Dictionary α} (hnodup : d.keys.Nodup) (h : bindings.Perm d.entries)
    (name : String) : (⟨bindings⟩ : Dictionary α).get? name = d.get? name := by
  have hbindings : (bindings.map (·.1)).Nodup := (h.map Prod.fst).nodup_iff.2 hnodup
  apply Option.ext
  intro value
  rw [← ofList_of_nodup hbindings, get?_ofList_of_nodup hbindings, h.mem_iff,
    ← get?_ofList_of_nodup hnodup, ofList_of_nodup hnodup]

end SwiftRpc.Dictionary
