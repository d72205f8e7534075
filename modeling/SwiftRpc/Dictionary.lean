/-!
# Dictionaries

A dictionary binds names to values, each name once. Binding a name again replaces its value, so
the last binding wins.
-/

namespace SwiftRpc

structure Dictionary (α : Type) where
  entries : List (String × α) := []
deriving DecidableEq

namespace Dictionary

variable {α : Type}

def empty : Dictionary α := {}

def get? (d : Dictionary α) (name : String) : Option α := d.entries.lookup name

def insert (d : Dictionary α) (name : String) (value : α) : Dictionary α :=
  ⟨d.entries.filter (·.1 != name) ++ [(name, value)]⟩

theorem lookup_filter_self (name : String) (l : List (String × α)) :
    (l.filter (·.1 != name)).lookup name = none := by
  rw [List.lookup_eq_none_iff]
  intro p hp
  have hne : p.1 ≠ name := by simpa using (List.mem_filter.1 hp).2
  simpa using Ne.symm hne

theorem get?_insert_self (d : Dictionary α) (name : String) (value : α) :
    (d.insert name value).get? name = some value := by
  rw [insert, get?, List.lookup_append, lookup_filter_self]
  simp

theorem lookup_filter_ne {name other : String} (h : other ≠ name) (l : List (String × α)) :
    (l.filter (·.1 != name)).lookup other = l.lookup other := by
  induction l with
  | nil => rfl
  | cons p rest ih =>
    rcases p with ⟨key, v⟩
    by_cases hk : key = name
    · subst hk
      rw [List.filter_cons_of_neg (by simp), ih, List.lookup_cons, beq_false_of_ne h]
    · rw [List.filter_cons_of_pos (by simpa using hk), List.lookup_cons, List.lookup_cons, ih]

theorem get?_insert_of_ne (d : Dictionary α) {name other : String} (value : α)
    (h : other ≠ name) : (d.insert name value).get? other = d.get? other := by
  rw [insert, get?, get?, List.lookup_append, lookup_filter_ne h, List.lookup_cons,
    beq_false_of_ne h]
  simp

def keys (d : Dictionary α) : List String := d.entries.map (·.1)

def size (d : Dictionary α) : Nat := d.entries.length

def ofList (bindings : List (String × α)) : Dictionary α :=
  bindings.foldl (fun d b => d.insert b.1 b.2) empty

end Dictionary

end SwiftRpc
