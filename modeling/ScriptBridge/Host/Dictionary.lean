/-!
Dictionaries keep one value for each key, in an order that says nothing. Putting a value in takes
the place of the one that had its key.
-/
namespace ScriptBridge

structure Dictionary (α : Type) where
  entries : List (String × α)
  distinct : (entries.map (·.1)).Nodup

namespace Dictionary

variable {α : Type}

def empty : Dictionary α := ⟨[], List.nodup_nil⟩

def keys (d : Dictionary α) : List String := d.entries.map (·.1)

def get? (d : Dictionary α) (key : String) : Option α := d.entries.lookup key

def contains (d : Dictionary α) (key : String) : Bool := (d.get? key).isSome

theorem distinct_insert (d : Dictionary α) (key : String) (a : α) :
    (((key, a) :: d.entries.filter (·.1 ≠ key)).map (·.1)).Nodup := by
  refine List.nodup_cons.2 ⟨?_, d.distinct.sublist (List.filter_sublist.map _)⟩
  intro h
  obtain ⟨p, hp, hk⟩ := List.mem_map.1 h
  exact of_decide_eq_true (List.mem_filter.1 hp).2 hk

def insert (d : Dictionary α) (key : String) (a : α) : Dictionary α :=
  ⟨(key, a) :: d.entries.filter (·.1 ≠ key), d.distinct_insert key a⟩

theorem lookup_filter_ne {key other : String} (h : other ≠ key) (ps : List (String × α)) :
    (ps.filter (·.1 ≠ key)).lookup other = ps.lookup other := by
  induction ps with
  | nil => rfl
  | cons p ps ih =>
    obtain ⟨k, a⟩ := p
    by_cases hk : k = key
    · subst hk
      have hb : (other == k) = false := beq_false_of_ne h
      simp only [List.filter_cons, ne_eq, not_true, decide_false, Bool.false_eq_true, if_false,
        List.lookup_cons, hb] at ih ⊢
      exact ih
    · simp only [List.filter_cons, ne_eq, hk, not_false_iff, decide_true, if_true,
        List.lookup_cons] at ih ⊢
      rw [ih]

@[simp] theorem get?_empty (key : String) : (empty : Dictionary α).get? key = none := rfl

theorem get?_insert (d : Dictionary α) (key other : String) (a : α) :
    (d.insert key a).get? other = if other = key then some a else d.get? other := by
  by_cases h : other = key
  · subst h
    simp only [get?, insert, List.lookup_cons_self, if_true]
  · have hb : (other == key) = false := beq_false_of_ne h
    simp only [get?, insert, List.lookup_cons, hb, lookup_filter_ne h, if_neg h]

theorem mem_keys_iff (d : Dictionary α) (key : String) : key ∈ d.keys ↔ d.contains key := by
  simp only [keys, contains, get?, List.lookup_isSome_iff, List.mem_map]
  constructor
  · rintro ⟨p, hp, rfl⟩
    exact ⟨p, hp, beq_self_eq_true _⟩
  · rintro ⟨p, hp, h⟩
    exact ⟨p, hp, (eq_of_beq h).symm⟩

end Dictionary

end ScriptBridge
