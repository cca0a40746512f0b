import Moth.Store.Bindings
/-!
# Binding names

What binding a name does to the names that are bound.
-/

namespace Moth.Bindings

variable {α : Type} (bindings : Bindings α)

theorem set_set (name : String) (first second : α) :
    (bindings.set name first).set name second = bindings.set name second := by
  induction bindings with
  | nil => simp [set]
  | cons binding rest ih =>
    obtain ⟨bound, old⟩ := binding
    by_cases h : bound = name <;> simp [set, h, ih]

theorem find?_set (name other : String) (value : α) :
    (bindings.set name value).find? other =
      if name = other then some value else bindings.find? other := by
  by_cases h : name = other
  · rw [if_pos h, ← h, find?_set_self]
  · rw [if_neg h, find?_set_of_ne bindings value h]

theorem binds_set (name other : String) (value : α) :
    (bindings.set name value).binds other ↔ name = other ∨ bindings.binds other := by
  rw [binds, find?_set]
  split <;> simp_all [binds]

variable {bindings}

/-- What is found after a name was bound is what was bound, or was there before. -/
theorem find?_set_cases {name other : String} {value found : α}
    (h : (bindings.set name value).find? other = some found) :
    name = other ∧ found = value ∨ bindings.find? other = some found := by
  rw [find?_set] at h
  split at h
  · next hname => exact .inl ⟨hname, (Option.some.inj h).symm⟩
  · exact .inr h

end Moth.Bindings
