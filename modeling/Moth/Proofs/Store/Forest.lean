import Moth.Proofs.Store.Bindings
import Moth.Store.Forest
/-!
# Forests grow

What a definition and a new scope do to the bindings and to the links of a forest: a
definition changes one binding of one scope, and a new scope is behind all others.
-/

namespace Moth.Forest

variable {α : Type} (forest : Forest α)

theorem enclosing?_define (scope : Nat) (name : String) (value : α) (other : Nat) :
    (forest.define scope name value).enclosing? other = forest.enclosing? other := by
  simp only [enclosing?, define, Array.getElem?_modify]
  by_cases h : scope = other
  · rw [if_pos h]
    cases forest.scopes[other]? <;> rfl
  · rw [if_neg h]

theorem bindings_define (scope : Nat) (name : String) (value : α) (other : Nat) :
    (forest.define scope name value).bindings other =
      if scope = other ∧ scope < forest.next then (forest.bindings scope).set name value
      else forest.bindings other := by
  simp only [bindings, define, next, Array.getElem?_modify]
  by_cases h : scope = other
  · subst h
    rcases Nat.lt_or_ge scope forest.scopes.size with hlt | hge
    · simp [hlt]
    · simp [Nat.not_lt.2 hge]
  · simp [h]

theorem next_define (scope : Nat) (name : String) (value : α) :
    (forest.define scope name value).next = forest.next := by
  simp [next, define]

theorem next_child (scope : Nat) : (forest.child scope).next = forest.next + 1 := by
  simp [next, child]

theorem enclosing?_child (scope other : Nat) :
    (forest.child scope).enclosing? other =
      if other = forest.next then some scope else forest.enclosing? other := by
  have hnext : (other = forest.next) = (other = forest.scopes.size) := rfl
  by_cases h : other = forest.scopes.size
  · rw [if_pos (hnext ▸ h), enclosing?, child, Array.getElem?_push, if_pos h]
  · rw [if_neg (hnext ▸ h), enclosing?, child, Array.getElem?_push, if_neg h, enclosing?]

theorem bindings_child (scope other : Nat) :
    (forest.child scope).bindings other = forest.bindings other := by
  simp only [bindings, child, Array.getElem?_push]
  by_cases h : other = forest.scopes.size
  · rw [if_pos h, h, Array.getElem?_eq_none (Nat.le_refl _)]
  · rw [if_neg h]

theorem bindings_next : forest.bindings forest.next = [] := by
  rw [bindings, next, Array.getElem?_eq_none (Nat.le_refl _)]

variable {forest}

theorem lt_next_of_enclosing? {scope outer : Nat} (h : forest.enclosing? scope = some outer) :
    scope < forest.next := by
  rcases Nat.lt_or_ge scope forest.scopes.size with hlt | hge
  · exact hlt
  · rw [enclosing?, Array.getElem?_eq_none hge] at h
    cases h

theorem find?_define_self {scope : Nat} (h : scope < forest.next) (name : String) (value : α) :
    ((forest.define scope name value).bindings scope).find? name = some value := by
  rw [bindings_define, if_pos ⟨rfl, h⟩, Bindings.find?_set_self]

/-- A definition leaves other names alone, in every scope. -/
theorem find?_define_of_ne {name other : String} (h : name ≠ other) (scope : Nat) (value : α)
    (place : Nat) :
    ((forest.define scope name value).bindings place).find? other =
      (forest.bindings place).find? other := by
  rw [bindings_define]
  split
  · next hscope => rw [Bindings.find?_set_of_ne _ value h, hscope.1]
  · rfl

theorem find?_define_cases {scope place : Nat} {name other : String} {value found : α}
    (h : ((forest.define scope name value).bindings place).find? other = some found) :
    found = value ∨ (forest.bindings place).find? other = some found := by
  rw [bindings_define] at h
  split at h
  · next hscope =>
    rcases Bindings.find?_set_cases h with ⟨-, hvalue⟩ | hold
    · exact .inl hvalue
    · exact .inr (hscope.1 ▸ hold)
  · exact .inr h

/-- A definition takes no name away. -/
theorem binds_define {place : Nat} {other : String} (h : (forest.bindings place).binds other)
    (scope : Nat) (name : String) (value : α) :
    ((forest.define scope name value).bindings place).binds other := by
  rw [bindings_define]
  split
  · next hscope => exact (Bindings.binds_set _ name other value).2 (.inr (hscope.1 ▸ h))
  · exact h

/-! ## Walking outward -/

theorem ancestor_succ {scope outer : Nat} (h : forest.enclosing? scope = some outer)
    (depth : Nat) : forest.ancestor (depth + 1) scope = forest.ancestor depth outer := by
  rw [ancestor, h]

/-- One step further than a known number of steps. -/
theorem ancestor_outer {scope depth found outer : Nat}
    (h : forest.ancestor depth scope = .ok (some found))
    (houter : forest.enclosing? found = some outer) :
    forest.ancestor (depth + 1) scope = .ok (some outer) := by
  induction depth generalizing scope with
  | zero =>
    cases h
    exact ancestor_succ houter 0
  | succ depth ih =>
    rw [ancestor] at h
    split at h
    · next between hbetween =>
      rw [ancestor_succ hbetween]
      exact ih h
    · split at h <;> cases h

theorem getAt_of_ancestor {scope depth found : Nat} {name : String} {value : α}
    (h : forest.ancestor depth scope = .ok (some found))
    (hvalue : (forest.bindings found).find? name = some value) :
    forest.getAt scope depth name = .ok value := by
  rw [getAt, h]
  simp only [hvalue]

end Moth.Forest
