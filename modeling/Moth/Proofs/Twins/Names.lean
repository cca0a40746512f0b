import Mathlib.Logic.Equiv.Basic
import Moth.Eval.Machine
import Moth.Proofs.Store.Forest
/-!
# Scopes under other names

Two forests of one shape whose scopes bind the same values under names that differ by a renaming
for each scope.  The globals keep their names.  Looking a name up at a distance in the one gives
what looking up the renamed name gives in the other, where the renaming is that of the scope at
that distance.
-/

namespace Moth

/-- An exchange of names that leaves `this` and `super` alone. -/
structure Renaming where
  perm : Equiv.Perm String
  this : perm "this" = "this"
  super : perm "super" = "super"

namespace Renaming

instance : CoeFun Renaming fun _ => String → String := ⟨fun ρ => ρ.perm⟩

def same : Renaming := ⟨Equiv.refl String, rfl, rfl⟩

def swap (x y : String) (hx : x ≠ "this" ∧ x ≠ "super") (hy : y ≠ "this" ∧ y ≠ "super") :
    Renaming where
  perm := Equiv.swap x y
  this := Equiv.swap_apply_of_ne_of_ne hx.1.symm hy.1.symm
  super := Equiv.swap_apply_of_ne_of_ne hx.2.symm hy.2.symm

def symm (ρ : Renaming) : Renaming where
  perm := ρ.perm.symm
  this := by rw [Equiv.symm_apply_eq, ρ.this]
  super := by rw [Equiv.symm_apply_eq, ρ.super]

@[simp] theorem same_apply (name : String) : same name = name := rfl

@[simp] theorem symm_same : same.symm = same := rfl

@[simp] theorem symm_symm (ρ : Renaming) : ρ.symm.symm = ρ := rfl

@[simp] theorem symm_apply_apply (ρ : Renaming) (name : String) : ρ.symm (ρ name) = name :=
  ρ.perm.symm_apply_apply name

theorem injective (ρ : Renaming) : Function.Injective ρ := ρ.perm.injective

theorem map_symm_map_symm (ρs : List Renaming) : (ρs.map symm).map symm = ρs := by
  rw [List.map_map]
  exact List.map_id'' symm_symm ρs

/-- The renaming of the scope a number of steps outward.  Beyond the scopes that are known nothing
is renamed. -/
def along (ρs : List Renaming) (hops : Nat) : Renaming := ρs.getD hops same

def through (ρs : List Renaming) : Option Nat → Renaming
  | some hops => Renaming.along ρs hops
  | none => same

@[simp] theorem along_nil (hops : Nat) : Renaming.along [] hops = same := rfl

@[simp] theorem along_zero (ρ : Renaming) (ρs : List Renaming) :
    Renaming.along (ρ :: ρs) 0 = ρ := rfl

@[simp] theorem along_succ (ρ : Renaming) (ρs : List Renaming) (hops : Nat) :
    Renaming.along (ρ :: ρs) (hops + 1) = Renaming.along ρs hops := rfl

theorem along_map_symm (ρs : List Renaming) (hops : Nat) :
    Renaming.along (ρs.map symm) hops = (Renaming.along ρs hops).symm := by
  induction ρs generalizing hops with
  | nil => rfl
  | cons ρ ρs ih => cases hops with
    | zero => rfl
    | succ hops => exact ih hops

theorem through_map_symm (ρs : List Renaming) (hops? : Option Nat) :
    through (ρs.map symm) hops? = (through ρs hops?).symm := by
  cases hops? with
  | none => rfl
  | some hops => exact along_map_symm ρs hops

theorem through_this (ρs : List Renaming) (hops? : Option Nat) :
    through ρs hops? "this" = "this" := (through ρs hops?).this

theorem through_super (ρs : List Renaming) (hops? : Option Nat) :
    through ρs hops? "super" = "super" := (through ρs hops?).super

end Renaming

/-! ## Bindings -/

namespace Bindings

variable {α : Type}

def rename (ρ : Renaming) (bindings : Bindings α) : Bindings α :=
  bindings.map fun binding => (ρ binding.1, binding.2)

@[simp] theorem rename_nil (ρ : Renaming) : rename ρ ([] : Bindings α) = [] := rfl

@[simp] theorem rename_same (bindings : Bindings α) : rename .same bindings = bindings :=
  List.map_id' bindings

theorem find?_rename (ρ : Renaming) (bindings : Bindings α) (name : String) :
    (bindings.rename ρ).find? (ρ name) = bindings.find? name := by
  induction bindings with
  | nil => rfl
  | cons binding rest ih =>
    rw [rename] at ih
    simp only [rename, List.map_cons, find?, ρ.injective.eq_iff, ih]

theorem set_rename (ρ : Renaming) (bindings : Bindings α) (name : String) (value : α) :
    (bindings.rename ρ).set (ρ name) value = (bindings.set name value).rename ρ := by
  induction bindings with
  | nil => rfl
  | cons binding rest ih =>
    rw [rename] at ih
    by_cases h : binding.1 = name <;> simp [rename, set, ρ.injective.eq_iff, ih, h]

end Bindings

/-! ## Forests -/

/-- The other forest has the same scopes, each with its bindings under the names that a renaming
gives them. -/
structure Forest.Renamed (names : Nat → Renaming) (scopes others : Forest Value) : Prop where
  next : others.next = scopes.next
  enclosing : ∀ scope, others.enclosing? scope = scopes.enclosing? scope
  bindings : ∀ scope, others.bindings scope = (scopes.bindings scope).rename (names scope)
  /-- The globals are a scope, in no other, and keep their names. -/
  rooted : Machine.globals < scopes.next
  root : scopes.enclosing? Machine.globals = none
  globals : names Machine.globals = .same

inductive Chained (names : Nat → Renaming) (scopes : Forest Value) :
    Nat → List Renaming → Prop where
  | globals : Chained names scopes Machine.globals []
  | inner {scope outer : Nat} {ρ : Renaming} {ρs : List Renaming} :
      scopes.enclosing? scope = some outer → names scope = ρ → Chained names scopes outer ρs →
      Chained names scopes scope (ρ :: ρs)

/-- Scopes are added, and those that are there stay where they are and keep their renaming. -/
def Widens (names : Nat → Renaming) (scopes : Forest Value) (names' : Nat → Renaming)
    (scopes' : Forest Value) : Prop :=
  ∀ scope outer, scopes.enclosing? scope = some outer →
    scopes'.enclosing? scope = some outer ∧ names' scope = names scope

namespace Widens

variable {names names' names'' : Nat → Renaming} {scopes scopes' scopes'' : Forest Value}

theorem refl (names : Nat → Renaming) (scopes : Forest Value) : Widens names scopes names scopes :=
  fun _ _ h => ⟨h, rfl⟩

theorem trans (h : Widens names scopes names' scopes')
    (h' : Widens names' scopes' names'' scopes'') :
    Widens names scopes names'' scopes'' := by
  intro scope outer houter
  obtain ⟨houter', hname⟩ := h scope outer houter
  obtain ⟨houter'', hname'⟩ := h' scope outer houter'
  exact ⟨houter'', hname'.trans hname⟩

theorem define (names : Nat → Renaming) (scopes : Forest Value) (scope : Nat) (name : String)
    (value : Value) : Widens names scopes names (scopes.define scope name value) :=
  fun other _ h => ⟨(Forest.enclosing?_define scopes scope name value other).trans h, rfl⟩

end Widens

theorem Chained.mono {names names' : Nat → Renaming} {scopes scopes' : Forest Value} {scope : Nat}
    {ρs : List Renaming} (h : Chained names scopes scope ρs)
    (hwidens : Widens names scopes names' scopes') : Chained names' scopes' scope ρs := by
  induction h with
  | globals => exact .globals
  | inner houter hname _ ih =>
    obtain ⟨houter', hname'⟩ := hwidens _ _ houter
    exact .inner houter' (hname'.trans hname) ih

def extendNames (names : Nat → Renaming) (scopes : Forest Value) (ρ : Renaming) : Nat → Renaming :=
  fun scope => if scope = scopes.next then ρ else names scope

namespace Forest.Renamed

variable {names : Nat → Renaming} {scopes others : Forest Value}

theorem define (h : Renamed names scopes others) (scope : Nat) (name : String) (value : Value) :
    Renamed names (scopes.define scope name value)
      (others.define scope (names scope name) value) where
  next := by rw [next_define, next_define, h.next]
  enclosing other := by rw [enclosing?_define, enclosing?_define, h.enclosing]
  bindings other := by
    rw [bindings_define, bindings_define, h.next, h.bindings, h.bindings]
    split
    · next hother => rw [← hother.1, Bindings.set_rename]
    · rfl
  rooted := by rw [next_define]; exact h.rooted
  root := by rw [enclosing?_define]; exact h.root
  globals := h.globals

/-- A new scope can have any renaming. -/
theorem child (h : Renamed names scopes others) (ρ : Renaming) (scope : Nat) :
    Renamed (extendNames names scopes ρ) (scopes.child scope) (others.child scope) where
  next := by rw [next_child, next_child, h.next]
  enclosing other := by rw [enclosing?_child, enclosing?_child, h.next, h.enclosing]
  bindings other := by
    rw [bindings_child, bindings_child, extendNames]
    split
    · next hother =>
      rw [hother, ← h.next, bindings_next, h.next, bindings_next, Bindings.rename_nil]
    · exact h.bindings other
  rooted := by rw [next_child]; exact Nat.lt_succ_of_lt h.rooted
  root := by
    rw [enclosing?_child, if_neg (Nat.ne_of_lt h.rooted)]
    exact h.root
  globals := by
    rw [extendNames, if_neg (Nat.ne_of_lt h.rooted)]
    exact h.globals

theorem widens_child (names : Nat → Renaming) (scopes : Forest Value) (ρ : Renaming) (scope : Nat) :
    Widens names scopes (extendNames names scopes ρ) (scopes.child scope) := by
  intro other outer houter
  have hother : other ≠ scopes.next := Nat.ne_of_lt (lt_next_of_enclosing? houter)
  exact ⟨by rw [enclosing?_child, if_neg hother, houter], if_neg hother⟩

theorem chained_child {ρs : List Renaming} {scope : Nat} (hscope : Chained names scopes scope ρs)
    (ρ : Renaming) :
    Chained (extendNames names scopes ρ) (scopes.child scope) scopes.next (ρ :: ρs) :=
  .inner (by rw [enclosing?_child, if_pos rfl]) (if_pos rfl)
    (hscope.mono (widens_child names scopes ρ scope))

theorem ancestor (h : Renamed names scopes others) (hops scope : Nat) :
    others.ancestor hops scope = scopes.ancestor hops scope := by
  induction hops generalizing scope with
  | zero => rfl
  | succ hops ih =>
    rw [Forest.ancestor, Forest.ancestor, h.enclosing]
    cases scopes.enclosing? scope with
    | none => rfl
    | some outer => exact ih outer

/-- The scope at a distance has the renaming at that distance. -/
theorem names_of_ancestor (h : Renamed names scopes others) {ρs : List Renaming} {scope : Nat}
    (hscope : Chained names scopes scope ρs) {hops found : Nat}
    (hfound : scopes.ancestor hops scope = .ok (some found)) :
    names found = Renaming.along ρs hops := by
  induction hscope generalizing hops with
  | globals =>
    cases hops with
    | zero =>
      simp only [Forest.ancestor, Except.ok.injEq, Option.some.injEq] at hfound
      rw [← hfound, h.globals, Renaming.along_nil]
    | succ hops =>
      simp only [Forest.ancestor, h.root] at hfound
      split at hfound <;> simp at hfound
  | inner houter hname _ ih =>
    cases hops with
    | zero =>
      simp only [Forest.ancestor, Except.ok.injEq, Option.some.injEq] at hfound
      rw [← hfound, hname, Renaming.along_zero]
    | succ hops => exact ih ((ancestor_succ houter hops).symm.trans hfound)

theorem find? (h : Renamed names scopes others) (scope : Nat) (name : String) :
    (others.bindings scope).find? (names scope name) = (scopes.bindings scope).find? name := by
  rw [h.bindings, Bindings.find?_rename]

/-- At a distance the renamed name has the value of the name, or neither has one. -/
theorem getAt (h : Renamed names scopes others) {ρs : List Renaming} {scope : Nat}
    (hscope : Chained names scopes scope ρs) (hops : Nat) (name : String) :
    (others.getAt scope hops (Renaming.along ρs hops name)).toOption =
      (scopes.getAt scope hops name).toOption := by
  rw [Forest.getAt, Forest.getAt, h.ancestor]
  cases hfound : scopes.ancestor hops scope with
  | error cause => rfl
  | ok found? =>
    cases found? with
    | none => rfl
    | some found =>
      simp only
      rw [← h.names_of_ancestor hscope hfound, h.find?]
      cases (scopes.bindings found).find? name <;> rfl

/-- The first scope that binds a name is the very scope, if it binds the name. -/
theorem holder?_of_binds {scopes : Forest Value} {scope : Nat} {name : String}
    (hscope : scope < scopes.next) (h : (scopes.bindings scope).binds name) :
    scopes.holder? scope name = some scope := by
  obtain ⟨steps, hsteps⟩ : ∃ steps, scopes.scopes.size = steps + 1 :=
    Nat.exists_eq_succ_of_ne_zero (Nat.ne_of_gt (Nat.lt_of_le_of_lt (Nat.zero_le _) hscope))
  rw [holder?, hsteps, holderWithin, if_pos h]

/-- The globals stand in no scope, so that a name that is not theirs is nowhere. -/
theorem holder?_globals {scopes : Forest Value} (hrooted : Machine.globals < scopes.next)
    (hroot : scopes.enclosing? Machine.globals = none) (name : String) :
    scopes.holder? Machine.globals name =
      if (scopes.bindings Machine.globals).binds name then some Machine.globals else none := by
  obtain ⟨steps, hsteps⟩ : ∃ steps, scopes.scopes.size = steps + 1 :=
    Nat.exists_eq_succ_of_ne_zero (Nat.ne_of_gt (Nat.lt_of_le_of_lt (Nat.zero_le _) hrooted))
  rw [holder?, hsteps, holderWithin, hroot]

theorem bindings_globals (h : Renamed names scopes others) :
    others.bindings Machine.globals = scopes.bindings Machine.globals := by
  rw [h.bindings, h.globals, Bindings.rename_same]

theorem holder?_globals_eq (h : Renamed names scopes others) (name : String) :
    others.holder? Machine.globals name = scopes.holder? Machine.globals name := by
  rw [holder?_globals h.rooted h.root, holder?_globals (h.next.symm ▸ h.rooted)
    ((h.enclosing _).trans h.root), h.bindings_globals]

theorem get_globals (h : Renamed names scopes others) (name : String) :
    others.get Machine.globals name = scopes.get Machine.globals name := by
  rw [Forest.get, Forest.get, h.holder?_globals_eq, holder?_globals h.rooted h.root]
  by_cases hbinds : (scopes.bindings Machine.globals).binds name
  · rw [if_pos hbinds, Option.bind_some, Option.bind_some, h.bindings_globals]
  · rw [if_neg hbinds, Option.bind_none, Option.bind_none]

end Forest.Renamed

end Moth
