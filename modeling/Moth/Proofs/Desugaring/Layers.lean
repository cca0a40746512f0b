import Moth.Proofs.Twins.Names
/-!
# Scopes of different depth

Two forests in which some scopes are paired.  On the way outward one forest may have scopes that
the other has not, so that scopes that are paired stand at different distances.  The layers of a
chain say which scopes are on both sides (`Aligned`), and so which distances lead to paired scopes
(`Meet`).
-/

namespace Moth

namespace Forest

variable {forest : Forest Value} {scope found : Nat}

theorem enclosing?_child_of_some (outer : Nat) (h : forest.enclosing? scope = some found) :
    (forest.child outer).enclosing? scope = some found := by
  rw [enclosing?_child, if_neg (Nat.ne_of_lt (lt_next_of_enclosing? h)), h]

theorem enclosing?_child_of_none (outer : Nat) (hscope : scope < forest.next)
    (h : forest.enclosing? scope = none) : (forest.child outer).enclosing? scope = none := by
  rw [enclosing?_child, if_neg (Nat.ne_of_lt hscope), h]

theorem enclosing?_child_next (forest : Forest Value) (outer : Nat) :
    (forest.child outer).enclosing? forest.next = some outer := by
  rw [enclosing?_child, if_pos rfl]

end Forest

/-- A step outward: through paired scopes, or through a scope that only one side has. -/
inductive Layer where
  | both
  | left
  | right
deriving DecidableEq

/-- The two distances lead through the layers to paired scopes. -/
inductive Meet : List Layer → Nat → Nat → Prop where
  | here {layers : List Layer} : Meet (.both :: layers) 0 0
  | both {layers : List Layer} {hops hops' : Nat} :
      Meet layers hops hops' → Meet (.both :: layers) (hops + 1) (hops' + 1)
  | left {layers : List Layer} {hops hops' : Nat} :
      Meet layers hops hops' → Meet (.left :: layers) (hops + 1) hops'
  | right {layers : List Layer} {hops hops' : Nat} :
      Meet layers hops hops' → Meet (.right :: layers) hops (hops' + 1)

/-- The innermost scopes are paired.  Where no layer is left they are the globals. -/
def SharedHere : List Layer → Prop
  | [] | .both :: _ => True
  | .left :: _ | .right :: _ => False

inductive Aligned (pairing : Nat → Nat → Prop) (scopes others : Forest Value) :
    List Layer → Nat → Nat → Prop where
  | globals : Aligned pairing scopes others [] Machine.globals Machine.globals
  | both {layers : List Layer} {scope scope' outer outer' : Nat} : pairing scope scope' →
      scopes.enclosing? scope = some outer → others.enclosing? scope' = some outer' →
      Aligned pairing scopes others layers outer outer' →
      Aligned pairing scopes others (.both :: layers) scope scope'
  | left {layers : List Layer} {scope scope' outer : Nat} :
      scopes.enclosing? scope = some outer → Aligned pairing scopes others layers outer scope' →
      Aligned pairing scopes others (.left :: layers) scope scope'
  | right {layers : List Layer} {scope scope' outer' : Nat} :
      others.enclosing? scope' = some outer' → Aligned pairing scopes others layers scope outer' →
      Aligned pairing scopes others (.right :: layers) scope scope'

structure Beside where
  scopes : Forest Value
  others : Forest Value
  pairing : Nat → Nat → Prop

namespace Beside

/-- A scope has at most one partner, with the same bindings.  The globals are paired, and stand in
no scope. -/
structure Paired (beside : Beside) : Prop where
  globals : beside.pairing Machine.globals Machine.globals
  inside : ∀ {scope scope'}, beside.pairing scope scope' →
    scope < beside.scopes.next ∧ scope' < beside.others.next
  unique : ∀ {scope scope' other other'}, beside.pairing scope scope' →
    beside.pairing other other' → (other = scope ↔ other' = scope')
  bindings : ∀ {scope scope'}, beside.pairing scope scope' →
    beside.others.bindings scope' = beside.scopes.bindings scope
  root : beside.scopes.enclosing? Machine.globals = none
  root' : beside.others.enclosing? Machine.globals = none

/-- Scopes and pairs are added, and none is taken away. -/
structure Widens (beside later : Beside) : Prop where
  scopes : ∀ scope outer, beside.scopes.enclosing? scope = some outer →
    later.scopes.enclosing? scope = some outer
  others : ∀ scope outer, beside.others.enclosing? scope = some outer →
    later.others.enclosing? scope = some outer
  pairing : ∀ scope scope', beside.pairing scope scope' → later.pairing scope scope'
  next : beside.scopes.next ≤ later.scopes.next
  next' : beside.others.next ≤ later.others.next

abbrev Chains (beside : Beside) : List Layer → Nat → Nat → Prop :=
  Aligned beside.pairing beside.scopes beside.others

variable {beside later latest : Beside} {layers : List Layer} {scope scope' : Nat}

theorem Widens.refl (beside : Beside) : beside.Widens beside :=
  ⟨fun _ _ h => h, fun _ _ h => h, fun _ _ h => h, Nat.le_refl _, Nat.le_refl _⟩

theorem Widens.trans (h : beside.Widens later) (h' : later.Widens latest) :
    beside.Widens latest where
  scopes scope outer henclosing := h'.scopes scope outer (h.scopes scope outer henclosing)
  others scope outer henclosing := h'.others scope outer (h.others scope outer henclosing)
  pairing scope scope' hpair := h'.pairing scope scope' (h.pairing scope scope' hpair)
  next := Nat.le_trans h.next h'.next
  next' := Nat.le_trans h.next' h'.next'

theorem Chains.mono (h : beside.Chains layers scope scope') (hwidens : beside.Widens later) :
    later.Chains layers scope scope' := by
  induction h with
  | globals => exact .globals
  | both hpair houter houter' _ ih =>
    exact .both (hwidens.pairing _ _ hpair) (hwidens.scopes _ _ houter)
      (hwidens.others _ _ houter') ih
  | left houter _ ih => exact .left (hwidens.scopes _ _ houter) ih
  | right houter' _ ih => exact .right (hwidens.others _ _ houter') ih

/-- Where two distances meet, they lead to paired scopes. -/
theorem Chains.ancestor (h : beside.Chains layers scope scope') {hops hops' : Nat}
    (hmeet : Meet layers hops hops') :
    ∃ found found', beside.scopes.ancestor hops scope = .ok (some found) ∧
      beside.others.ancestor hops' scope' = .ok (some found') ∧ beside.pairing found found' := by
  induction h generalizing hops hops' with
  | globals => cases hmeet
  | @both layers scope scope' outer outer' hpair houter houter' _ ih =>
    cases hmeet with
    | here => exact ⟨scope, scope', rfl, rfl, hpair⟩
    | both hmeet =>
      rw [Forest.ancestor_succ houter, Forest.ancestor_succ houter']
      exact ih hmeet
  | left houter _ ih =>
    cases hmeet with
    | left hmeet =>
      rw [Forest.ancestor_succ houter]
      exact ih hmeet
  | right houter' _ ih =>
    cases hmeet with
    | right hmeet =>
      rw [Forest.ancestor_succ houter']
      exact ih hmeet

theorem Chains.pair (h : beside.Chains layers scope scope') (hpaired : beside.Paired)
    (hshared : SharedHere layers) : beside.pairing scope scope' := by
  cases h with
  | globals => exact hpaired.globals
  | both hpair => exact hpair
  | left | right => exact hshared.elim

namespace Paired

variable (h : beside.Paired)
include h

/-- At distances that meet a name has the same value, or none on either side. -/
theorem getAt (hchains : beside.Chains layers scope scope') {hops hops' : Nat}
    (hmeet : Meet layers hops hops') (name : String) :
    beside.others.getAt scope' hops' name = beside.scopes.getAt scope hops name := by
  obtain ⟨found, found', hfound, hfound', hpair⟩ := hchains.ancestor hmeet
  rw [Forest.getAt, Forest.getAt, hfound, hfound']
  simp only [h.bindings hpair]

theorem holder?_globals (name : String) :
    beside.others.holder? Machine.globals name = beside.scopes.holder? Machine.globals name := by
  rw [Forest.Renamed.holder?_globals (h.inside h.globals).1 h.root,
    Forest.Renamed.holder?_globals (h.inside h.globals).2 h.root', h.bindings h.globals]

theorem holder?_pair {found : Nat} {name : String}
    (hholder : beside.scopes.holder? Machine.globals name = some found) :
    beside.pairing found found := by
  rw [Forest.Renamed.holder?_globals (h.inside h.globals).1 h.root] at hholder
  split at hholder
  · rw [← Option.some.inj hholder]
    exact h.globals
  · cases hholder

theorem get_globals (name : String) :
    beside.others.get Machine.globals name = beside.scopes.get Machine.globals name := by
  rw [Forest.get, Forest.get, h.holder?_globals]
  cases hholder : beside.scopes.holder? Machine.globals name with
  | none => rfl
  | some found => rw [Option.bind_some, Option.bind_some, h.bindings (h.holder?_pair hholder)]

end Paired

/-! ## Definitions and new scopes -/

def define (beside : Beside) (scope scope' : Nat) (name : String) (value : Value) : Beside where
  scopes := beside.scopes.define scope name value
  others := beside.others.define scope' name value
  pairing := beside.pairing

def child (beside : Beside) (outer outer' : Nat) : Beside where
  scopes := beside.scopes.child outer
  others := beside.others.child outer'
  pairing scope scope' := beside.pairing scope scope' ∨
    scope = beside.scopes.next ∧ scope' = beside.others.next

def childLeft (beside : Beside) (outer : Nat) : Beside :=
  { beside with scopes := beside.scopes.child outer }

def childRight (beside : Beside) (outer : Nat) : Beside :=
  { beside with others := beside.others.child outer }

variable {outer outer' : Nat}

theorem Widens.define (beside : Beside) (scope scope' : Nat) (name : String) (value : Value) :
    beside.Widens (beside.define scope scope' name value) where
  scopes _ _ h := (Forest.enclosing?_define _ _ _ _ _).trans h
  others _ _ h := (Forest.enclosing?_define _ _ _ _ _).trans h
  pairing _ _ h := h
  next := Nat.le_of_eq (Forest.next_define _ _ _ _).symm
  next' := Nat.le_of_eq (Forest.next_define _ _ _ _).symm

theorem Widens.childLeft (beside : Beside) (outer : Nat) :
    beside.Widens (beside.childLeft outer) where
  scopes _ _ h := Forest.enclosing?_child_of_some outer h
  others _ _ h := h
  pairing _ _ h := h
  next := by rw [Beside.childLeft, Forest.next_child]; exact Nat.le_succ _
  next' := Nat.le_refl _

theorem Widens.childRight (beside : Beside) (outer : Nat) :
    beside.Widens (beside.childRight outer) where
  scopes _ _ h := h
  others _ _ h := Forest.enclosing?_child_of_some outer h
  pairing _ _ h := h
  next := Nat.le_refl _
  next' := by rw [Beside.childRight, Forest.next_child]; exact Nat.le_succ _

theorem Widens.child (beside : Beside) (outer outer' : Nat) :
    beside.Widens (beside.child outer outer') where
  scopes _ _ h := Forest.enclosing?_child_of_some outer h
  others _ _ h := Forest.enclosing?_child_of_some outer' h
  pairing _ _ h := .inl h
  next := by rw [Beside.child, Forest.next_child]; exact Nat.le_succ _
  next' := by rw [Beside.child, Forest.next_child]; exact Nat.le_succ _

theorem Chains.child (h : beside.Chains layers outer outer') :
    (beside.child outer outer').Chains (.both :: layers) beside.scopes.next beside.others.next :=
  .both (.inr ⟨rfl, rfl⟩) (Forest.enclosing?_child_next _ outer)
    (Forest.enclosing?_child_next _ outer') (h.mono (.child beside outer outer'))

theorem Chains.childLeft (h : beside.Chains layers outer scope') :
    (beside.childLeft outer).Chains (.left :: layers) beside.scopes.next scope' :=
  .left (Forest.enclosing?_child_next _ outer) (h.mono (.childLeft beside outer))

theorem Chains.childRight (h : beside.Chains layers scope outer') :
    (beside.childRight outer').Chains (.right :: layers) scope beside.others.next :=
  .right (Forest.enclosing?_child_next _ outer') (h.mono (.childRight beside outer'))

namespace Paired

variable (h : beside.Paired)
include h

/-- Binding a name in paired scopes changes no other scope on either side. -/
theorem define (hpair : beside.pairing scope scope') (name : String) (value : Value) :
    (beside.define scope scope' name value).Paired where
  globals := h.globals
  inside hother := by
    rw [Beside.define, Forest.next_define, Forest.next_define]
    exact h.inside hother
  unique := h.unique
  bindings {other other'} hother := by
    have hinside := h.inside hpair
    have hsame : (scope = other ∧ scope < beside.scopes.next) =
        (scope' = other' ∧ scope' < beside.others.next) := by
      simp only [hinside, and_true, eq_comm (a := scope), eq_comm (a := scope'), eq_iff_iff]
      exact h.unique hpair hother
    rw [Beside.define, Forest.bindings_define, Forest.bindings_define, h.bindings hpair,
      h.bindings hother]
    simp only [hsame]
  root := (Forest.enclosing?_define _ _ _ _ _).trans h.root
  root' := (Forest.enclosing?_define _ _ _ _ _).trans h.root'

theorem childLeft (outer : Nat) : (beside.childLeft outer).Paired where
  globals := h.globals
  inside hpair := by
    rw [Beside.childLeft, Forest.next_child]
    exact ⟨Nat.lt_succ_of_lt (h.inside hpair).1, (h.inside hpair).2⟩
  unique := h.unique
  bindings hpair := (h.bindings hpair).trans (Forest.bindings_child _ outer _).symm
  root := Forest.enclosing?_child_of_none outer (h.inside h.globals).1 h.root
  root' := h.root'

theorem childRight (outer : Nat) : (beside.childRight outer).Paired where
  globals := h.globals
  inside hpair := by
    rw [Beside.childRight, Forest.next_child]
    exact ⟨(h.inside hpair).1, Nat.lt_succ_of_lt (h.inside hpair).2⟩
  unique := h.unique
  bindings hpair := (Forest.bindings_child _ outer _).trans (h.bindings hpair)
  root := h.root
  root' := Forest.enclosing?_child_of_none outer (h.inside h.globals).2 h.root'

/-- The new scopes bind nothing yet, and no scope was paired with either. -/
theorem child (outer outer' : Nat) : (beside.child outer outer').Paired where
  globals := .inl h.globals
  inside hpair := by
    rw [Beside.child, Forest.next_child, Forest.next_child]
    rcases hpair with hpair | ⟨rfl, rfl⟩
    · exact ⟨Nat.lt_succ_of_lt (h.inside hpair).1, Nat.lt_succ_of_lt (h.inside hpair).2⟩
    · exact ⟨Nat.lt_succ_self _, Nat.lt_succ_self _⟩
  unique hpair hother := by
    rcases hpair with hpair | ⟨rfl, rfl⟩ <;> rcases hother with hother | ⟨rfl, rfl⟩
    · exact h.unique hpair hother
    · have hinside := h.inside hpair
      omega
    · have hinside := h.inside hother
      omega
    · simp
  bindings hpair := by
    rw [Beside.child, Forest.bindings_child, Forest.bindings_child]
    rcases hpair with hpair | ⟨rfl, rfl⟩
    · exact h.bindings hpair
    · rw [Forest.bindings_next, Forest.bindings_next]
  root := Forest.enclosing?_child_of_none outer (h.inside h.globals).1 h.root
  root' := Forest.enclosing?_child_of_none outer' (h.inside h.globals).2 h.root'

end Paired

end Beside

end Moth
