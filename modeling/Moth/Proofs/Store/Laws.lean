import Moth.Proofs.Store.Forest
/-!
# The laws of the store

A forest is built by making scopes and by binding names.  Searching outward for a name stops at
the nearest scope that binds it, so searching and going the known distance come to the same cell.
Changing that cell changes nothing else, and is seen from exactly the scopes whose search stops
there.
-/

namespace Moth.Forest

variable {α : Type}

/-! ## Building forests -/

inductive Step (α : Type) where
  | child (scope : Nat)
  | define (scope : Nat) (name : String) (value : α)
  | assign (scope : Nat) (name : String) (value : α)
  | assignAt (scope depth : Nat) (name : String) (value : α)

namespace Step

def scope : Step α → Nat
  | child scope | define scope _ _ | assign scope _ _ | assignAt scope _ _ _ => scope

/-- The forest after a step; a step that fails leaves the forest as it was. -/
def take (forest : Forest α) : Step α → Except ScopeError (Forest α)
  | child scope => .ok (forest.child scope)
  | define scope name value => .ok (forest.define scope name value)
  | assign scope name value => forest.assign scope name value
  | assignAt scope depth name value => forest.assignAt scope depth name value

/-- The one cell that a step may bind although it was not bound before. -/
def Adds (forest : Forest α) (place : Nat) (name : String) : Step α → Prop
  | child _ | assign _ _ _ => False
  | define scope bound _ => place = scope ∧ name = bound
  | assignAt scope depth bound _ => forest.ancestor depth scope = .ok (some place) ∧ name = bound

end Step

/-- Forests made from outermost scopes by any sequence of steps. -/
inductive Built : Forest α → Prop where
  | outermost (count : Nat) : Built ⟨Array.replicate count ⟨[], none⟩⟩
  | step {forest after : Forest α} (hforest : Built forest) (step : Step α)
      (hscope : step.scope < forest.next) (htake : step.take forest = .ok after) : Built after

/-! ## The nearest binding -/

def BindsAt (forest : Forest α) (scope depth : Nat) (name : String) : Prop :=
  ∃ found, forest.ancestor depth scope = .ok (some found) ∧ (forest.bindings found).binds name

/-- The scope found at a distance binds the name, and none at a lesser distance does. -/
structure Nearest (forest : Forest α) (scope : Nat) (name : String) (depth found : Nat) :
    Prop where
  ancestor : forest.ancestor depth scope = .ok (some found)
  binds : (forest.bindings found).binds name
  least : ∀ less < depth, ¬ forest.BindsAt scope less name

variable {forest changed : Forest α} {scope outer place depth found : Nat} {name : String}

theorem bindsAt_zero : forest.BindsAt scope 0 name ↔ (forest.bindings scope).binds name := by
  constructor
  · rintro ⟨found, hfound, hbinds⟩
    cases hfound
    exact hbinds
  · exact fun hbinds => ⟨scope, rfl, hbinds⟩

theorem bindsAt_succ (h : forest.enclosing? scope = some outer) :
    forest.BindsAt scope (depth + 1) name ↔ forest.BindsAt outer depth name := by
  rw [BindsAt, BindsAt, ancestor_succ h]

/-- Nothing is bound further out than the outermost scope. -/
theorem not_bindsAt_succ (h : forest.enclosing? scope = none) :
    ¬ forest.BindsAt scope (depth + 1) name := by
  rintro ⟨found, hfound, -⟩
  rw [ancestor, h] at hfound
  simp only at hfound
  split at hfound <;> cases hfound

theorem Nearest.bindsAt (h : forest.Nearest scope name depth found) :
    forest.BindsAt scope depth name :=
  ⟨found, h.ancestor, h.binds⟩

theorem Nearest.unique {depth' found' : Nat} (h : forest.Nearest scope name depth found)
    (h' : forest.Nearest scope name depth' found') : depth' = depth ∧ found' = found := by
  have hdepth : depth' = depth := by
    rcases Nat.lt_trichotomy depth' depth with hlt | heq | hgt
    · exact absurd h'.bindsAt (h.least depth' hlt)
    · exact heq
    · exact absurd h.bindsAt (h'.least depth hgt)
  subst hdepth
  have hfound := h'.ancestor.symm.trans h.ancestor
  exact ⟨rfl, by simpa using hfound⟩

theorem nearest_zero (h : (forest.bindings scope).binds name) :
    forest.Nearest scope name 0 scope :=
  ⟨rfl, h, fun less hless => absurd hless (Nat.not_lt_zero less)⟩

theorem Nearest.outward (h : forest.Nearest outer name depth found)
    (houter : forest.enclosing? scope = some outer)
    (hscope : ¬ (forest.bindings scope).binds name) :
    forest.Nearest scope name (depth + 1) found := by
  refine ⟨by rw [ancestor_succ houter, h.ancestor], h.binds, ?_⟩
  rintro (_ | less) hless
  · rwa [bindsAt_zero]
  · rw [bindsAt_succ houter]
    exact h.least less (Nat.lt_of_succ_lt_succ hless)

/-- Where a name is bound at some distance, it is bound at a least one. -/
theorem BindsAt.nearest (h : forest.BindsAt scope depth name) :
    ∃ least found, forest.Nearest scope name least found := by
  induction depth generalizing scope with
  | zero => exact ⟨0, scope, nearest_zero (bindsAt_zero.1 h)⟩
  | succ depth ih =>
    by_cases hscope : (forest.bindings scope).binds name
    · exact ⟨0, scope, nearest_zero hscope⟩
    cases houter : forest.enclosing? scope with
    | none => exact absurd h (not_bindsAt_succ houter)
    | some outer =>
      obtain ⟨least, found, hnearest⟩ := ih ((bindsAt_succ houter).1 h)
      exact ⟨least + 1, found, hnearest.outward houter hscope⟩

/-! ## Links lead to earlier scopes -/

def Descends (forest : Forest α) : Prop :=
  ∀ scope outer, forest.enclosing? scope = some outer → outer < scope

theorem Descends.define (h : forest.Descends) (scope : Nat) (name : String) (value : α) :
    (forest.define scope name value).Descends := by
  intro inner outer houter
  rw [enclosing?_define] at houter
  exact h inner outer houter

theorem Descends.child (h : forest.Descends) (hscope : scope < forest.next) :
    (forest.child scope).Descends := by
  intro inner outer houter
  rw [enclosing?_child] at houter
  split at houter
  · next hinner =>
    cases houter
    rwa [hinner]
  · exact h inner outer houter

theorem assign_eq_ok {value : α} (h : forest.assign scope name value = .ok changed) :
    ∃ holder, forest.holder? scope name = some holder ∧
      changed = forest.define holder name value := by
  rw [assign] at h
  split at h
  · next holder hholder =>
    cases h
    exact ⟨holder, hholder, rfl⟩
  · cases h

theorem assignAt_eq_ok {value : α} (h : forest.assignAt scope depth name value = .ok changed) :
    ∃ found, forest.ancestor depth scope = .ok (some found) ∧
      changed = forest.define found name value := by
  rw [assignAt] at h
  split at h
  · next found hfound =>
    cases h
    exact ⟨found, hfound, rfl⟩
  · cases h
  · cases h

theorem Built.descends (h : Built forest) : forest.Descends := by
  induction h with
  | outermost count =>
    intro scope outer houter
    rw [enclosing?, Array.getElem?_replicate] at houter
    split at houter
    · next found hfound =>
      split at hfound
      · cases hfound
        cases houter
      · cases hfound
    · cases houter
  | step hforest step hscope htake ih =>
    cases step with
    | child scope =>
      cases htake
      exact ih.child hscope
    | define scope name value =>
      cases htake
      exact ih.define scope name value
    | assign scope name value =>
      obtain ⟨holder, -, rfl⟩ := assign_eq_ok htake
      exact ih.define holder name value
    | assignAt scope depth name value =>
      obtain ⟨found, -, rfl⟩ := assignAt_eq_ok htake
      exact ih.define found name value

/-! ## Searching outward -/

theorem binds_lt_next (h : (forest.bindings place).binds name) : place < forest.next := by
  rcases Nat.lt_or_ge place forest.scopes.size with hlt | hge
  · exact hlt
  · rw [bindings, Array.getElem?_eq_none hge] at h
    cases h

/-- What a search finds is the nearest binding. -/
theorem nearest_of_holderWithin {steps : Nat}
    (h : forest.holderWithin name steps scope = some found) :
    ∃ depth, forest.Nearest scope name depth found := by
  induction steps generalizing scope with
  | zero => cases h
  | succ steps ih =>
    rw [holderWithin] at h
    split at h
    · next hscope =>
      cases h
      exact ⟨0, nearest_zero hscope⟩
    · next hscope =>
      split at h
      · next outer houter =>
        obtain ⟨depth, hnearest⟩ := ih h
        exact ⟨depth + 1, hnearest.outward houter hscope⟩
      · cases h

/-- As the numbers fall on the way outward, a search of more steps than the number of its first
scope passes no binding by. -/
theorem holderWithin_isSome (hdescends : forest.Descends) {steps : Nat} (hsteps : scope < steps)
    (h : forest.BindsAt scope depth name) :
    ∃ found, forest.holderWithin name steps scope = some found := by
  induction steps generalizing scope depth with
  | zero => exact absurd hsteps (Nat.not_lt_zero scope)
  | succ steps ih =>
    rw [holderWithin]
    by_cases hscope : (forest.bindings scope).binds name
    · exact ⟨scope, if_pos hscope⟩
    rw [if_neg hscope]
    cases depth with
    | zero => exact absurd (bindsAt_zero.1 h) hscope
    | succ depth =>
      cases houter : forest.enclosing? scope with
      | none => exact absurd h (not_bindsAt_succ houter)
      | some outer =>
        have hless : outer < scope := hdescends scope outer houter
        exact ih (by omega) ((bindsAt_succ houter).1 h)

theorem BindsAt.lt_next (h : forest.BindsAt scope depth name) : scope < forest.next := by
  cases depth with
  | zero => exact binds_lt_next (bindsAt_zero.1 h)
  | succ depth =>
    cases houter : forest.enclosing? scope with
    | none => exact absurd h (not_bindsAt_succ houter)
    | some outer => exact lt_next_of_enclosing? houter

theorem Built.holder?_eq_some_iff (h : Built forest) :
    forest.holder? scope name = some found ↔ ∃ depth, forest.Nearest scope name depth found := by
  constructor
  · exact nearest_of_holderWithin
  · rintro ⟨depth, hnearest⟩
    obtain ⟨other, hother⟩ :=
      holderWithin_isSome h.descends hnearest.bindsAt.lt_next hnearest.bindsAt
    obtain ⟨_, hnearest'⟩ := nearest_of_holderWithin hother
    rw [holder?, ← (hnearest.unique hnearest').2]
    exact hother

theorem Built.holder?_eq_none (h : Built forest)
    (hnone : ∀ depth, ¬ forest.BindsAt scope depth name) :
    forest.holder? scope name = none := by
  cases hholder : forest.holder? scope name with
  | none => rfl
  | some found =>
    obtain ⟨depth, hnearest⟩ := h.holder?_eq_some_iff.1 hholder
    exact absurd hnearest.bindsAt (hnone depth)

theorem Nearest.get_eq (h : forest.Nearest scope name depth found) (hbuilt : Built forest)
    {value : α} (hvalue : (forest.bindings found).find? name = some value) :
    forest.get scope name = .ok value := by
  rw [get, hbuilt.holder?_eq_some_iff.2 ⟨depth, h⟩, Option.bind_some, hvalue]

theorem Built.get_eq_error (h : Built forest)
    (hnone : ∀ depth, ¬ forest.BindsAt scope depth name) :
    forest.get scope name = .error (.undefined name) := by
  rw [get, h.holder?_eq_none hnone, Option.bind_none]

theorem Nearest.assign_eq (h : forest.Nearest scope name depth found) (hbuilt : Built forest)
    (value : α) : forest.assign scope name value = .ok (forest.define found name value) := by
  rw [assign, hbuilt.holder?_eq_some_iff.2 ⟨depth, h⟩]

theorem assignAt_of_ancestor (h : forest.ancestor depth scope = .ok (some found)) (name : String)
    (value : α) :
    forest.assignAt scope depth name value = .ok (forest.define found name value) := by
  rw [assignAt, h]

/-! ## Changing one cell -/

/-- The second forest has another value in one cell, and is otherwise the first. -/
structure Differs (place : Nat) (name : String) (value : α) (forest changed : Forest α) :
    Prop where
  cells : ∀ scope other, (changed.bindings scope).find? other =
    if scope = place ∧ other = name then some value else (forest.bindings scope).find? other
  links : ∀ scope, changed.enclosing? scope = forest.enclosing? scope
  next : changed.next = forest.next

theorem differs_define (h : place < forest.next) (name : String) (value : α) :
    Differs place name value forest (forest.define place name value) := by
  refine ⟨fun scope other => ?_, enclosing?_define forest place name value,
    next_define forest place name value⟩
  by_cases hname : name = other
  · subst hname
    rw [bindings_define]
    by_cases hplace : place = scope
    · subst hplace
      rw [if_pos ⟨rfl, h⟩, if_pos ⟨rfl, rfl⟩, Bindings.find?_set_self]
    · rw [if_neg fun hboth => hplace hboth.1, if_neg fun hboth => hplace hboth.1.symm]
  · rw [find?_define_of_ne hname, if_neg fun hboth => hname hboth.2.symm]

variable {value : α}

theorem Differs.ancestor (h : Differs place name value forest changed) (depth scope : Nat) :
    changed.ancestor depth scope = forest.ancestor depth scope := by
  induction depth generalizing scope with
  | zero => rfl
  | succ depth ih =>
    rw [Forest.ancestor, Forest.ancestor, h.links]
    cases forest.enclosing? scope with
    | none => rfl
    | some outer => exact ih outer

theorem Differs.binds_iff (h : Differs place name value forest changed) (scope : Nat)
    (other : String) : (changed.bindings scope).binds other ↔
      (forest.bindings scope).binds other ∨ scope = place ∧ other = name := by
  rw [Bindings.binds, h.cells, Bindings.binds]
  by_cases hcell : scope = place ∧ other = name
  · simp [hcell]
  · simp [hcell]

/-- A change of a cell that was bound leaves every search to stop where it did. -/
theorem Differs.nearest_iff (h : Differs place name value forest changed)
    (hplace : (forest.bindings place).binds name) {other : String} :
    changed.Nearest scope other depth found ↔ forest.Nearest scope other depth found := by
  have hbinds (scope : Nat) :
      (changed.bindings scope).binds other ↔ (forest.bindings scope).binds other := by
    rw [h.binds_iff]
    constructor
    · rintro (hbinds | ⟨rfl, rfl⟩)
      · exact hbinds
      · exact hplace
    · exact .inl
  have hbindsAt (depth : Nat) :
      changed.BindsAt scope depth other ↔ forest.BindsAt scope depth other := by
    simp only [BindsAt, h.ancestor, hbinds]
  constructor
  · rintro ⟨hancestor, hfound, hleast⟩
    rw [h.ancestor] at hancestor
    exact ⟨hancestor, (hbinds found).1 hfound, fun less hless hless' =>
      hleast less hless ((hbindsAt less).2 hless')⟩
  · rintro ⟨hancestor, hfound, hleast⟩
    rw [← h.ancestor] at hancestor
    exact ⟨hancestor, (hbinds found).2 hfound, fun less hless hless' =>
      hleast less hless ((hbindsAt less).1 hless')⟩

/-- The change is seen from the scopes whose search stops at the cell, and from no other. -/
theorem Differs.get_eq (h : Differs place name value forest changed) (hforest : Built forest)
    (hchanged : Built changed) (hplace : (forest.bindings place).binds name) (scope : Nat)
    (other : String) :
    ((other = name ∧ ∃ depth, forest.Nearest scope other depth place) →
      changed.get scope other = .ok value) ∧
    (¬ (other = name ∧ ∃ depth, forest.Nearest scope other depth place) →
      changed.get scope other = forest.get scope other) := by
  constructor
  · rintro ⟨rfl, depth, hnearest⟩
    refine ((h.nearest_iff hplace).2 hnearest).get_eq hchanged ?_
    rw [h.cells, if_pos ⟨rfl, rfl⟩]
  · intro helse
    by_cases hbound : ∃ depth, forest.BindsAt scope depth other
    · obtain ⟨depth, hbound⟩ := hbound
      obtain ⟨least, found, hnearest⟩ := hbound.nearest
      obtain ⟨old, hold⟩ := Option.isSome_iff_exists.1 hnearest.binds
      rw [hnearest.get_eq hforest hold]
      refine ((h.nearest_iff hplace).2 hnearest).get_eq hchanged ?_
      rw [h.cells, if_neg ?_, hold]
      rintro ⟨rfl, rfl⟩
      exact helse ⟨rfl, least, hnearest⟩
    · have hnone : ∀ depth, ¬ forest.BindsAt scope depth other := not_exists.1 hbound
      rw [hforest.get_eq_error hnone, hchanged.get_eq_error]
      intro depth hbinds
      obtain ⟨least, found, hnearest⟩ := hbinds.nearest
      exact hnone least ((h.nearest_iff hplace).1 hnearest).bindsAt

/-! ## What a step keeps -/

/-- No scope loses a binding or gets another link; the bindings that come are the given ones. -/
structure Extends (adds : Nat → String → Prop) (forest after : Forest α) : Prop where
  binds_iff : ∀ place name, (after.bindings place).binds name ↔
    (forest.bindings place).binds name ∨ adds place name
  links : ∀ place < forest.next, after.enclosing? place = forest.enclosing? place
  next : forest.next ≤ after.next

theorem Differs.extends (h : Differs place name value forest changed)
    {adds : Nat → String → Prop} (hadds : ∀ scope other, adds scope other ∨
      (forest.bindings scope).binds other ↔
        scope = place ∧ other = name ∨ (forest.bindings scope).binds other) :
    Extends adds forest changed := by
  refine ⟨fun scope other => ?_, fun scope _ => h.links scope, Nat.le_of_eq h.next.symm⟩
  rw [h.binds_iff, or_comm, ← hadds, or_comm]

/-- The scope at a distance is one that there is. -/
theorem ancestor_lt_next (hdescends : forest.Descends) (hscope : scope < forest.next)
    (h : forest.ancestor depth scope = .ok (some found)) : found < forest.next := by
  induction depth generalizing scope with
  | zero =>
    cases h
    exact hscope
  | succ depth ih =>
    cases houter : forest.enclosing? scope with
    | none =>
      rw [ancestor, houter] at h
      simp only at h
      split at h <;> cases h
    | some outer =>
      rw [ancestor_succ houter] at h
      exact ih (Nat.lt_trans (hdescends scope outer houter) hscope) h

theorem Built.take_extends (h : Built forest) {step : Step α} (hscope : step.scope < forest.next)
    {after : Forest α} (htake : step.take forest = .ok after) :
    Extends (fun place name => step.Adds forest place name) forest after := by
  cases step with
  | child scope =>
    cases htake
    refine ⟨fun place name => ?_, fun place hplace => ?_, ?_⟩
    · rw [bindings_child, Step.Adds, or_false]
    · rw [enclosing?_child, if_neg (Nat.ne_of_lt hplace)]
    · rw [next_child]
      exact Nat.le_succ forest.next
  | define scope name value =>
    cases htake
    exact (differs_define hscope name value).extends fun place other => Iff.rfl
  | assign scope name value =>
    obtain ⟨holder, hholder, rfl⟩ := assign_eq_ok htake
    obtain ⟨depth, hnearest⟩ := h.holder?_eq_some_iff.1 hholder
    refine (differs_define (binds_lt_next hnearest.binds) name value).extends
      fun place other => ⟨?_, ?_⟩
    · exact fun hadds => .inr (hadds.resolve_left id)
    · rintro (⟨rfl, rfl⟩ | hbinds)
      · exact .inr hnearest.binds
      · exact .inr hbinds
  | assignAt scope depth name value =>
    obtain ⟨found, hfound, rfl⟩ := assignAt_eq_ok htake
    have hlt := ancestor_lt_next h.descends hscope hfound
    refine (differs_define hlt name value).extends fun place other => ?_
    have hplace : forest.ancestor depth scope = .ok (some place) ↔ place = found := by
      rw [hfound, Except.ok.injEq, Option.some.injEq, eq_comm]
    rw [Step.Adds, hplace]

/-- The laws of the store, for every forest that can be built.  A name that is bound somewhere on
the chain of a scope is bound at a least distance.  There searching and going the distance give the
same value and make the same change, which is of one cell; after it every search that stops at the
cell gives the new value, and every other gives what it gave.  A name that is bound nowhere on the
chain is undefined for reading and for assigning.  No step takes a binding away or changes a link,
and those that bind what was not bound are definitions and assignments at a distance. -/
theorem store_laws (hbuilt : Built forest) (scope : Nat) (name : String) :
    ((∃ depth, forest.BindsAt scope depth name) →
      ∃ depth found, forest.Nearest scope name depth found ∧
        (∃ value, forest.get scope name = .ok value ∧
          forest.getAt scope depth name = .ok value ∧
          (forest.bindings found).find? name = some value) ∧
        ∀ value, ∃ changed, forest.assign scope name value = .ok changed ∧
          forest.assignAt scope depth name value = .ok changed ∧
          Differs found name value forest changed ∧
          ∀ scope' name',
            ((name' = name ∧ ∃ depth', forest.Nearest scope' name' depth' found) →
              changed.get scope' name' = .ok value) ∧
            (¬ (name' = name ∧ ∃ depth', forest.Nearest scope' name' depth' found) →
              changed.get scope' name' = forest.get scope' name')) ∧
    ((¬ ∃ depth, forest.BindsAt scope depth name) →
      forest.get scope name = .error (.undefined name) ∧
        ∀ value, forest.assign scope name value = .error (.undefined name)) ∧
    ∀ (step : Step α) (after : Forest α), step.scope < forest.next →
      step.take forest = .ok after →
      Extends (fun place name => step.Adds forest place name) forest after := by
  refine ⟨?_, ?_, fun step after hscope htake => hbuilt.take_extends hscope htake⟩
  · rintro ⟨_, hbound⟩
    obtain ⟨depth, found, hnearest⟩ := hbound.nearest
    obtain ⟨old, hold⟩ := Option.isSome_iff_exists.1 hnearest.binds
    refine ⟨depth, found, hnearest, ⟨old, hnearest.get_eq hbuilt hold,
      getAt_of_ancestor hnearest.ancestor hold, hold⟩, fun value => ?_⟩
    have hassign := hnearest.assign_eq hbuilt value
    have hdiffers := differs_define (binds_lt_next hnearest.binds) name value
    have hchanged : Built (forest.define found name value) :=
      hbuilt.step (.assign scope name value) hnearest.bindsAt.lt_next hassign
    exact ⟨_, hassign, assignAt_of_ancestor hnearest.ancestor name value, hdiffers,
      hdiffers.get_eq hbuilt hchanged hnearest.binds⟩
  · intro hnone
    have hholder := hbuilt.holder?_eq_none (not_exists.1 hnone)
    refine ⟨hbuilt.get_eq_error (not_exists.1 hnone), fun value => ?_⟩
    rw [assign, hholder]

/-- Two scopes in the outermost one, of which the first hides a name that the second sees. -/
def shadowed : Forest Nat :=
  (((single.define 0 "a" 1).child 0).define 1 "a" 2).child 0

theorem built_shadowed : Built shadowed := by
  have hsingle : Built (single : Forest Nat) := .outermost 1
  have houter := hsingle.step (.define 0 "a" 1) (by decide) rfl
  have hfirst := houter.step (.child 0) (by decide) rfl
  have hhiding := hfirst.step (.define 1 "a" 2) (by decide) rfl
  exact hhiding.step (.child 0) (by decide) rfl

/-- Assigning from the second scope changes the outermost one, and is not seen from the first. -/
theorem shadowed_laws :
    ∃ changed, shadowed.assign 2 "a" 3 = .ok changed ∧ changed.get 0 "a" = .ok 3 ∧
      changed.get 1 "a" = .ok 2 ∧ shadowed.get 2 "b" = .error (.undefined "b") := by
  have hbound : shadowed.BindsAt 2 1 "a" := ⟨0, rfl, by decide⟩
  have hlink : shadowed.enclosing? 2 = some 0 := rfl
  have hnone : ¬ ∃ depth, shadowed.BindsAt 2 depth "b" := by
    rintro ⟨_ | _ | depth, hbinds⟩
    · exact absurd (bindsAt_zero.1 hbinds) (by decide)
    · exact absurd (bindsAt_zero.1 ((bindsAt_succ hlink).1 hbinds)) (by decide)
    · exact not_bindsAt_succ rfl ((bindsAt_succ hlink).1 hbinds)
  obtain ⟨depth, found, hnearest, -, hassign⟩ :=
    (store_laws built_shadowed 2 "a").1 ⟨1, hbound⟩
  have houter : shadowed.Nearest 2 "a" 1 0 :=
    (nearest_zero (by decide)).outward hlink (by decide)
  obtain ⟨-, rfl⟩ := houter.unique hnearest
  obtain ⟨changed, hchanged, -, -, hseen⟩ := hassign 3
  refine ⟨changed, hchanged, (hseen 0 "a").1 ⟨rfl, 0, nearest_zero (by decide)⟩, ?_,
    ((store_laws built_shadowed 2 "b").2.1 hnone).1⟩
  rw [(hseen 1 "a").2]
  · rfl
  · rintro ⟨-, depth', hnearest'⟩
    have hinner : shadowed.Nearest 1 "a" 0 1 := nearest_zero (by decide)
    exact absurd (hinner.unique hnearest').2 (by decide)

end Moth.Forest
