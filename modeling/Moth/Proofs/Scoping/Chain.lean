import Moth.Eval.Machine
import Moth.Proofs.Resolving.Standing
import Moth.Proofs.Store.Forest
/-!
# Chains of scopes

A chain of scopes at run time matches the frames of a place if every scope was opened for the
site of its frame and binds what the frame has finished.  As scopes are only added, and names
are never unbound, a chain that matches goes on to match.
-/

namespace Moth

/-- What has happened so far: the scopes opened, each for a site, and the references of the
programs that were accepted. -/
structure Past where
  opened : Nat → Site → Prop
  known : Reference → Prop

def Past.Knows (past : Past) (event : Event) : Prop :=
  event.Formed ∧ ∀ reference, event.reference? = some reference → past.known reference

structure Past.Before (past later : Past) : Prop where
  opened : ∀ scope site, past.opened scope site → later.opened scope site
  known : ∀ reference, past.known reference → later.known reference

theorem Past.Knows.later {past later : Past} (hbefore : past.Before later) {event : Event}
    (h : past.Knows event) : later.Knows event :=
  ⟨h.1, fun reference href => hbefore.known reference (h.2 reference href)⟩

/-- Scopes and bindings are added, but none is taken away; a class that `super` stands for
stays. -/
structure Forest.Grows (older newer : Forest Value) : Prop where
  enclosing : ∀ scope outer, older.enclosing? scope = some outer →
    newer.enclosing? scope = some outer
  binds : ∀ scope name, (older.bindings scope).binds name → (newer.bindings scope).binds name
  super : ∀ scope id, (older.bindings scope).find? "super" = some (.class id) →
    (newer.bindings scope).find? "super" = some (.class id)

namespace Forest.Grows

variable {oldest older newer : Forest Value}

theorem refl (forest : Forest Value) : forest.Grows forest :=
  ⟨fun _ _ h => h, fun _ _ h => h, fun _ _ h => h⟩

theorem trans (h : oldest.Grows older) (h' : older.Grows newer) : oldest.Grows newer :=
  ⟨fun scope outer henclosing => h'.enclosing scope outer (h.enclosing scope outer henclosing),
    fun scope name hbinds => h'.binds scope name (h.binds scope name hbinds),
    fun scope id hsuper => h'.super scope id (h.super scope id hsuper)⟩

theorem child (forest : Forest Value) (scope : Nat) : forest.Grows (forest.child scope) := by
  refine ⟨fun other outer h => ?_, fun other name h => ?_, fun other id h => ?_⟩
  · rw [enclosing?_child, if_neg (Nat.ne_of_lt (lt_next_of_enclosing? h)), h]
  · rwa [bindings_child]
  · rwa [bindings_child]

theorem define {forest : Forest Value} {scope : Nat} {name : String}
    (h : name ≠ "super" ∨ forest.bindings scope = []) (value : Value) :
    forest.Grows (forest.define scope name value) := by
  refine ⟨fun other outer henclosing => ?_, fun other bound hbinds => ?_, fun other id hsuper => ?_⟩
  · rwa [enclosing?_define]
  · exact binds_define hbinds scope name value
  · by_cases hname : name = "super"
    · have hempty := h.resolve_left (not_not_intro hname)
      rw [bindings_define, if_neg, hsuper]
      rintro ⟨rfl, -⟩
      rw [hempty] at hsuper
      cases hsuper
    · rwa [find?_define_of_ne hname]

end Forest.Grows

/-- The bindings of a scope have all that the frame has finished, and a class for `super`. -/
structure Frame.HeldBy (frame : Frame) (bindings : Bindings Value) : Prop where
  finished : ∀ name, frame.names.find? name = some true → bindings.binds name
  super : ∀ name methods, frame.site = .super name methods →
    ∃ id, bindings.find? "super" = some (.class id)

/-- The scopes from one outward match the frames. -/
inductive Chain (past : Past) (scopes : Forest Value) : Nat → List Frame → Prop where
  | globals : Chain past scopes Machine.globals []
  | inner {scope outer : Nat} {frame : Frame} {frames : List Frame} :
      scopes.enclosing? scope = some outer → past.opened scope frame.site →
      frame.HeldBy (scopes.bindings scope) → Chain past scopes outer frames →
      Chain past scopes scope (frame :: frames)

namespace Chain

variable {past : Past} {scopes newer : Forest Value} {scope : Nat} {frames : List Frame}
  {place : Place} {name : Token}

theorem grow (h : Chain past scopes scope frames) (hgrows : scopes.Grows newer) :
    Chain past newer scope frames := by
  induction h with
  | globals => exact .globals
  | inner henclosing hopened hheld _ ih =>
    refine .inner (hgrows.enclosing _ _ henclosing) hopened ⟨?_, ?_⟩ ih
    · exact fun name hname => hgrows.binds _ _ (hheld.finished name hname)
    · intro name methods hsite
      obtain ⟨id, hid⟩ := hheld.super name methods hsite
      exact ⟨id, hgrows.super _ _ hid⟩

theorem later {later : Past} (h : Chain past scopes scope frames) (hbefore : past.Before later) :
    Chain later scopes scope frames := by
  induction h with
  | globals => exact .globals
  | inner henclosing hopened hheld _ ih =>
    exact .inner henclosing (hbefore.opened _ _ hopened) hheld ih

theorem held {frame : Frame} (h : Chain past scopes scope (frame :: frames)) :
    frame.HeldBy (scopes.bindings scope) := by
  cases h with | inner _ _ hheld _ => exact hheld

/-- As many steps outward as there are frames lead to the scope of the frame. -/
theorem ancestor (h : Chain past scopes scope frames) {depth : Nat} {frame : Frame}
    (hframe : frames[depth]? = some frame) :
    ∃ found, scopes.ancestor depth scope = .ok (some found) ∧ past.opened found frame.site ∧
      frame.HeldBy (scopes.bindings found) := by
  induction h generalizing depth with
  | globals => cases hframe
  | @inner scope outer first frames henclosing hopened hheld _ ih =>
    cases depth with
    | zero =>
      obtain rfl : first = frame := by simpa using hframe
      exact ⟨scope, rfl, hopened, hheld⟩
    | succ depth =>
      rw [Forest.ancestor_succ henclosing]
      exact ih (by simpa using hframe)

/-- The scope behind the inner frames of a chain. -/
theorem drop {inner : List Frame} (h : Chain past scopes scope (inner ++ frames)) :
    ∃ found, scopes.ancestor inner.length scope = .ok (some found) ∧
      Chain past scopes found frames := by
  induction inner generalizing scope with
  | nil => exact ⟨scope, rfl, h⟩
  | cons frame inner ih =>
    cases h with
    | inner henclosing _ _ houter =>
      rw [List.length_cons, Forest.ancestor_succ henclosing]
      exact ih houter

/-- The chain matches as well while a declaration is not finished. -/
theorem begin (h : Chain past scopes scope place.frames) (name : Token) :
    Chain past scopes scope (place.set name false).frames := by
  obtain ⟨context, frames⟩ := place
  cases h with
  | globals => exact .globals
  | @inner _ outer frame frames henclosing hopened hheld houter =>
    refine .inner henclosing hopened ⟨fun other hother => ?_, hheld.super⟩ houter
    by_cases heq : name.lexeme = other
    · rw [heq, Bindings.find?_set_self] at hother
      cases hother
    · rw [Bindings.find?_set_of_ne _ _ heq] at hother
      exact hheld.finished other hother

/-- Binding a name in the innermost scope finishes its declaration. -/
theorem finish (h : Chain past scopes scope place.frames) (hname : IsPlain name.lexeme)
    (value : Value) :
    Chain past (scopes.define scope name.lexeme value) scope (place.set name true).frames := by
  have hgrows : scopes.Grows (scopes.define scope name.lexeme value) := .define (.inl hname.2) value
  obtain ⟨context, frames⟩ := place
  cases h with
  | globals => exact .globals
  | @inner _ outer frame frames henclosing hopened hheld houter =>
    have hscope := Forest.lt_next_of_enclosing? henclosing
    refine .inner (hgrows.enclosing _ _ henclosing) hopened ⟨fun other hother => ?_, ?_⟩
      (houter.grow hgrows)
    · by_cases heq : name.lexeme = other
      · rw [← heq, Bindings.binds, Forest.find?_define_self hscope]
        rfl
      · rw [Bindings.find?_set_of_ne _ _ heq] at hother
        exact hgrows.binds _ _ (hheld.finished other hother)
    · intro other methods hsite
      obtain ⟨id, hid⟩ := hheld.super other methods hsite
      exact ⟨id, hgrows.super _ _ hid⟩

/-- A new scope for a site that binds no name from the start. -/
theorem child (h : Chain past scopes scope frames) {site : Site}
    (hsite : ∀ name methods, site ≠ .super name methods)
    (hopened : past.opened scopes.next site) :
    Chain past (scopes.child scope) scopes.next (⟨site, []⟩ :: frames) := by
  refine .inner (by rw [Forest.enclosing?_child, if_pos rfl]) hopened ⟨?_, ?_⟩
    (h.grow (.child scopes scope))
  · exact fun name hname => by cases hname
  · exact fun name methods heq => absurd heq (hsite name methods)

/-- A new scope that binds one name from the start. -/
theorem single (h : Chain past scopes scope frames) {site : Site} (name : String) (value : Value)
    (hsite : ∀ other methods, site = .super other methods →
      name = "super" ∧ ∃ id, value = .class id)
    (hopened : past.opened scopes.next site) :
    Chain past ((scopes.child scope).define scopes.next name value) scopes.next
      (.single site name :: frames) := by
  have hlt : scopes.next < (scopes.child scope).next := by
    rw [Forest.next_child]
    exact Nat.lt_succ_self _
  have hfind := Forest.find?_define_self hlt name value
  have hempty : (scopes.child scope).bindings scopes.next = [] := by
    rw [Forest.bindings_child, Forest.bindings_next]
  refine .inner ?_ hopened ⟨fun other hother => ?_, ?_⟩
    (h.grow (Forest.Grows.trans (.child scopes scope) (.define (.inr hempty) value)))
  · rw [Forest.enclosing?_define, Forest.enclosing?_child, if_pos rfl]
  · rw [Frame.find?_single] at hother
    split at hother
    · next heq => rw [← heq, Bindings.binds, hfind]; rfl
    · cases hother
  · intro other methods heq
    obtain ⟨rfl, id, rfl⟩ := hsite other methods heq
    exact ⟨id, hfind⟩

end Chain

end Moth
