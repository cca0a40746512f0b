import Moth.Proofs.Session.Programs
/-!
# Assignments and the names of scopes

An assignment should replace the value of a name that is bound, or fail and change nothing.  It
does so everywhere but in one place: in the initializer of the very variable that is assigned
to, where the scope of the variable is there and the name is not.  `assignment_replaces_iff`
says that this is the only exception, and `ownInitializer_binds` that it is one.
-/

namespace Moth

open Eval

namespace Bindings

variable {α : Type}

/-- A name that is bound keeps its place. -/
theorem names_set {bindings : Bindings α} {name : String} (h : bindings.binds name) (value : α) :
    (bindings.set name value).names = bindings.names := by
  induction bindings with
  | nil => cases h
  | cons binding rest ih =>
    obtain ⟨bound, old⟩ := binding
    by_cases heq : bound = name
    · simp [set, names, heq]
    · have hrest : Bindings.binds rest name := by simpa [binds, find?, heq] using h
      simpa [set, names, heq] using ih hrest

end Bindings

namespace Forest

variable {α : Type} {forest : Forest α}

theorem binds_of_holder? {scope holder : Nat} {name : String}
    (h : forest.holder? scope name = some holder) : (forest.bindings holder).binds name := by
  have hwithin : ∀ steps scope, forest.holderWithin name steps scope = some holder →
      (forest.bindings holder).binds name := by
    intro steps
    induction steps with
    | zero => exact fun scope h => by cases h
    | succ steps ih =>
      intro scope h
      rw [holderWithin] at h
      split at h
      · next hbinds => exact Option.some.inj h ▸ hbinds
      · split at h
        · exact ih _ h
        · cases h
  exact hwithin _ _ h

/-- Binding a name anew where it is bound changes the names of no scope. -/
theorem names_define {scope : Nat} {name : String} (h : (forest.bindings scope).binds name)
    (value : α) (other : Nat) :
    ((forest.define scope name value).bindings other).names = (forest.bindings other).names := by
  rw [bindings_define]
  split
  · next hscope => rw [Bindings.names_set h, hscope.1]
  · rfl

end Forest

/-- An assignment replaces the value of a name that is bound, and no scope gets a name or loses
one; or it fails with the message that the variable is undefined, and nothing changes. -/
inductive Machine.Replaces (machine : Machine) (name : Token) (value : Value) :
    Outcome Unit → Prop where
  | replaced {scope : Nat} : (machine.scopes.bindings scope).binds name.lexeme →
      (∀ other, ((machine.define scope name.lexeme value).scopes.bindings other).names =
        (machine.scopes.bindings other).names) →
      Replaces machine name value (.done () (machine.define scope name.lexeme value))
  | undefined {fault : RuntimeFault} :
      fault.message = "Undefined variable '" ++ name.lexeme ++ "'." →
      Replaces machine name value (.failed ⟨name, fault⟩ machine)

theorem Machine.Replaces.of_binds {machine : Machine} {name : Token} {scope : Nat}
    (h : (machine.scopes.bindings scope).binds name.lexeme) (value : Value) :
    machine.Replaces name value (.done () (machine.define scope name.lexeme value)) :=
  .replaced h (Forest.names_define h value)

/-- The resolver has met an assignment at a place, and the scopes of the machine are those of
the place. -/
structure Machine.AssignsAt (past : Past) (machine : Machine) (name : Token) (place : Place) :
    Prop where
  known : past.known ⟨.assign, name, name.lexeme, place⟩
  chain : Chain past machine.scopes machine.current place.frames

/-- What a name is found in, other than as the variable of the initializer around it, is
finished. -/
theorem Place.Sound.found_finished {place : Place} (h : place.Sound) {name : String} {hops : Nat}
    (hfind : place.find? name = some hops) (hown : place.innermost? name ≠ some false) :
    ∃ frame, place.frames[hops]? = some frame ∧ frame.names.find? name = some true := by
  obtain ⟨context, frames⟩ := place
  obtain ⟨hlt, hbinds, -⟩ := List.findIdx?_eq_some_iff_getElem.1 hfind
  refine ⟨frames[hops], List.getElem?_eq_getElem hlt, ?_⟩
  have hne : frames[hops].names.find? name ≠ some false := by
    cases frames with
    | nil => simp at hlt
    | cons frame outer =>
      cases hops with
      | zero => exact hown
      | succ hops => exact h.finished _ (List.getElem_mem _) name
  obtain ⟨flag, hflag⟩ := Option.isSome_iff_exists.1 hbinds
  cases flag with
  | true => exact hflag
  | false => exact absurd hflag hne

/-- The variable of the initializer around a place is found in the innermost scope. -/
theorem Place.find?_of_innermost? {place : Place} {name : String} {finished : Bool}
    (h : place.innermost? name = some finished) : place.find? name = some 0 := by
  obtain ⟨context, frames⟩ := place
  cases frames with
  | nil => cases h
  | cons frame outer =>
    have hbinds : frame.names.binds name := Option.isSome_iff_exists.2 ⟨finished, h⟩
    simp [find?, List.findIdx?_cons, hbinds]

section

variable {past : Past} {there : Machine} {name : Token} {place : Place} {value : Value}

/-- Outside of its own initializer, a variable is there to be assigned to, or it is a global. -/
theorem assign_replaces (h : there.Sound past) (hplace : place.Sound)
    (hassigns : there.AssignsAt past name place)
    (hown : place.innermost? name.lexeme ≠ some false) :
    there.Replaces name value (assign name value there) := by
  obtain ⟨-, hhops⟩ := h.settled _ hassigns.known
  unfold assign
  rw [hhops]
  cases hfound : Reference.hops? ⟨.assign, name, name.lexeme, place⟩ with
  | some hops =>
    obtain ⟨frame, hframe, hfinished⟩ :=
      hplace.found_finished (Reference.find?_of_hops? hfound) hown
    obtain ⟨scope, hancestor, -, hheld⟩ := hassigns.chain.ancestor hframe
    simp only [hancestor]
    exact .of_binds (hheld.finished _ hfinished) value
  | none =>
    cases hholder : there.scopes.holder? Machine.globals name.lexeme with
    | some scope => exact .of_binds (Forest.binds_of_holder? hholder) value
    | none => exact .undefined rfl

/-- In its own initializer, a variable is bound in the current scope. -/
theorem assign_own (h : there.Sound past) (hassigns : there.AssignsAt past name place)
    (hown : place.innermost? name.lexeme = some false) :
    assign name value there = .done () (there.define there.current name.lexeme value) := by
  obtain ⟨-, hhops⟩ := h.settled _ hassigns.known
  have hzero : there.resolution.hops? name = some 0 :=
    hhops.trans (Place.find?_of_innermost? hown)
  unfold assign
  rw [hzero]
  rfl

/-- The innermost scope of a place with scopes is one that has been made. -/
theorem Chain.current_lt {scopes : Forest Value} {scope : Nat}
    (h : Chain past scopes scope place.frames) {finished : Bool}
    (hown : place.innermost? name.lexeme = some finished) : scope < scopes.next := by
  obtain ⟨context, frames⟩ := place
  cases h with
  | globals => cases hown
  | inner henclosing _ _ _ => exact Forest.lt_next_of_enclosing? henclosing

/-- An assignment that binds a name which was not bound does not replace anything. -/
theorem Machine.Replaces.bound {scope : Nat} (hlt : scope < there.scopes.next)
    (h : there.Replaces name value (.done () (there.define scope name.lexeme value))) :
    (there.scopes.bindings scope).binds name.lexeme := by
  generalize hafter : there.define scope name.lexeme value = after at h
  cases h with
  | @replaced other hbinds hnames =>
    have hbound : (((there.define other name.lexeme value).scopes.bindings scope).binds
        name.lexeme) := by
      rw [← hafter]
      exact Option.isSome_iff_exists.2 ⟨value, Forest.find?_define_self hlt name.lexeme value⟩
    by_cases hsame : other = scope
    · exact hsame ▸ hbinds
    · have hother : (there.define other name.lexeme value).scopes.bindings scope =
          there.scopes.bindings scope :=
        (Forest.bindings_define _ _ _ _ _).trans (if_neg fun hboth => hsame hboth.1)
      rwa [hother] at hbound

end

/-- At every step of every turn that assigns to a name, the scopes are those of a place where
the resolver met the assignment.  It replaces the value of a bound name, or fails and changes
nothing, if and only if it does not stand in the initializer of the very variable while this is
not yet bound; there it binds the name in the current scope. -/
theorem assignment_replaces_iff {turns : List Turn} {session : Session} (h : Reached turns session)
    (request : Request) (fuel : Nat) {name : Token} {value : Value} {there : Machine}
    (hvisit : Turn.Visits ⟨session, request, fuel⟩ (.assign name value) there) :
    (∃ place, there.AssignsAt (pastOf (⟨session, request, fuel⟩ :: turns)) name place) ∧
      ∀ place, there.AssignsAt (pastOf (⟨session, request, fuel⟩ :: turns)) name place →
        (there.Replaces name value (assign name value there) ↔
          (place.innermost? name.lexeme = some false →
            (there.scopes.bindings there.current).binds name.lexeme)) ∧
        (place.innermost? name.lexeme = some false →
          assign name value there = .done () (there.define there.current name.lexeme value)) := by
  obtain ⟨hsound, -, hstands⟩ := h.sound.visited hvisit
  constructor
  · obtain ⟨place, hchain, hevents⟩ := hstands
    exact ⟨place, (List.forall_mem_singleton.1 hevents).2 _ rfl, hchain⟩
  intro place hassigns
  have hplace : place.Sound := h.placed hassigns.known
  refine ⟨?_, assign_own hsound hassigns⟩
  by_cases hown : place.innermost? name.lexeme = some false
  · rw [assign_own hsound hassigns hown]
    constructor
    · exact fun hreplaces _ => hreplaces.bound (hassigns.chain.current_lt hown)
    · exact fun hbinds => .of_binds (hbinds hown) value
  · exact ⟨fun _ hfalse => absurd hfalse hown,
      fun _ => assign_replaces hsound hplace hassigns hown⟩

/-- A function that counts in a variable of the block around it, kept for later units. -/
def tallyText : String :=
  "var keep; \x7b var n = 1; fun count() \x7b n = n + 1; return n; \x7d keep = count; \x7d"

def tallySession : Session := Session.empty.after 40 (.run tallyText)

/-- A later unit calls the function, which assigns to the variable one scope outward. -/
theorem tally_replaces : ∃ name value there,
    Turn.Visits ⟨tallySession, .evaluate "keep()", 40⟩ (.assign name value) there ∧
      there.resolution.hops? name = some 1 ∧
      there.Replaces name value (assign name value there) := by
  have hreached : Reached [⟨.empty, .run tallyText, 40⟩] tallySession :=
    .after .empty (by decide +kernel)
  have hvisited : (Turn.visited ⟨tallySession, .evaluate "keep()", 40⟩).any (fun visit =>
      match visit.1 with
      | .assign name _ => visit.2.resolution.hops? name = some 1
      | _ => false) = true := by
    decide +kernel
  obtain ⟨⟨task, there⟩, hmem, hany⟩ := List.any_eq_true.1 hvisited
  cases task with
  | assign name value =>
    have hhops : there.resolution.hops? name = some 1 := of_decide_eq_true hany
    have hvisit := Turn.visits_of_mem hmem
    obtain ⟨⟨place, hassigns⟩, hreplaces⟩ :=
      assignment_replaces_iff hreached (.evaluate "keep()") 40 hvisit
    refine ⟨name, value, there, hvisit, hhops, (hreplaces place hassigns).1.2 fun hown => ?_⟩
    -- in its own initializer the variable would be found without a step outward
    obtain ⟨-, hsame⟩ := (hreached.sound.visited hvisit).1.settled _ hassigns.known
    rw [hhops] at hsame
    cases hsame.trans (Place.find?_of_innermost? hown)
  | _ => cases hany

def ownInitializerText : String := "\x7b var a = (a = 1); print a; \x7d"

/-- The assignment binds the name in the scope of the block, where it was not bound. -/
theorem ownInitializer_binds : ∃ name value there,
    Turn.Visits ⟨.empty, .run ownInitializerText, 40⟩ (.assign name value) there ∧
      (there.scopes.bindings there.current).binds name.lexeme = false ∧
      (∃ after, assign name value there = .done () after ∧
        (after.scopes.bindings there.current).binds name.lexeme) ∧
      ¬ there.Replaces name value (assign name value there) := by
  have hvisited : (Turn.visited ⟨.empty, .run ownInitializerText, 40⟩).any (fun visit =>
      match visit.1 with
      | .assign name _ => visit.2.resolution.hops? name = some 0 &&
          visit.2.current < visit.2.scopes.next &&
          (visit.2.scopes.bindings visit.2.current).binds name.lexeme = false
      | _ => false) = true := by
    decide +kernel
  obtain ⟨⟨task, there⟩, hmem, hany⟩ := List.any_eq_true.1 hvisited
  cases task with
  | assign name value =>
    simp only [Bool.and_eq_true, decide_eq_true_eq] at hany
    obtain ⟨⟨hhops, hlt⟩, hunbound⟩ := hany
    have hassign : assign name value there =
        .done () (there.define there.current name.lexeme value) := by
      unfold assign
      rw [hhops]
      rfl
    refine ⟨name, value, there, Turn.visits_of_mem hmem, hunbound, ⟨_, hassign, ?_⟩, ?_⟩
    · exact Option.isSome_iff_exists.2 ⟨value, Forest.find?_define_self hlt name.lexeme value⟩
    · intro hreplaces
      rw [hassign] at hreplaces
      rw [hreplaces.bound hlt] at hunbound
      cases hunbound
  | _ => cases hany

end Moth
