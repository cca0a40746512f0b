import Moth.Proofs.Renaming.Twin
import Moth.Proofs.Resolving.Parsed
/-!
# Names that are not in use

A name that no token of a program writes is neither declared nor referred to in it, and it is
bound in no scope.  Then no other name can get in the way of a variable that is renamed to it.
-/

namespace Moth

def Place.Evades (name : String) (place : Place) : Prop :=
  ∀ frame ∈ place.frames, frame.names.binds name = false

def Reference.Evades (name : String) (reference : Reference) : Prop :=
  reference.name ≠ name ∧ reference.place.Evades name

def Event.Evades (name : String) : Event → Prop
  | .reference found => found.Evades name
  | .declaration token _ => token.lexeme ≠ name
  | .returns .. => True
  | .inherits _ superclass => superclass.Evades name

theorem Event.Evades.reference {name : String} {event : Event} (h : event.Evades name)
    {reference : Reference} (href : event.reference? = some reference) :
    reference.Evades name := by
  cases event <;> cases href <;> exact h

def EvadesAll (name : String) (events : List Event) : Prop :=
  ∀ event ∈ events, event.Evades name

section

variable {fresh : String}

namespace Place.Evades

variable {place : Place}

theorem set (h : place.Evades fresh) {name : Token} (hname : name.lexeme ≠ fresh)
    (finished : Bool) : (place.set name finished).Evades fresh := by
  obtain ⟨context, frames⟩ := place
  cases frames with
  | nil => exact h
  | cons frame outer =>
    obtain ⟨hframe, houter⟩ := List.forall_mem_cons.1 h
    refine List.forall_mem_cons.2 ⟨?_, houter⟩
    rw [Bool.eq_false_iff, ne_eq, Bindings.binds_set]
    simp [hname, hframe]

theorem enter (h : place.Evades fresh) (site : Site) {names : List String}
    (hnames : ∀ name ∈ names, name ≠ fresh) : (place.enter site names).Evades fresh := by
  refine List.forall_mem_cons.2 ⟨?_, h⟩
  induction names with
  | nil => rfl
  | cons name names ih =>
    obtain ⟨hname, hrest⟩ := List.forall_mem_cons.1 hnames
    simpa [Bindings.binds, Bindings.find?, hname] using ih hrest

theorem inClass (h : place.Evades fresh) (hfresh : IsPlain fresh) {name : Token}
    (hname : name.lexeme ≠ fresh) (superclass : Option Token) (methods : List FunctionDecl) :
    (place.inClass name superclass methods).Evades fresh := by
  have hthis : ∀ name ∈ ["this"], name ≠ fresh := by simpa using hfresh.1.symm
  have hsuper : ∀ name ∈ ["super"], name ≠ fresh := by simpa using hfresh.2.symm
  unfold Place.inClass
  dsimp only
  split
  · exact ((h.set hname true).enter _ hsuper).enter _ hthis
  · exact (h.set hname true).enter _ hthis

end Place.Evades

def Place.evading (hfresh : IsPlain fresh) : Standing where
  named name := name.lexeme ≠ fresh
  between := Place.Evades fresh
  within := Place.Evades fresh
  here := id
  set h _ hname := h.set hname true
  unfinished h _ hname := h.set hname false
  block h _ := h.enter _ (List.forall_mem_nil _)
  inFunction h _ _ := Place.Evades.enter h _ (List.forall_mem_nil _)
  inMethod h _ hname superclass _ _ _ _ :=
    Place.Evades.enter (h.inClass hfresh hname superclass _) _ (List.forall_mem_nil _)

theorem Reference.Formed.name_ne {reference : Reference} (h : reference.Formed)
    (hfresh : IsPlain fresh) (htoken : reference.token.lexeme ≠ fresh) :
    reference.name ≠ fresh := by
  unfold Reference.Formed at h
  split at h
  · exact h.2 ▸ htoken
  · exact h.2 ▸ htoken
  · exact h.1 ▸ hfresh.1.symm
  · exact h ▸ hfresh.2.symm

/-- A plain name that no token of a program writes. -/
theorem Mentions.evades {ts : List Token} {program : List Stmt}
    (h : Mentions ts (programEvents program)) (hbranched : BranchedAll program)
    (hfresh : IsPlain fresh) (hts : ∀ token ∈ ts, token.lexeme ≠ fresh) :
    EvadesAll fresh (programEvents program) := by
  have htoken : ∀ event ∈ programEvents program, event.token.lexeme ≠ fresh :=
    fun event hevent => hts _ (h.token_mem hevent)
  have hstands : ∀ event ∈ programEvents program, event.Stands (Place.evading hfresh) := by
    refine programEvents_stand (List.forall_mem_nil _) hbranched fun event hevent => ?_
    cases event with
    | declaration name place => exact htoken _ hevent
    | _ => trivial
  intro event hevent
  have hformed := h.formed event hevent
  cases event with
  | reference found => exact ⟨hformed.name_ne hfresh (htoken _ hevent), hstands _ hevent _ rfl⟩
  | declaration name place => exact htoken _ hevent
  | returns keyword withValue context => trivial
  | inherits name superclass =>
    exact ⟨hformed.2.name_ne hfresh (htoken _ hevent), hstands _ hevent _ rfl⟩

end

/-! ## Names that get in the way -/

namespace LocalRenaming.Plain

variable {r : LocalRenaming} {h : r.Plain}

/-- Under two of the renamings a name comes back to itself, or to the new name. -/
theorem Allows.back {ρ ρ' : Renaming} (hρ : h.Allows ρ) (hρ' : h.Allows ρ') {name : String}
    (hname : name ≠ r.fresh) : ρ' name = ρ name ∨ ρ' name = ρ r.fresh := by
  have hback : h.exchange r.fresh = r.declared.lexeme := Equiv.swap_apply_right _ _
  by_cases hdeclared : name = r.declared.lexeme
  · rw [hdeclared]
    rcases hρ with rfl | rfl <;> rcases hρ' with rfl | rfl <;>
      simp [h.exchange_declared, hback]
  · have hstays := h.exchange_of_ne hdeclared hname
    rcases hρ with rfl | rfl <;> rcases hρ' with rfl | rfl <;> simp [hstays]

theorem Allows.along {ρs : List Renaming} {frames others : List Frame}
    (hframes : FramesTwin h.Allows ρs frames others) (hops : Nat) :
    h.Allows (Renaming.along ρs hops) := by
  induction hframes generalizing hops with
  | nil => exact .inl rfl
  | cons hρ _ _ ih =>
    cases hops with
    | zero => exact hρ
    | succ hops => exact ih hops

theorem Allows.through {ρs : List Renaming} {frames others : List Frame}
    (hframes : FramesTwin h.Allows ρs frames others) (hops? : Option Nat) :
    h.Allows (Renaming.through ρs hops?) := by
  cases hops? with
  | none => exact .inl rfl
  | some hops => exact Allows.along hframes hops

/-- A scope that binds neither a name nor the new one does not bind what the name becomes. -/
theorem Allows.binds {ρ ρ' : Renaming} (hρ : h.Allows ρ) (hρ' : h.Allows ρ') {name : String}
    (hname : name ≠ r.fresh) {names : StaticScope} (hnone : names.binds name = false)
    (hfresh : names.binds r.fresh = false) : (names.rename ρ).binds (ρ' name) = false := by
  rcases hρ.back hρ' hname with heq | heq <;> rw [heq, Bindings.binds, Bindings.find?_rename]
  · exact hnone
  · exact hfresh

/-- Under its new name a variable is as far away. -/
theorem findIdx?_renamed {ρs : List Renaming} {frames others : List Frame}
    (hframes : FramesTwin h.Allows ρs frames others) {name : String} (hname : name ≠ r.fresh)
    (hfresh : ∀ frame ∈ frames, frame.names.binds r.fresh = false) :
    others.findIdx? (·.names.binds
        (Renaming.through ρs (frames.findIdx? (·.names.binds name)) name)) =
      frames.findIdx? (·.names.binds name) := by
  induction hframes with
  | nil => rfl
  | @cons ρ ρs frame frame' outer outer' hρ hnames houter ih =>
    obtain ⟨hhere, hfurther⟩ := List.forall_mem_cons.1 hfresh
    rw [List.findIdx?_cons, List.findIdx?_cons, hnames]
    cases hbinds : frame.names.binds name with
    | true =>
      have hfound : (frame.names.rename ρ).binds (ρ name) = true := by
        rw [Bindings.binds, Bindings.find?_rename]
        exact hbinds
      simp [Renaming.through, hfound]
    | false =>
      have hthrough : Renaming.through (ρ :: ρs)
          ((outer.findIdx? (·.names.binds name)).map (· + 1)) =
          Renaming.through ρs (outer.findIdx? (·.names.binds name)) := by
        cases outer.findIdx? (·.names.binds name) <;> rfl
      have hnone := hρ.binds (Allows.through houter (outer.findIdx? (·.names.binds name))) hname
        hbinds hhere
      simp only [hthrough, hnone, ih hfurther, Bool.false_eq_true, if_false]

theorem clear (h : r.Plain) {events : List Event} (hfresh : EvadesAll r.fresh events) :
    Clear h.Allows events := by
  intro event hevent reference href ρs other htwin
  obtain ⟨hname, hplace⟩ := (hfresh event hevent).reference href
  exact findIdx?_renamed htwin.frames hname hplace

end LocalRenaming.Plain

end Moth
