import Moth.Proofs.Session.Soundness
import Moth.Proofs.Twins.Resolved
import Moth.Proofs.Twins.Simulation
import Moth.Proofs.Twins.Symmetry
/-!
# Twin units

A unit that is a twin of another is run like it, and so each of two twins ends if the other does.
The machine of a session is a twin of itself under every twinning that leaves the references of
the past as they are; it is what two units are run from that are compared.
-/

namespace Moth

open Eval

/-! ## Running units -/

theorem executeUnit_twin {T : Twinning} (fuel room : Nat) {program program' : List Stmt}
    (h : stmtTwins T.toMatching [] program program') :
    RunTwin T [] (executeUnit fuel room program) fun fuel => executeUnit fuel room program' := by
  induction program generalizing program' with
  | nil =>
    obtain rfl : program' = [] := h
    exact .pure ()
  | cons stmt rest ih =>
    obtain ⟨stmt', rest', rfl, hstmt, hrest⟩ := h
    exact ((simulates T fuel).execute room hstmt).bind fun _ => ih hrest

/-- What a unit comes to from the globals, its twin comes to. -/
theorem Machine.Twin.executeUnit {T : Twinning} {names : Nat → Renaming}
    {machine machine' : Machine} (h : Machine.Twin T names machine machine')
    (hglobals : machine.current = Machine.globals) {program program' : List Stmt}
    (htwins : stmtTwins T.toMatching [] program program') (fuel room : Nat) :
    Follows T names machine (executeUnit fuel room program machine)
      fun fuel => executeUnit fuel room program' machine' :=
  executeUnit_twin fuel room htwins names machine machine' h (hglobals ▸ .globals)

/-! ## Twinnings by name -/

def Matching.byName (allows : Renaming → Prop) (links : Resolution) (among : Token → Prop) :
    Matching where
  allows := allows
  pairs ρs token name _ name' :=
    among token ∧ name' = Renaming.through ρs (links.hops? token) name

theorem Matching.named_byName (allows : Renaming → Prop) (links : Resolution)
    (among : Token → Prop) : (Matching.byName allows links among).Named links := fun h => h.2

def Twinning.byName (allows : Renaming → Prop) (links others : Resolution) (among : Token → Prop)
    (before before' : String) : Twinning where
  toMatching := (Matching.byName allows links among).meeting links others
  links := links
  others := others
  before := before
  before' := before'
  hops h := h.2
  names h := h.1.2

theorem Renaming.through_none (depth : Nat) (hops? : Option Nat) :
    Renaming.through (Renaming.none depth) hops? = .same := by
  cases hops? with
  | none => rfl
  | some hops => exact Renaming.along_none depth hops

/-- Where two resolutions agree a reference is paired with itself. -/
theorem Matching.fixes_byName {allows : Renaming → Prop} {links others : Resolution}
    {among : Token → Prop} {token : Token} (hamong : among token)
    (hmeets : others.hops? token = links.hops? token) (depth : Nat) (name : String) :
    ((Matching.byName allows links among).meeting links others).pairs (Renaming.none depth) token
      name token name :=
  ⟨⟨hamong, by rw [Renaming.through_none, Renaming.same_apply]⟩, hmeets⟩

/-! ## Wider twinnings -/

section

variable {T T' : Twinning} {names : Nat → Renaming} {scopes : Forest Value}

theorem Closure.Twin.widen (hle : T.toMatching.Le T'.toMatching) {inner : List Renaming}
    {closure other : Closure} (h : Closure.Twin T inner names scopes closure other) :
    Closure.Twin T' inner names scopes closure other := by
  obtain ⟨ρs, hchained, htwin⟩ := h.declaration
  exact ⟨h.scope, h.isInitializer, ρs, hchained, functionTwin_mono hle _ _ htwin⟩

/-- Twin machines stay twins when references are paired that were not, and links are added for
them. -/
theorem Machine.Twin.widen (hle : T.toMatching.Le T'.toMatching) {machine other : Machine}
    (h : Machine.Twin T names machine other) {newer : Resolution}
    (hlinks : T'.links = T.links.merge newer) (hothers : T'.others = T.others)
    (hbefore : T'.before = machine.output) (hbefore' : T'.before' = other.output) :
    Machine.Twin T' names (machine.addLinks newer) other where
  scopes := h.scopes
  functions := h.functions.imp fun _ _ hclosure => hclosure.widen hle
  classes := h.classes.imp fun _ _ hentry => hentry.imp fun _ _ hmethod => hmethod.widen hle
  instances := h.instances
  current := h.current
  links := by rw [Machine.addLinks, hlinks, ← h.links]
  others := h.others.trans hothers.symm
  sources := h.sources
  output := ⟨"", by rw [hbefore, String.append_empty]; rfl, by rw [hbefore', String.append_empty]⟩

end

/-! ## A machine and itself -/

structure Forest.Rooted (scopes : Forest Value) : Prop where
  rooted : Machine.globals < scopes.next
  root : scopes.enclosing? Machine.globals = none

theorem Machine.Sound.rooted {past : Past} {machine : Machine} (h : machine.Sound past) :
    machine.scopes.Rooted where
  rooted := h.links.globals
  root := by
    cases houter : machine.scopes.enclosing? globals with
    | none => rfl
    | some outer => exact absurd (h.links.scopes globals outer houter) (Nat.not_lt_zero outer)

theorem Chain.chained {past : Past} {scopes : Forest Value} {scope : Nat} {frames : List Frame}
    (h : Chain past scopes scope frames) :
    Chained (fun _ => .same) scopes scope (Renaming.none frames.length) := by
  induction h with
  | globals => exact .globals
  | inner henclosing _ _ _ ih => exact .inner henclosing rfl ih

section

variable {past : Past} {T : Twinning}

theorem Past.Knows.fixes {events : List Event} (h : ∀ event ∈ events, past.Knows event)
    (hfixes : ∀ reference, past.known reference → ∀ depth name,
      T.pairs (Renaming.none depth) reference.token name reference.token name) :
    T.toMatching.Fixes events :=
  fun event hevent reference href => hfixes reference ((h event hevent).2 reference href)

theorem Forest.Rooted.renamed {scopes : Forest Value} (h : scopes.Rooted) :
    Forest.Renamed (fun _ => .same) scopes scopes where
  next := rfl
  enclosing _ := rfl
  bindings _ := (Bindings.rename_same _).symm
  rooted := h.rooted
  root := h.root
  globals := rfl

/-- A sound machine is a twin of itself, whatever resolutions and outputs the two have. -/
theorem Machine.Sound.twin {machine : Machine} (h : machine.Sound past)
    (hrooted : machine.scopes.Rooted) (hsame : T.allows .same)
    (hfixes : ∀ reference, past.known reference → ∀ depth name,
      T.pairs (Renaming.none depth) reference.token name reference.token name) :
    Machine.Twin T (fun _ => .same) { machine with resolution := T.links, output := T.before }
      { machine with resolution := T.others, output := T.before' } where
  scopes := hrooted.renamed
  functions := by
    refine List.forall₂_same.2 fun closure hclosure => ?_
    obtain ⟨id, hid⟩ := List.mem_iff_getElem?.1 hclosure
    obtain ⟨place, context, hchain, hknows⟩ :=
      (h.functions id closure (by simpa using hid)).placed
    exact ⟨rfl, rfl, _, hchain.chained, functionTwin_refl hsame _ context place closure.declaration
      (Past.Knows.fixes hknows hfixes)⟩
  classes := by
    refine List.forall₂_same.2 fun entry hentry => ⟨rfl, rfl, fun name => ?_⟩
    obtain ⟨id, hid⟩ := List.mem_iff_getElem?.1 hentry
    cases hmethod : entry.methods.find? name with
    | none => exact .none
    | some method =>
      obtain ⟨place, context, className, methods, hchain, -, hknows⟩ :=
        h.methods id entry name method (by simpa using hid) hmethod
      exact .some ⟨rfl, rfl, _, hchain.chained, functionTwin_refl hsame (_ + 1) context
        (place.enter (.this className methods) ["this"]) method.declaration
        (Past.Knows.fixes hknows hfixes)⟩
  instances := rfl
  current := rfl
  links := rfl
  others := rfl
  sources := rfl
  output := ⟨"", (String.append_empty).symm, (String.append_empty).symm⟩

end

/-! ## The output of a session -/

/-- Tasks of a request are followed by themselves. -/
theorem Session.Accepts.follows {session : Session} {request : Request} {acceptance : Acceptance}
    (h : session.Accepts request acceptance) {T : Twinning} {names : Nat → Renaming}
    {machine : Machine} (hmachine : Machine.Twin T names machine machine)
    (hglobals : machine.current = Machine.globals) (hsame : T.allows .same)
    (hfixes : T.toMatching.Fixes (programEvents acceptance.program)) (fuel : Nat) :
    Follows T names machine (runAll fuel acceptance.tasks machine)
      fun fuel => runAll fuel acceptance.tasks machine := by
  cases h with
  | run _ _ _ =>
    simp only [← executeUnit_eq]
    exact hmachine.executeUnit hglobals (stmtTwins_refl hsame 0 .top _ hfixes) fuel _
  | @evaluate _ _ _ checked _ expr _ _ _ =>
    have hexpr : expr.Twin T.toMatching [] expr :=
      Expr.Twin.refl 0 expr (hfixes.left : T.toMatching.Fixes (expr.events .top))
    have hrun : RunTwin T [] (runAll fuel [.expr checked.limits.calls expr])
        fun fuel => runAll fuel [.expr checked.limits.calls expr] :=
      ((simulates T fuel).evaluate _ hexpr).bind fun _ => .pure ()
    exact hrun names machine machine hmachine (hglobals ▸ .globals)

/-- What an accepted unit comes to is a twin of itself. -/
theorem Session.Sound.followed {turns : List Turn} {session : Session} {request : Request}
    {acceptance : Acceptance} (h : session.Sound (pastOf turns))
    (hsome : session.accept? request = some acceptance) (fuel : Nat) :
    ∃ T names, T.before = acceptance.machine.output ∧
      Follows T names acceptance.machine (runAll fuel acceptance.tasks acceptance.machine)
        fun fuel => runAll fuel acceptance.tasks acceptance.machine := by
  obtain ⟨hsound, hglobals, -⟩ := h.accepted fuel hsome
  let T := Twinning.byName (· = .same) acceptance.machine.resolution
    acceptance.machine.resolution (fun _ => True) acceptance.machine.output
    acceptance.machine.output
  have hfixes : ∀ reference : Reference, ∀ depth name,
      T.pairs (Renaming.none depth) reference.token name reference.token name :=
    fun reference => Matching.fixes_byName trivial rfl
  have hmachine : Machine.Twin T (fun _ => .same) acceptance.machine acceptance.machine :=
    hsound.twin hsound.rooted rfl fun reference _ => hfixes reference
  exact ⟨T, _, rfl, (accepts_of_accept? hsome).follows hmachine hglobals rfl
    (fun _ _ reference _ => hfixes reference) fuel⟩

/-- A unit that ends only adds to the output. -/
theorem Session.Sound.taken {turns : List Turn} {session after : Session} {request : Request}
    {fuel : Nat} {ending : Ending} (h : session.Sound (pastOf turns))
    (htake : session.take fuel request = .ok (ending, after)) :
    ∃ printed, after.machine.output =
      session.machine.output ++ session.dumps request ++ printed := by
  cases hsome : session.accept? request with
  | none =>
    obtain ⟨checked, hnoted, htaken⟩ := take_of_none h.stage hsome fuel
    rw [htaken] at htake
    cases htake
    have hmachine : checked.machine = session.machine.write _ := hnoted.machine
    refine ⟨"", ?_⟩
    show checked.machine.output = _
    rw [hmachine, String.append_empty]
    rfl
  | some acceptance =>
    obtain ⟨hnoted, -⟩ := Session.accepted h.stage hsome
    have houtput : acceptance.machine.output =
        session.machine.output ++ session.dumps request := by
      rw [Acceptance.machine, hnoted.machine]
      rfl
    obtain ⟨T, names, hbefore, hfollows⟩ := h.followed hsome fuel
    rw [← houtput, ← hbefore]
    rw [take_of_some hsome] at htake
    cases hrun : runAll fuel acceptance.tasks acceptance.machine with
    | done value machine =>
      rw [hrun] at htake hfollows
      cases htake
      obtain ⟨_, -, htwin⟩ := hfollows (by rintro ⟨⟩)
      cases htwin with
      | done _ hafter _ => exact hafter.output.imp fun _ htext => htext.1
    | failed failure machine =>
      rw [hrun] at htake hfollows
      cases htake
      obtain ⟨_, -, htwin⟩ := hfollows (by rintro ⟨⟩)
      cases htwin with
      | failed _ hafter => exact hafter.output.imp fun _ htext => htext.1
    | stuck machine | outOfFuel =>
      rw [hrun] at htake
      cases htake

theorem Reached.rooted {turns : List Turn} {session : Session} (h : Reached turns session) :
    session.machine.scopes.Rooted :=
  h.sound.machine.rooted

end Moth
