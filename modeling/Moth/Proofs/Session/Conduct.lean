import Moth.Proofs.Execution.Fuel
import Moth.Proofs.Twins.Units
/-!
# What can be seen of a unit

A unit ends in some way, prints a text and leaves the session with issues, the rest of the input
and the globals with the values they show.  Units whose programs are twins end alike, print the
same and leave the same to be seen; if the one does not end, neither does the other.
-/

namespace Moth

open Eval

/-- The globals, each with the type of its value and the text that shows it. -/
def Machine.shownGlobals (machine : Machine) : List (String × String × String) :=
  (machine.scopes.bindings Machine.globals).map fun (name, value) =>
    (name, value.typeName, machine.display value)

/-- What can be seen of a session between two units, apart from what has been printed. -/
structure Seen where
  entries : List Entry
  input : List Char
  globals : List (String × String × String)
deriving DecidableEq

def Session.seen (session : Session) : Seen :=
  ⟨session.report.entries, session.machine.input, session.machine.shownGlobals⟩

def Session.Halts (session : Session) (request : Request) : Prop :=
  ∃ fuel ending after, session.take fuel request = .ok (ending, after)

def Session.Ends (session : Session) (request : Request) (ending : Ending) (output : String)
    (seen : Seen) : Prop :=
  ∃ fuel after, session.take fuel request = .ok (ending, after) ∧ after.machine.output = output ∧
    after.seen = seen

/-- A request ends in some way, having printed a text after the dumps, and with this to be seen. -/
def Session.Prints (session : Session) (request : Request) (ending : Ending) (printed : String)
    (seen : Seen) : Prop :=
  session.Ends request ending (session.machine.output ++ session.dumps request ++ printed) seen

theorem Session.halts_iff (session : Session) (request : Request) :
    session.Halts request ↔ ∃ ending output seen, session.Ends request ending output seen := by
  constructor
  · rintro ⟨fuel, ending, after, htake⟩
    exact ⟨ending, _, _, fuel, after, htake, rfl, rfl⟩
  · rintro ⟨ending, output, seen, fuel, after, htake, -⟩
    exact ⟨fuel, ending, after, htake⟩

/-- Whatever a request that ends has printed stands after the dumps. -/
theorem Reached.halts_iff {turns : List Turn} {session : Session} (h : Reached turns session)
    (request : Request) :
    session.Halts request ↔ ∃ ending printed seen, session.Prints request ending printed seen := by
  constructor
  · rintro ⟨fuel, ending, after, htake⟩
    obtain ⟨printed, hprinted⟩ := h.sound.taken htake
    exact ⟨ending, printed, after.seen, fuel, after, htake, hprinted, rfl⟩
  · rintro ⟨ending, printed, seen, fuel, after, htake, -⟩
    exact ⟨fuel, ending, after, htake⟩

def Session.shown? (session : Session) (fuel : Nat) (request : Request) :
    Option (Ending × String × Seen) :=
  (session.take fuel request).toOption.map fun (ending, after) =>
    (ending, after.machine.output, after.seen)

theorem Session.ends_of_shown {session : Session} {request : Request} (fuel : Nat)
    {ending : Ending} {output : String} {seen : Seen}
    (h : session.shown? fuel request = some (ending, output, seen)) :
    session.Ends request ending output seen := by
  obtain ⟨⟨_, after⟩, htake, hshown⟩ := Except.ok_of_map_toOption h
  cases hshown
  exact ⟨fuel, after, htake, rfl, rfl⟩

/-! ## Units that are not run -/

namespace Session

variable {session session' : Session} {ending : Ending} {printed : String} {seen : Seen}

theorem prints_iff_of_none {request : Request} (hready : session.stage = .ready)
    (h : session.accept? request = none) :
    session.Prints request ending printed seen ↔
      ending = (session.verdict request).ending ∧ printed = "" ∧
        seen = ⟨(session.verdict request).entries, session.machine.input,
          session.machine.shownGlobals⟩ := by
  have htake (fuel : Nat) : ∃ checked : Session, session.take fuel request =
        .ok ((session.verdict request).ending, checked) ∧
      checked.machine = session.machine.write (session.dumps request) ∧
      checked.seen = ⟨(session.verdict request).entries, session.machine.input,
          session.machine.shownGlobals⟩ := by
    obtain ⟨checked, hnoted, htake⟩ := take_of_none hready h fuel
    have hmachine : checked.machine = session.machine.write _ := hnoted.machine
    have hentries : checked.report.entries = [] ++ _ := hnoted.entries
    refine ⟨_, htake, hmachine, ?_⟩
    show Seen.mk checked.report.entries checked.machine.input checked.machine.shownGlobals = _
    rw [hentries, hmachine]
    rfl
  constructor
  · rintro ⟨fuel, after, hafter, hprinted, rfl⟩
    obtain ⟨checked, hchecked, hmachine, hseen⟩ := htake fuel
    obtain ⟨rfl, rfl⟩ := Prod.mk.inj (Except.ok.inj (hchecked.symm.trans hafter))
    refine ⟨rfl, ?_, hseen⟩
    have houtput : checked.machine.output ++ "" =
        session.machine.output ++ session.dumps request ++ "" := by rw [hmachine]; rfl
    rw [hprinted, String.append_empty] at houtput
    exact (String.append_right_inj _).1 houtput
  · rintro ⟨rfl, rfl, rfl⟩
    obtain ⟨checked, hchecked, hmachine, hseen⟩ := htake 0
    exact ⟨0, checked, hchecked, by rw [hmachine, String.append_empty]; rfl, hseen⟩

end Session

/-! ## Units that are run -/

namespace Settles

variable {room : Nat} {first second : List Stmt} {machine there : Machine}

/-- Statements behind some that come to an end come to what they come to from there. -/
theorem behind (h : Settles (fun fuel => executeUnit fuel room first machine) (.done () there))
    {outcome : Outcome Unit}
    (hsecond : Settles (fun fuel => executeUnit fuel room second there) outcome) :
    Settles (fun fuel => executeUnit fuel room (first ++ second) machine) outcome := by
  obtain ⟨enough, henough⟩ := h
  obtain ⟨enough', henough'⟩ := hsecond
  refine ⟨max enough enough', fun fuel hfuel => ?_⟩
  have hfirst : executeUnit fuel room first machine = _ :=
    henough fuel (Nat.le_trans (Nat.le_max_left _ _) hfuel)
  show executeUnit fuel room (first ++ second) machine = outcome
  rw [executeUnit_append, Run.bind, hfirst]
  exact henough' fuel (Nat.le_trans (Nat.le_max_right _ _) hfuel)

/-- They end with no less fuel than that takes. -/
theorem behind_eq (h : Settles (fun fuel => executeUnit fuel room first machine) (.done () there))
    {fuel : Nat} (hends : executeUnit fuel room (first ++ second) machine ≠ .outOfFuel) :
    executeUnit fuel room (first ++ second) machine = executeUnit fuel room second there := by
  obtain ⟨enough, henough⟩ := h
  rw [executeUnit_append, Run.bind] at hends ⊢
  have hfirst : executeUnit fuel room first machine ≠ .outOfFuel :=
    fun houtcome => hends (by rw [houtcome])
  have hmore := executeUnit_le (Nat.le_max_left fuel enough) hfirst
  have hdone : executeUnit (max fuel enough) room first machine = _ :=
    henough _ (Nat.le_max_right fuel enough)
  rw [← hmore, hdone]

end Settles

theorem Machine.Twin.shownGlobals {T : Twinning} {names : Nat → Renaming}
    {machine other : Machine} (h : Machine.Twin T names machine other) :
    other.shownGlobals = machine.shownGlobals := by
  rw [Machine.shownGlobals, Machine.shownGlobals, h.scopes.bindings_globals]
  simp only [h.display]

/-- Sessions with the same to be seen, which have printed the same since the runs began. -/
structure Session.Alike (T : Twinning) (session other : Session) : Prop where
  seen : other.seen = session.seen
  output : ∃ text, session.machine.output = T.before ++ text ∧
    other.machine.output = T.before' ++ text

/-- Twin outcomes are concluded alike. -/
theorem Acceptance.conclude_twin {T : Twinning} {names : Nat → Renaming} {machine : Machine}
    {outcome outcome' : Outcome Unit} (htwin : outcome.Twin T names machine outcome')
    {acceptance other : Acceptance}
    (hentries : other.session.report.entries = acceptance.session.report.entries)
    {ending : Ending} {after : Session} (h : acceptance.conclude outcome = .ok (ending, after)) :
    ∃ after', other.conclude outcome' = .ok (ending, after') ∧ after.Alike T after' := by
  cases htwin with
  | done _ hafter _ =>
    cases h
    refine ⟨_, rfl, ?_, hafter.output⟩
    simp only [Session.seen, Session.closeUnit, hentries, hafter.input, hafter.shownGlobals]
  | @failed _ failure failure' machine machine' hfault hafter =>
    cases h
    refine ⟨_, rfl, ?_, hafter.output⟩
    have hglobals : (other.session.noteFailure failure' machine').machine.shownGlobals =
        (acceptance.session.noteFailure failure machine).machine.shownGlobals := hafter.shownGlobals
    simp only [Session.seen, Session.closeUnit, hglobals]
    simp only [Session.noteFailure, Report.noteFailure_eq, hentries, hfault, hafter.input]
  | stuck => cases h

namespace Session

variable {session session' : Session} {text text' : String} {acceptance acceptance' : Acceptance}

theorem take_run (h : session.accept? (.run text) = some acceptance) (fuel : Nat) :
    session.take fuel (.run text) =
      acceptance.conclude (executeUnit fuel acceptance.session.limits.calls acceptance.program
        acceptance.machine) := by
  rw [take_of_some h, executeUnit_eq]
  cases accepts_of_accept? h with | run _ _ _ => rfl

variable {T : Twinning} {names : Nat → Renaming}

/-- Twin units end alike, also if the other has statements in front that have come to an end:
what is written from there on is the same. -/
theorem ends_behind (haccept : session.accept? (.run text) = some acceptance)
    (haccept' : session'.accept? (.run text') = some acceptance')
    (hentries : acceptance'.session.report.entries = acceptance.session.report.entries) {room : Nat}
    (hroom : acceptance.session.limits.calls = room)
    (hroom' : acceptance'.session.limits.calls = room)
    {first second : List Stmt} (hprogram : acceptance'.program = first ++ second)
    {there : Machine}
    (hfirst : Settles (fun fuel => executeUnit fuel room first acceptance'.machine)
      (.done () there))
    (hmachine : Machine.Twin T names acceptance.machine there)
    (hglobals : acceptance.machine.current = Machine.globals)
    (htwins : stmtTwins T.toMatching [] acceptance.program second) (ending : Ending)
    (output : String) (seen : Seen) :
    (session.Ends (.run text) ending output seen → ∃ written, output = T.before ++ written ∧
      session'.Ends (.run text') ending (T.before' ++ written) seen) ∧
    (session'.Ends (.run text') ending output seen → ∃ written, output = T.before' ++ written ∧
      session.Ends (.run text) ending (T.before ++ written) seen) := by
  simp only [Ends, take_run haccept, take_run haccept', hprogram, hroom, hroom']
  constructor
  · rintro ⟨fuel, after, hconclude, rfl, rfl⟩
    obtain ⟨outcome', hsettles, htwin⟩ := hmachine.executeUnit hglobals htwins fuel room
      fun houtcome => by simp [houtcome, Acceptance.conclude] at hconclude
    obtain ⟨after', hconclude', hseen, written, hwritten, hwritten'⟩ :=
      Acceptance.conclude_twin htwin hentries hconclude
    obtain ⟨enough, henough⟩ := hfirst.behind hsettles
    refine ⟨written, hwritten, enough, after', ?_, hwritten', hseen⟩
    rw [← hconclude']
    exact congrArg acceptance'.conclude (henough enough (Nat.le_refl _))
  · rintro ⟨fuel, after', hconclude', rfl, rfl⟩
    have hends : executeUnit fuel room (first ++ second) acceptance'.machine ≠ .outOfFuel :=
      fun houtcome => by simp [houtcome, Acceptance.conclude] at hconclude'
    rw [hfirst.behind_eq hends] at hconclude' hends
    obtain ⟨outcome, ⟨enough, henough⟩, htwin⟩ := hmachine.symm.executeUnit
      (hmachine.current.trans hglobals) (stmtTwins_symm [] _ htwins) fuel room hends
    obtain ⟨after, hconclude, hseen, written, hwritten', hwritten⟩ :=
      Acceptance.conclude_twin htwin hentries.symm hconclude'
    refine ⟨written, hwritten', enough, after, ?_, hwritten, hseen⟩
    rw [← hconclude]
    exact congrArg acceptance.conclude (henough enough (Nat.le_refl _))

/-- Twin units end alike. -/
theorem prints_iff_of_twin (haccept : session.accept? (.run text) = some acceptance)
    (haccept' : session'.accept? (.run text') = some acceptance')
    (hentries : acceptance'.session.report.entries = acceptance.session.report.entries)
    (hlimits : acceptance'.session.limits = acceptance.session.limits)
    (hmachine : Machine.Twin T names acceptance.machine acceptance'.machine)
    (hglobals : acceptance.machine.current = Machine.globals)
    (htwins : stmtTwins T.toMatching [] acceptance.program acceptance'.program)
    (hbefore : T.before = session.machine.output ++ session.dumps (.run text))
    (hbefore' : T.before' = session'.machine.output ++ session'.dumps (.run text'))
    (ending : Ending) (printed : String) (seen : Seen) :
    session.Prints (.run text) ending printed seen ↔
      session'.Prints (.run text') ending printed seen := by
  have hends := ends_behind haccept haccept' hentries rfl (by rw [hlimits]) (List.nil_append _).symm
    ⟨0, fun _ _ => rfl⟩ hmachine hglobals htwins ending
  rw [Prints, Prints, ← hbefore, ← hbefore']
  constructor
  · intro h
    obtain ⟨written, hwritten, h'⟩ := (hends _ seen).1 h
    rwa [(String.append_right_inj _).1 hwritten]
  · intro h'
    obtain ⟨written, hwritten, h⟩ := (hends _ seen).2 h'
    rwa [(String.append_right_inj _).1 hwritten]

end Session

end Moth
