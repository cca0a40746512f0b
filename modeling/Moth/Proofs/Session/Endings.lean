import Moth.Proofs.Session.Soundness
/-!
# How units end

Whatever a session was asked before, it is ready for the next request, and how the request ends
says exactly which issues it has.  A request that is not run leaves the machine alone but for
the tokens and the tree it was asked to show.
-/

namespace Moth

open Eval

/-! ## Phases -/

namespace Report

def phases (report : Report) : List Phase := report.issues.toList.map (·.phase)

theorem phases_eq (report : Report) : report.phases = report.entries.map Prod.fst := by
  simp [phases, entries]

end Report

/-- What an ending says about the issues of a unit. -/
def Ending.Tells : Ending → List Phase → Prop
  | completed, phases => phases = []
  | runtimeError, phases => phases = [.runtime]
  | staticError, phases => phases ≠ [] ∧
      ((∀ phase ∈ phases, phase = .scan ∨ phase = .parse) ∨ ∀ phase ∈ phases, phase = .resolve)

/-- No two endings say the same. -/
theorem Ending.Tells.unique {ending other : Ending} {phases : List Phase}
    (h : ending.Tells phases) (h' : other.Tells phases) : ending = other := by
  cases ending <;> cases other <;> simp only [Ending.Tells] at h h' <;> simp_all

namespace Request

variable {limits : Limits} {request : Request}

theorem entries_ne_nil_of_none {scan : Scan} (h : (request.parsed limits scan).tree = none) :
    (request.parsed limits scan).entries ≠ [] := by
  cases request with
  | run text => cases h
  | evaluate text =>
    rw [ne_eq, Parsed.entries_eq_nil]
    exact Syntax.complaints_of_parseExpression_none (Option.map_eq_none_iff.1 h)

/-- What is written down before a unit runs. -/
theorem check_tells (request : Request) (limits : Limits) (unit : Nat) :
    (request.check limits unit).ending.Tells
      ((request.check limits unit).entries.map Prod.fst) := by
  have hscan : ∀ entry ∈ (request.scanned unit).entries, entry.1 = .scan := by
    simp [Scan.entries]
  have hparse : ∀ entry ∈ (request.parsed limits (request.scanned unit)).entries,
      entry.1 = .parse := by
    simp [Parsed.entries]
  have hmalformed (hne : (request.scanned unit).entries ++
      (request.parsed limits (request.scanned unit)).entries ≠ []) :
      Ending.staticError.Tells (((request.scanned unit).entries ++
        (request.parsed limits (request.scanned unit)).entries).map Prod.fst) := by
    refine ⟨by simpa using hne, .inl (List.forall_mem_map.2 fun entry hentry => ?_)⟩
    exact (List.mem_append.1 hentry).imp (hscan entry) (hparse entry)
  unfold check
  dsimp only
  split
  · next hnone =>
    exact hmalformed (List.append_ne_nil_of_right_ne_nil _ (entries_ne_nil_of_none hnone))
  · next draft hdraft =>
    split
    · next hne => exact hmalformed hne
    · split
      · exact rfl
      · next hresolved =>
        refine ⟨?_, .inr ?_⟩
        · simpa [Verdict.entries, Resolved.entries] using hresolved
        · simp [Verdict.entries, Resolved.entries]

end Request

/-! ## Turns -/

theorem Acceptance.tells {acceptance : Acceptance} (h : acceptance.session.report.entries = [])
    {outcome : Outcome Unit} {ending : Ending} {after : Session}
    (hconclude : acceptance.conclude outcome = .ok (ending, after)) :
    ending ≠ .staticError ∧ ending.Tells after.report.phases := by
  cases outcome with
  | done value machine =>
    cases hconclude
    refine ⟨by simp, ?_⟩
    rw [Report.phases_eq]
    exact congrArg (List.map Prod.fst) h
  | failed failure machine =>
    cases hconclude
    refine ⟨by simp, ?_⟩
    rw [Report.phases_eq]
    refine (congrArg (List.map Prod.fst) (Report.noteFailure_eq _ _ _)).trans ?_
    rw [h]
    rfl
  | stuck | outOfFuel => cases hconclude

namespace Session

variable {session : Session} {request : Request} {fuel : Nat}

/-- The issues of the last unit have no part in what comes of the next. -/
theorem take_forgets (session : Session) (issues : Array Issue) (fuel : Nat) (request : Request) :
    take fuel { session with report := { session.report with issues } } request =
      session.take fuel request := by
  cases request <;> rfl

/-- How a turn ends, and what it leaves alone. -/
theorem take_tells (hready : session.stage = .ready) {ending : Ending} {after : Session}
    (htake : session.take fuel request = .ok (ending, after)) :
    ending.Tells after.report.phases ∧
      (ending = .staticError ∨ session.flags.dryRun = true → after.machine =
        session.machine.write (session.dumps request)) := by
  cases hsome : session.accept? request with
  | none =>
    obtain ⟨checked, hnoted, hidle⟩ := take_of_none hready hsome fuel
    rw [htake] at hidle
    cases hidle
    refine ⟨?_, fun _ => hnoted.machine⟩
    have hentries : checked.closeUnit.report.entries = _ := hnoted.entries
    rw [Report.phases_eq, hentries]
    exact Request.check_tells request _ _
  | some acceptance =>
    obtain ⟨checked, hnoted, haccept, -⟩ := session.checked hready request
    rw [take_of_some hsome] at htake
    obtain ⟨hstatic, htells⟩ := Acceptance.tells (session.accepted hready hsome).1.entries htake
    refine ⟨htells, fun hor => ?_⟩
    rw [haccept, if_pos (hor.resolve_left hstatic)] at hsome
    cases hsome

end Session

/-- A session is always ready and at its globals.  A request ends in exactly the way that its
issues say, and never for those of an earlier one; what is not run leaves the machine as it was
but for the tokens and the tree that the flags ask for. -/
theorem endings_tell {turns : List Turn} {session : Session} (h : Reached turns session) :
    session.stage = .ready ∧ session.machine.current = Machine.globals ∧
    ∀ request fuel,
      (∀ trouble, session.take fuel request = .error trouble → trouble = .outOfFuel) ∧
      (∀ issues, Session.take fuel { session with report := { session.report with issues } }
        request = session.take fuel request) ∧
      ∀ ending after, session.take fuel request = .ok (ending, after) →
        after.stage = .ready ∧ after.machine.current = Machine.globals ∧
        (∀ other : Ending, ending = other ↔ other.Tells after.report.phases) ∧
        (ending = .staticError ∨ session.flags.dryRun = true → after.machine =
          session.machine.write (session.dumps request)) := by
  refine ⟨h.sound.stage, h.sound.current, fun request fuel => ⟨h.sound.take.1, ?_, ?_⟩⟩
  · exact fun issues => session.take_forgets issues fuel request
  · intro ending after htake
    have hafter := h.sound.take.2 ending after htake
    obtain ⟨htells, hmachine⟩ := Session.take_tells h.sound.stage htake
    refine ⟨hafter.stage, hafter.current, fun other => ⟨?_, htells.unique⟩, hmachine⟩
    rintro rfl
    exact htells

def haltedStart : Session := .start { showParse := true } false (.seeded 0 0) ""

/-- A session that shows its trees and has stopped at a call of `nil`. -/
def haltedSession : Session := haltedStart.after 20 (.run "nil();")

/-- The failure is one issue.  After it a block that declares a name twice is rejected: the issue
of the failure is gone, and the tree is all that was written. -/
theorem haltedSession_tells : haltedSession.report.phases = [.runtime] ∧
    ∃ after, haltedSession.take 20 (.run "\x7bvar a;var a;\x7d") = .ok (.staticError, after) ∧
      after.report.phases = [.resolve] ∧ after.stage = .ready ∧
      after.machine = haltedSession.machine.write "\x7b\n    var a;\n    var a;\n\x7d\n" := by
  have hreached : Reached [⟨haltedStart, .run "nil();", 20⟩] haltedSession :=
    .after (.start _ _ _ _ _) (by decide +kernel)
  obtain ⟨-, -, hturn⟩ := endings_tell hreached
  obtain ⟨-, -, hends⟩ := hturn (.run "\x7bvar a;var a;\x7d") 20
  refine ⟨by decide +kernel, ?_⟩
  have hstatic : (haltedSession.take 20 (.run "\x7bvar a;var a;\x7d")).toOption.map
      (fun result => (result.1, result.2.report.phases)) = some (.staticError, [.resolve]) := by
    decide +kernel
  have hdumps : haltedSession.dumps (.run "\x7bvar a;var a;\x7d") =
      "\x7b\n    var a;\n    var a;\n\x7d\n" := by decide +kernel
  obtain ⟨⟨ending, after⟩, htake, hshown⟩ := Except.ok_of_map_toOption hstatic
  obtain ⟨rfl, hphases⟩ := Prod.mk.inj hshown
  obtain ⟨hstage, -, -, hmachine⟩ := hends _ _ htake
  exact ⟨after, htake, hphases, hstage, hdumps ▸ hmachine (.inl rfl)⟩

end Moth
