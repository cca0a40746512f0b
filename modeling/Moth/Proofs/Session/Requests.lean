import Moth.Proofs.Execution.Script
import Moth.Proofs.Resolving.Accepted
import Moth.Proofs.Session.Stages
/-!
# Requests to a session

A session is asked to run a program or to evaluate an expression.  What the check of a request
comes to depends on its text, the limits and the number of its unit alone: `Request.check` gives
the verdict, `Session.checked` what a session writes and notes of it.  A request that is accepted
then ends as its tasks do.
-/

namespace Moth

open Eval

inductive Request where
  | run (text : String)
  | evaluate (text : String)

namespace Eval

def runAll (fuel : Nat) : List Task → Run Unit
  | [] => pure ()
  | task :: rest => do
    let _ ← task.run fuel
    runAll fuel rest

theorem executeUnit_eq (fuel room : Nat) (program : List Stmt) :
    executeUnit fuel room program = runAll fuel (program.map (Task.stmt room)) := by
  induction program with
  | nil => rfl
  | cons first rest ih =>
    rw [executeUnit, List.map_cons, runAll, ih]
    rfl

end Eval

/-- A unit that was accepted: the session after the check, the program and its links, and the
tasks to run. -/
structure Acceptance where
  session : Session
  resolution : Resolution
  program : List Stmt
  tasks : List Task

namespace Acceptance

def machine (acceptance : Acceptance) : Machine :=
  acceptance.session.machine.addLinks acceptance.resolution

def conclude (acceptance : Acceptance) : Outcome Unit → Except Trouble (Ending × Session)
  | .done () machine => .ok (.completed, { acceptance.session with machine }.closeUnit)
  | .failed failure machine =>
    .ok (.runtimeError, (acceptance.session.noteFailure failure machine).closeUnit)
  | .stuck _ => .error .stuck
  | .outOfFuel => .error .outOfFuel

end Acceptance

theorem Except.ok_of_map_toOption {ε α β : Type} {x : Except ε α} {f : α → β} {b : β}
    (h : x.toOption.map f = some b) : ∃ a, x = .ok a ∧ f a = b := by
  cases x with
  | error e => cases h
  | ok a => exact ⟨a, rfl, Option.some.inj h⟩

namespace Session

def take (fuel : Nat) (session : Session) : Request → Except Trouble (Ending × Session)
  | .run text => session.run fuel text
  | .evaluate text => (session.evaluate fuel text).map fun (ending, _, after) => (ending, after)

theorem take_of_isOk {session : Session} {fuel : Nat} {request : Request}
    (h : (session.take fuel request).isOk = true) :
    ∃ ending after, session.take fuel request = .ok (ending, after) := by
  cases htake : session.take fuel request with
  | ok result => exact ⟨result.1, result.2, rfl⟩
  | error trouble =>
    rw [htake] at h
    cases h

/-- The unit of a request, if it has no static issue and is to be run. -/
def accept? (session : Session) : Request → Option Acceptance
  | .run text =>
    match session.openUnit text with
    | .error _ => none
    | .ok (scan, opened) =>
      match opened.checkProgram scan with
      | (_, none) => none
      | (checked, some (resolution, program)) =>
        if checked.flags.dryRun then none
        else some ⟨checked, resolution, program,
          program.map (Task.stmt checked.limits.calls)⟩
  | .evaluate text =>
    match session.openUnit text with
    | .error _ => none
    | .ok (scan, opened) =>
      match opened.checkExpression scan with
      | (_, none) => none
      | (checked, some (resolution, expr)) =>
        if checked.flags.dryRun then none
        else some ⟨checked, resolution, [.expression expr], [.expr checked.limits.calls expr]⟩

inductive Accepts (session : Session) : Request → Acceptance → Prop where
  | run {text : String} {scan : Scan} {opened checked : Session} {resolution : Resolution}
      {program : List Stmt} : session.openUnit text = .ok (scan, opened) →
      opened.checkProgram scan = (checked, some (resolution, program)) →
      checked.flags.dryRun = false →
      Accepts session (.run text)
        ⟨checked, resolution, program, program.map (Task.stmt checked.limits.calls)⟩
  | evaluate {text : String} {scan : Scan} {opened checked : Session} {resolution : Resolution}
      {expr : Expr} : session.openUnit text = .ok (scan, opened) →
      opened.checkExpression scan = (checked, some (resolution, expr)) →
      checked.flags.dryRun = false →
      Accepts session (.evaluate text)
        ⟨checked, resolution, [.expression expr], [.expr checked.limits.calls expr]⟩

variable {session : Session} {request : Request} {acceptance : Acceptance}

theorem accepts_of_accept? (h : session.accept? request = some acceptance) :
    session.Accepts request acceptance := by
  cases request <;>
  · simp only [accept?] at h
    split at h
    · cases h
    · next hopen =>
      split at h
      · cases h
      · next hcheck =>
        split at h
        · cases h
        · next hdry =>
          cases h
          constructor
          · exact hopen
          · exact hcheck
          · simpa using hdry

end Session

/-! ## What comes of a request -/

/-- A request that was parsed: its program, the text that shows it, and the tasks to run. -/
structure Draft where
  program : List Stmt
  shown : String
  tasks : List Task

def Draft.ofProgram (room : Nat) (program : List Stmt) : Draft :=
  ⟨program, renderProgram program, program.map (Task.stmt room)⟩

def Draft.ofExpr (room : Nat) (expr : Expr) : Draft :=
  ⟨[.expression expr], expr.render ++ "\n", [.expr room expr]⟩

inductive Verdict where
  /-- The scanner or the parser complains. -/
  | malformed (entries : List Entry)
  /-- The resolver complains. -/
  | rejected (draft : Draft) (entries : List Entry)
  | accepted (draft : Draft) (resolution : Resolution)

namespace Verdict

def entries : Verdict → List Entry
  | malformed entries => entries
  | rejected _ entries => entries
  | accepted _ _ => []

def shown : Verdict → String
  | malformed _ => ""
  | rejected draft _ => draft.shown
  | accepted draft _ => draft.shown

def ending : Verdict → Ending
  | accepted _ _ => .completed
  | _ => .staticError

def accepted? : Verdict → Option (Draft × Resolution)
  | accepted draft resolution => some (draft, resolution)
  | _ => none

theorem isSome_accepted? (verdict : Verdict) :
    (if verdict.accepted?.isSome then Ending.completed else .staticError) = verdict.ending := by
  cases verdict <;> rfl

theorem eq_accepted {verdict : Verdict} {draft : Draft} {resolution : Resolution}
    (h : verdict.accepted? = some (draft, resolution)) : verdict = .accepted draft resolution := by
  cases verdict <;> cases h
  rfl

end Verdict

namespace Request

def text : Request → String
  | run text => text
  | evaluate text => text

def scanned (unit : Nat) (request : Request) : Scan := scan unit request.text.toList

def parsed (limits : Limits) (scan : Scan) : Request → Parsed (Option Draft)
  | run _ =>
    let parsed := parseProgram scan.tokens.toList scan.stop limits.nesting
    ⟨some (.ofProgram limits.calls parsed.tree), parsed.complaints⟩
  | evaluate _ =>
    let parsed := parseExpression scan.tokens.toList scan.stop limits.nesting
    ⟨parsed.tree.map (.ofExpr limits.calls), parsed.complaints⟩

/-- What the check of a request comes to in a given unit; of a session only its limits have a part
in it. -/
def check (limits : Limits) (unit : Nat) (request : Request) : Verdict :=
  let scan := request.scanned unit
  let entries := scan.entries ++ (request.parsed limits scan).entries
  match (request.parsed limits scan).tree with
  | none => .malformed entries
  | some draft =>
    if entries ≠ [] then .malformed entries
    else if (resolveProgram draft.program).complaints = #[] then
      .accepted draft (resolveProgram draft.program).resolution
    else .rejected draft (resolveProgram draft.program).entries

/-- What is written before a unit is run: the tokens and the tree, each if asked for. -/
def dumps (limits : Limits) (flags : Flags) (unit : Nat) (request : Request) : String :=
  (if flags.showTokens then Session.listing (request.scanned unit) else "") ++
    if flags.showParse then (request.check limits unit).shown else ""

variable {limits : Limits} {unit : Nat} {request : Request} {draft : Draft}
  {resolution : Resolution}

theorem check_eq_accepted : request.check limits unit = .accepted draft resolution ↔
    (request.scanned unit).entries = [] ∧
      request.parsed limits (request.scanned unit) = ⟨some draft, #[]⟩ ∧
      resolveProgram draft.program = ⟨resolution, #[]⟩ := by
  constructor
  · intro h
    unfold check at h
    dsimp only at h
    split at h
    · cases h
    · next hdraft =>
      split at h
      · cases h
      · next hquiet =>
        split at h
        · next hresolved =>
          cases h
          obtain ⟨hscan, hparse⟩ := List.append_eq_nil_iff.1 (Classical.not_not.1 hquiet)
          rw [Parsed.entries_eq_nil] at hparse
          exact ⟨hscan, by rw [← hdraft, ← hparse], by rw [← hresolved]⟩
        · cases h
  · rintro ⟨hscan, hparse, hresolve⟩
    unfold check
    simp [hscan, hparse, hresolve, Parsed.entries]

/-- What was parsed without complaint tells of tokens of its unit only. -/
theorem told (h : request.parsed limits (request.scanned unit) = ⟨some draft, #[]⟩) :
    BranchedAll draft.program ∧
      Mentions (request.scanned unit).tokens.toList (programEvents draft.program) := by
  obtain ⟨htree, hquiet⟩ := Parsed.mk.inj h
  cases request with
  | run text =>
    obtain rfl := Option.some.inj htree
    have hparse : parseProgram (scan unit text.toList).tokens.toList
        (scan unit text.toList).stop limits.nesting = ⟨_, #[]⟩ := congrArg (Parsed.mk _) hquiet
    exact mentions_of_parseProgram hparse
  | evaluate text =>
    obtain ⟨expr, hexpr, rfl⟩ := Option.map_eq_some_iff.1 htree
    have hparse : parseExpression (scan unit text.toList).tokens.toList
        (scan unit text.toList).stop limits.nesting = ⟨some expr, #[]⟩ := by
      rw [← hexpr]
      exact congrArg (Parsed.mk _) hquiet
    exact ⟨⟨trivial, trivial⟩, mentions_of_parseExpression hparse⟩

theorem accepted_of_check (h : request.check limits unit = .accepted draft resolution) :
    Accepted unit draft.program resolution := by
  obtain ⟨-, hparse, hresolve⟩ := check_eq_accepted.1 h
  obtain ⟨hbranched, hmentions⟩ := told hparse
  exact accepted_of_mentions hbranched hmentions hresolve

end Request

namespace Session

variable {session : Session} {request : Request} {acceptance : Acceptance}

/-- What the check of the next request comes to. -/
def verdict (session : Session) (request : Request) : Verdict :=
  request.check session.limits (session.report.unit + 1)

/-- What is written of the next request before it is run. -/
def dumps (session : Session) (request : Request) : String :=
  request.dumps session.limits session.flags (session.report.unit + 1)

def checkRequest (opened : Session) (scan : Scan) :
    Request → Session × Option (Draft × Resolution)
  | .run _ =>
    let (checked, found) := opened.checkProgram scan
    (checked, found.map fun (resolution, program) =>
      (.ofProgram checked.limits.calls program, resolution))
  | .evaluate _ =>
    let (checked, found) := opened.checkExpression scan
    (checked, found.map fun (resolution, expr) => (.ofExpr checked.limits.calls expr, resolution))

theorem checkRequest_malformed (opened : Session) {scan : Scan}
    (h : (request.parsed opened.limits scan).tree = none ∨
      opened.report.entries ++ (request.parsed opened.limits scan).entries ≠ []) :
    ∃ checked, opened.checkRequest scan request = (checked, none) ∧
      opened.Noted checked "" (request.parsed opened.limits scan).entries := by
  cases request with
  | run text =>
    obtain ⟨checked, hnoted, hcheck⟩ := checkProgram_malformed rfl (h.resolve_left nofun)
    exact ⟨checked, by rw [checkRequest, hcheck]; rfl, hnoted⟩
  | evaluate text =>
    obtain ⟨checked, hnoted, hcheck⟩ :=
      checkExpression_malformed rfl (h.imp_left Option.map_eq_none_iff.1)
    exact ⟨checked, by rw [checkRequest, hcheck]; rfl, hnoted⟩

theorem checkRequest_parsed {opened : Session} {scan : Scan} {draft : Draft}
    (hdraft : (request.parsed opened.limits scan).tree = some draft)
    (h : opened.report.entries ++ (request.parsed opened.limits scan).entries = []) :
    ∃ checked, opened.checkRequest scan request =
        (checked, if (resolveProgram draft.program).complaints = #[] then
          some (draft, (resolveProgram draft.program).resolution) else none) ∧
      opened.Noted checked (if opened.flags.showParse then draft.shown else "")
        (resolveProgram draft.program).entries := by
  cases request with
  | run text =>
    cases hdraft
    obtain ⟨checked, hnoted, hcheck⟩ := checkProgram_parsed rfl h
    refine ⟨checked, ?_, hnoted⟩
    rw [checkRequest, hcheck]
    simp only [Draft.ofProgram, hnoted.limits]
    split <;> simp_all
  | evaluate text =>
    obtain ⟨expr, hexpr, rfl⟩ := Option.map_eq_some_iff.1 hdraft
    obtain ⟨checked, hnoted, hcheck⟩ := checkExpression_parsed rfl hexpr h
    refine ⟨checked, ?_, hnoted⟩
    rw [checkRequest, hcheck]
    simp only [Draft.ofExpr, hnoted.limits]
    split <;> simp_all

/-- A session that has opened a unit notes what the check of it comes to. -/
theorem checkRequest_eq {opened : Session} {unit : Nat} {request : Request}
    (h : opened.report.entries = (request.scanned unit).entries) :
    ∃ checked, opened.checkRequest (request.scanned unit) request =
        (checked, (request.check opened.limits unit).accepted?) ∧
      checked.report.entries = (request.check opened.limits unit).entries ∧
      ∃ entries, opened.Noted checked
        (if opened.flags.showParse then (request.check opened.limits unit).shown else "")
        entries := by
  unfold Request.check
  dsimp only
  split
  · next hnone =>
    obtain ⟨checked, hcheck, hnoted⟩ := checkRequest_malformed opened (.inl hnone)
    refine ⟨checked, hcheck, by rw [hnoted.entries, h]; rfl,
      (request.parsed opened.limits (request.scanned unit)).entries, ?_⟩
    simpa [Verdict.shown] using hnoted
  · next draft hdraft =>
    rw [← h]
    by_cases hquiet : opened.report.entries ++
        (request.parsed opened.limits (request.scanned unit)).entries = []
    · obtain ⟨checked, hcheck, hnoted⟩ := checkRequest_parsed hdraft hquiet
      have hentries := hnoted.entries
      rw [(List.append_eq_nil_iff.1 hquiet).1, List.nil_append] at hentries
      rw [if_neg (fun hne => hne hquiet)]
      refine ⟨checked, ?_⟩
      by_cases hresolved : (resolveProgram draft.program).complaints = #[]
      · rw [if_pos hresolved] at hcheck ⊢
        rw [Resolved.entries_eq_nil.2 hresolved] at hentries
        exact ⟨hcheck, hentries, _, hnoted⟩
      · rw [if_neg hresolved] at hcheck ⊢
        exact ⟨hcheck, hentries, _, hnoted⟩
    · obtain ⟨checked, hcheck, hnoted⟩ := checkRequest_malformed opened (.inr hquiet)
      rw [if_pos hquiet]
      refine ⟨checked, hcheck, hnoted.entries,
        (request.parsed opened.limits (request.scanned unit)).entries, ?_⟩
      simpa [Verdict.shown] using hnoted

/-- What becomes of a request whose unit was opened and checked. -/
theorem accept?_of_check {opened checked : Session} {scan : Scan}
    {found : Option (Draft × Resolution)}
    (hopen : session.openUnit request.text = .ok (scan, opened))
    (hcheck : opened.checkRequest scan request = (checked, found)) :
    session.accept? request = if checked.flags.dryRun then none else
        found.map fun (draft, resolution) =>
          ⟨checked, resolution, draft.program, draft.tasks⟩ := by
  cases request with
  | run text =>
    simp only [accept?, show session.openUnit text = .ok (scan, opened) from hopen]
    simp only [checkRequest] at hcheck
    generalize opened.checkProgram scan = result at hcheck
    obtain ⟨other, _ | ⟨resolution, program⟩⟩ := result <;> cases hcheck
    · simp
    · rfl
  | evaluate text =>
    simp only [accept?, show session.openUnit text = .ok (scan, opened) from hopen]
    simp only [checkRequest] at hcheck
    generalize opened.checkExpression scan = result at hcheck
    obtain ⟨other, _ | ⟨resolution, program⟩⟩ := result <;> cases hcheck
    · simp
    · rfl

/-- How a request ends whose unit is not run. -/
theorem take_of_check {opened checked : Session} {scan : Scan}
    {found : Option (Draft × Resolution)}
    (hopen : session.openUnit request.text = .ok (scan, opened))
    (hcheck : opened.checkRequest scan request = (checked, found))
    (hidle : found = none ∨ checked.flags.dryRun = true) (fuel : Nat) :
    session.take fuel request =
      .ok (if found.isSome then .completed else .staticError, checked.closeUnit) := by
  cases request with
  | run text =>
    have hopen : session.openUnit text = .ok (scan, opened) := hopen
    simp only [take, run, hopen, runTokens, bind, Except.bind]
    simp only [checkRequest] at hcheck
    generalize opened.checkProgram scan = result at hcheck
    obtain ⟨other, _ | ⟨resolution, program⟩⟩ := result <;> cases hcheck
    · rfl
    · have hdry : other.flags.dryRun = true := hidle.resolve_left nofun
      simp only [hdry]
      rfl
  | evaluate text =>
    have hopen : session.openUnit text = .ok (scan, opened) := hopen
    simp only [take, evaluate, hopen, evaluateTokens, bind, Except.bind]
    simp only [checkRequest] at hcheck
    generalize opened.checkExpression scan = result at hcheck
    obtain ⟨other, _ | ⟨resolution, program⟩⟩ := result <;> cases hcheck
    · rfl
    · have hdry : other.flags.dryRun = true := hidle.resolve_left nofun
      simp only [hdry]
      rfl

/-- What a ready session writes and notes of a request, whether it is to be run, and how it ends
if it is not. -/
theorem checked (hready : session.stage = .ready) (request : Request) :
    ∃ checked, session.begun.Noted checked
        (session.dumps request)
        (session.verdict request).entries ∧
      (session.accept? request = if session.flags.dryRun then none else
        (session.verdict request).accepted?.map fun (draft, resolution) =>
          ⟨checked, resolution, draft.program, draft.tasks⟩) ∧
      ((session.verdict request).accepted? = none ∨ session.flags.dryRun = true →
        ∀ fuel, session.take fuel request =
          .ok ((session.verdict request).ending, checked.closeUnit)) := by
  obtain ⟨opened, hopen, hopened⟩ := openUnit_ready hready request.text
  have hempty : session.begun.report.entries = [] := rfl
  have hentries := hopened.entries
  rw [hempty, List.nil_append] at hentries
  obtain ⟨checked, hcheck, hchecked, entries, hnoted⟩ := checkRequest_eq hentries
  rw [show opened.limits = session.limits from hopened.limits, ← verdict] at hcheck hchecked hnoted
  have hflags : checked.flags = session.flags := hnoted.flags.trans hopened.flags
  refine ⟨checked, ⟨?_, ?_, ?_, ?_, hflags, hnoted.limits.trans hopened.limits⟩, ?_, ?_⟩
  · rw [hnoted.machine, hopened.machine, Machine.write_write, hopened.flags]
    rfl
  · rw [hchecked, hempty, List.nil_append]
  · exact hnoted.unit.trans hopened.unit
  · exact hnoted.stage.trans hopened.stage
  · rw [← hflags]
    exact accept?_of_check hopen hcheck
  · intro hidle fuel
    rw [← hflags] at hidle
    rw [take_of_check hopen hcheck hidle, Verdict.isSome_accepted?]

/-- A request that runs nothing ends with what its check has written. -/
theorem take_of_none (hready : session.stage = .ready) (h : session.accept? request = none)
    (fuel : Nat) : ∃ checked, session.begun.Noted checked
        (session.dumps request)
        (session.verdict request).entries ∧
      session.take fuel request =
        .ok ((session.verdict request).ending, checked.closeUnit) := by
  obtain ⟨checked, hnoted, haccept, hidle⟩ := session.checked hready request
  refine ⟨checked, hnoted, hidle ?_ fuel⟩
  rw [haccept] at h
  split at h
  · next hdry => exact .inr hdry
  · exact .inl (Option.map_eq_none_iff.1 h)

/-- A request that is accepted ends as its tasks do. -/
theorem take_of_some (h : session.accept? request = some acceptance) (fuel : Nat) :
    session.take fuel request =
      acceptance.conclude (runAll fuel acceptance.tasks acceptance.machine) := by
  cases accepts_of_accept? h with
  | run hopen hcheck hdry =>
    simp only [take, run, hopen, runTokens, bind, Except.bind, hcheck, hdry, interpret,
      executeUnit_eq, Acceptance.machine]
    cases runAll fuel _ _ <;> rfl
  | evaluate hopen hcheck hdry =>
    simp only [take, evaluate, hopen, evaluateTokens, bind, Except.bind, hcheck, hdry,
      interpretExpression, Acceptance.machine, runAll, Task.run, Run.bind]
    cases Eval.evaluate fuel _ _ _ <;> rfl

/-- What is known of a unit that was accepted. -/
theorem accepted (hready : session.stage = .ready)
    (h : session.accept? request = some acceptance) :
    session.begun.Noted acceptance.session
        (session.dumps request) [] ∧
      Accepted (session.report.unit + 1) acceptance.program acceptance.resolution := by
  obtain ⟨checked, hnoted, haccept, -⟩ := session.checked hready request
  rw [haccept] at h
  split at h
  · cases h
  · obtain ⟨⟨draft, resolution⟩, hsome, rfl⟩ := Option.map_eq_some_iff.1 h
    have hverdict := Verdict.eq_accepted hsome
    rw [hverdict] at hnoted
    exact ⟨hnoted, Request.accepted_of_check hverdict⟩

end Session

end Moth
