import Mathlib.Data.List.Forall2
import Moth.Proofs.Session.History
/-!
# What a turn finds

A turn finds the complaints of scanner, parser and resolver and the failure of its program.  The
report of the session gains one issue for each finding, in order, and the pointers of the issues
are taken from the text of the turn.
-/

namespace Moth

open Eval

inductive Finding where
  | scan (complaint : ScanComplaint)
  | parse (complaint : ParseComplaint)
  | resolve (complaint : ResolveComplaint)
  | runtime (failure : Failure)

namespace Finding

def phase : Finding → Phase
  | scan _ => .scan
  | parse _ => .parse
  | resolve _ => .resolve
  | runtime _ => .runtime

def message : Finding → String
  | scan complaint => complaint.fault.message
  | parse complaint => complaint.fault.message
  | resolve complaint => complaint.fault.message
  | runtime failure => failure.fault.message

/-- The token that the finding is at; the scanner finds faults where there is no token. -/
def token? : Finding → Option Token
  | scan _ => none
  | parse complaint => some complaint.token
  | resolve complaint => some complaint.token
  | runtime failure => some failure.token

def line : Finding → Int
  | scan complaint => complaint.line
  | parse complaint => complaint.token.line
  | resolve complaint => complaint.token.line
  | runtime failure => failure.token.line

def pointer (report : Report) : Finding → Option Pointer
  | scan complaint => report.pointAt complaint.offset 1
  | parse complaint => report.pointAtToken complaint.token
  | resolve complaint => report.pointAtToken complaint.token
  | runtime failure => report.pointAtToken failure.token

theorem pointer_congr {older newer : Report} (hsource : newer.source = older.source)
    (hunit : newer.unit = older.unit) (finding : Finding) :
    finding.pointer newer = finding.pointer older := by
  cases finding <;> simp only [pointer, Report.pointAtToken, Report.pointAt, hsource, hunit]

theorem pointer_of_token {finding : Finding} {token : Token} (h : finding.token? = some token)
    (report : Report) : finding.pointer report = report.pointAtToken token := by
  cases finding <;> cases h <;> rfl

/-- The issue says what the finding does, and points where the report points for it. -/
structure Noted (report : Report) (finding : Finding) (issue : Issue) : Prop where
  phase : issue.phase = finding.phase
  message : issue.message = finding.message
  line : issue.line = finding.line
  pointer : issue.pointer = finding.pointer report

end Finding

/-! ## Reports -/

namespace Report

/-- The newer report has one more issue for each of the findings. -/
structure Gains (older newer : Report) (findings : List Finding) : Prop where
  source : newer.source = older.source
  unit : newer.unit = older.unit
  issues : ∃ issues, newer.issues.toList = older.issues.toList ++ issues ∧
    List.Forall₂ (Finding.Noted older) findings issues

namespace Gains

variable {oldest older newer : Report} {findings more : List Finding}

/-- Nothing has changed but what was said on the console. -/
theorem quiet (hissues : newer.issues = older.issues) (hsource : newer.source = older.source)
    (hunit : newer.unit = older.unit) : older.Gains newer [] :=
  ⟨hsource, hunit, [], by rw [hissues, List.append_nil], .nil⟩

theorem refl (report : Report) : report.Gains report [] := quiet rfl rfl rfl

theorem info (report : Report) (words : List String) : report.Gains (report.info words) [] := by
  unfold Report.info
  split
  · exact quiet rfl rfl rfl
  · exact refl report

theorem add {finding : Finding} {issue : Issue} (h : finding.Noted older issue) :
    older.Gains (older.add issue) [finding] :=
  ⟨rfl, rfl, [issue], Array.toList_push, .cons h .nil⟩

theorem trans (h : oldest.Gains older findings) (h' : older.Gains newer more) :
    oldest.Gains newer (findings ++ more) := by
  obtain ⟨issues, hissues, hnoted⟩ := h.issues
  obtain ⟨issues', hissues', hnoted'⟩ := h'.issues
  -- What the later issues point into is what the earlier ones point into.
  have hsame : List.Forall₂ (Finding.Noted oldest) more issues' := by
    refine hnoted'.imp fun finding issue hnoted => { hnoted with pointer := ?_ }
    rw [hnoted.pointer, Finding.pointer_congr h.source h.unit]
  refine ⟨h'.source.trans h.source, h'.unit.trans h.unit, issues ++ issues', ?_, ?_⟩
  · rw [hissues', hissues, List.append_assoc]
  · exact List.rel_append hnoted hsame

theorem quietly (h : oldest.Gains older findings) (h' : older.Gains newer []) :
    oldest.Gains newer findings := by
  simpa using h.trans h'

theorem ok_iff (h : older.Gains newer findings) (hempty : older.issues = #[]) :
    newer.ok = true ↔ findings = [] := by
  obtain ⟨issues, hissues, hnoted⟩ := h.issues
  rw [hempty, List.nil_append] at hissues
  rw [Report.ok, Array.isEmpty_iff, ← Array.toList_eq_nil_iff, hissues,
    ← List.length_eq_zero_iff, ← hnoted.length_eq, List.length_eq_zero_iff]

/-- Noting complaints one after the other gains the findings that they are. -/
theorem foldl {α : Type} {note : Report → α → Report} {finding : α → Finding}
    (hnote : ∀ (report : Report) a, report.Gains (note report a) [finding a]) (complaints : Array α)
    (report : Report) :
    report.Gains (complaints.foldl note report) (complaints.toList.map finding) := by
  rw [← Array.foldl_toList]
  induction complaints.toList generalizing report with
  | nil => exact refl report
  | cons first rest ih => exact (hnote report first).trans (ih (note report first))

theorem noteScan (report : Report) (scan : Scan) :
    report.Gains (report.noteScan scan) (scan.complaints.toList.map .scan) :=
  foldl (fun _ _ => add ⟨rfl, rfl, rfl, rfl⟩) scan.complaints report

theorem noteParse {α : Type} (report : Report) (parsed : Parsed α) :
    report.Gains (report.noteParse parsed) (parsed.complaints.toList.map .parse) :=
  foldl (fun _ _ => add ⟨rfl, rfl, rfl, rfl⟩) parsed.complaints report

theorem noteResolve (report : Report) (resolved : Resolved) :
    report.Gains (report.noteResolve resolved) (resolved.complaints.toList.map .resolve) :=
  foldl (fun _ _ => add ⟨rfl, rfl, rfl, rfl⟩) resolved.complaints report

theorem noteFailure (report : Report) (failure : Failure) :
    report.Gains (report.noteFailure failure.token failure.fault.message) [.runtime failure] :=
  add ⟨rfl, rfl, rfl, rfl⟩

end Gains

end Report

/-! ## Turns -/

/-- What is found in a unit: what scanner and parser find, or else what the resolver finds in the
program, if there is one. -/
def staticFindings (found : List Finding) (program : Option (List Stmt)) : List Finding :=
  match found, program with
  | [], some program => (resolveProgram program).complaints.toList.map .resolve
  | found, _ => found

theorem staticFindings_of_ne_nil {found : List Finding} (h : found ≠ [])
    (program : Option (List Stmt)) : staticFindings found program = found := by
  cases found with
  | nil => exact absurd rfl h
  | cons first rest => rfl

theorem staticFindings_none (found : List Finding) : staticFindings found none = found := by
  cases found <;> rfl

def Request.sourceFindings (limits : Limits) (scan : Scan) (request : Request) : List Finding :=
  scan.complaints.toList.map .scan ++ (request.parsed limits scan).complaints.toList.map .parse

def Request.findings (limits : Limits) (unit : Nat) (request : Request) : List Finding :=
  let scan := request.scanned unit
  staticFindings (request.sourceFindings limits scan)
    ((request.parsed limits scan).tree.map Draft.program)

namespace Turn

def unit (turn : Turn) : Nat := turn.session.report.unit + 1

def text (turn : Turn) : List Char := turn.request.text.toList

def scan (turn : Turn) : Scan := turn.request.scanned turn.unit

def failure? (turn : Turn) : Option Failure :=
  match turn.session.accept? turn.request with
  | none => none
  | some acceptance =>
    match runAll turn.fuel acceptance.tasks acceptance.machine with
    | .failed failure _ => some failure
    | _ => none

theorem failure?_of_none {turn : Turn} (h : turn.session.accept? turn.request = none) :
    turn.failure? = none := by
  rw [failure?, h]

theorem failure?_of_some {turn : Turn} {acceptance : Acceptance}
    (h : turn.session.accept? turn.request = some acceptance) :
    turn.failure? = match runAll turn.fuel acceptance.tasks acceptance.machine with
      | .failed failure _ => some failure
      | _ => none := by
  rw [failure?, h]

def findings (turn : Turn) : List Finding :=
  turn.request.findings turn.session.limits turn.unit ++ turn.failure?.toList.map .runtime

end Turn

namespace Session

variable {session opened : Session} {base : Report} {found : List Finding}

def beginning (session : Session) (text : String) : Report :=
  session.report.reset.setSource text.toList

theorem resolve_gains (h : base.Gains session.report []) (shown : String)
    (program : List Stmt) :
    base.Gains ((session.showTree shown).resolve program).1.report
      (staticFindings [] (some program)) := by
  have hreport : (session.showTree shown).report = session.report := by
    unfold showTree
    split <;> rfl
  have hgains := h.trans (.noteResolve session.report (resolveProgram program))
  rw [← hreport] at hgains
  exact hgains

theorem noteParse_gains {α : Type} (hempty : base.issues = #[])
    (h : base.Gains opened.report found) (parsed : Parsed α) :
    base.Gains (opened.noteParse parsed).report
        (found ++ parsed.complaints.toList.map .parse) ∧
      ((opened.noteParse parsed).report.ok = true ↔
        found ++ parsed.complaints.toList.map .parse = []) := by
  have hgains := h.trans (.noteParse opened.report parsed)
  exact ⟨hgains, hgains.ok_iff hempty⟩

theorem checkProgram_gains (hempty : base.issues = #[]) (h : base.Gains opened.report found)
    (scan : Scan) :
    let parsed := parseProgram scan.tokens.toList scan.stop opened.limits.nesting
    base.Gains (opened.checkProgram scan).1.report
      (staticFindings (found ++ parsed.complaints.toList.map .parse) (some parsed.tree)) := by
  intro parsed
  obtain ⟨hparse, hok⟩ := noteParse_gains hempty h parsed
  unfold checkProgram
  dsimp only
  split
  · next hbad =>
    have hne := mt hok.2 (by simpa using hbad)
    rw [staticFindings_of_ne_nil hne]
    exact hparse
  · next hgood =>
    have hnil := hok.1 (by simpa using hgood)
    rw [hnil] at hparse ⊢
    have hinfo : base.Gains ((opened.noteParse parsed).info
        s!"Parsed {parsed.tree.length} top-level statements").report [] :=
      hparse.quietly (.info _ _)
    have hresolve := resolve_gains hinfo (renderProgram parsed.tree) parsed.tree
    split
    · next hresult => rwa [hresult] at hresolve
    · next hresult =>
      rw [hresult] at hresolve
      exact hresolve.quietly (.info _ _)

theorem checkExpression_gains (hempty : base.issues = #[]) (h : base.Gains opened.report found)
    (scan : Scan) :
    let parsed := parseExpression scan.tokens.toList scan.stop opened.limits.nesting
    base.Gains (opened.checkExpression scan).1.report
      (staticFindings (found ++ parsed.complaints.toList.map .parse)
        (parsed.tree.map fun expr => [.expression expr])) := by
  intro parsed
  obtain ⟨hparse, hok⟩ := noteParse_gains hempty h parsed
  unfold checkExpression
  dsimp only
  split
  · next hnone =>
    have hnone' : parsed.tree = none := hnone
    rw [hnone', Option.map_none, staticFindings_none]
    exact hparse
  · next expr hsome =>
    have hsome' : parsed.tree = some expr := hsome
    rw [hsome', Option.map_some]
    split
    · next hbad =>
      have hne := mt hok.2 (by simpa using hbad)
      rw [staticFindings_of_ne_nil hne]
      exact hparse
    · next hgood =>
      have hnil := hok.1 (by simpa using hgood)
      rw [hnil] at hparse ⊢
      have hresolve := resolve_gains hparse (expr.render ++ "\n") [.expression expr]
      split <;> next hresult => rwa [hresult] at hresolve

theorem checkRequest_gains (hempty : base.issues = #[]) {scan : Scan}
    (h : base.Gains opened.report (scan.complaints.toList.map .scan)) (request : Request) :
    base.Gains (opened.checkRequest scan request).1.report
      (staticFindings (request.sourceFindings opened.limits scan)
        ((request.parsed opened.limits scan).tree.map Draft.program)) := by
  cases request with
  | run text => exact checkProgram_gains hempty h scan
  | evaluate text =>
    have hgains := checkExpression_gains hempty h scan
    simp only [checkRequest, Request.sourceFindings, Request.parsed, Option.map_map]
    exact hgains

theorem openUnit_gains {text : String} {scan : Scan}
    (hopen : session.openUnit text = .ok (scan, opened)) :
    scan = Moth.scan (session.report.unit + 1) text.toList ∧
      (session.beginning text).Gains opened.report (scan.complaints.toList.map .scan) := by
  unfold openUnit at hopen
  split at hopen
  · cases hopen
  · dsimp only at hopen
    have hscan := Report.Gains.noteScan (session.beginning text)
      (Moth.scan (session.report.unit + 1) text.toList)
    split at hopen <;>
    · cases hopen
      exact ⟨rfl, hscan.quietly (.info _ _)⟩

/-- A session that takes a request notes what the turn finds, and nothing else. -/
theorem take_gains {request : Request} {fuel : Nat} {ending : Ending} {after : Session}
    (hready : session.stage = .ready)
    (htake : session.take fuel request = .ok (ending, after)) :
    (session.beginning request.text).Gains after.report
      (Turn.findings ⟨session, request, fuel⟩) := by
  obtain ⟨opened, hopen, hnoted⟩ := openUnit_ready hready request.text
  obtain ⟨-, hopened⟩ := openUnit_gains hopen
  have hgains := checkRequest_gains rfl hopened request
  obtain ⟨checked, found, hcheck⟩ : ∃ checked found, opened.checkRequest
      (scan (session.report.unit + 1) request.text.toList) request = (checked, found) :=
    ⟨_, _, rfl⟩
  rw [hcheck, show opened.limits = session.limits from hnoted.limits] at hgains
  have hchecked : (session.beginning request.text).Gains checked.report
      (request.findings session.limits (session.report.unit + 1)) := hgains
  have haccept := accept?_of_check hopen hcheck
  cases hsome : session.accept? request with
  | none =>
    rw [hsome] at haccept
    have hidle : found = none ∨ checked.flags.dryRun = true := by
      split at haccept
      · next hdry => exact .inr hdry
      · exact .inl (Option.map_eq_none_iff.1 haccept.symm)
    rw [take_of_check hopen hcheck hidle] at htake
    cases htake
    rw [Turn.findings, Turn.failure?_of_none hsome, Option.toList_none, List.map_nil,
      List.append_nil]
    exact hchecked
  | some acceptance =>
    have hsession : acceptance.session = checked := by
      rw [haccept] at hsome
      split at hsome
      · cases hsome
      · obtain ⟨⟨draft, resolution⟩, -, rfl⟩ := Option.map_eq_some_iff.1 hsome
        rfl
    rw [take_of_some hsome] at htake
    rw [Turn.findings, Turn.failure?_of_some hsome]
    dsimp only
    cases hrun : runAll fuel acceptance.tasks acceptance.machine with
    | done value machine =>
      rw [hrun] at htake
      cases htake
      rw [Option.toList_none, List.map_nil, List.append_nil]
      exact hsession ▸ hchecked
    | failed failure machine =>
      rw [hrun] at htake
      cases htake
      exact hsession ▸ hchecked.trans (.noteFailure checked.report failure)
    | stuck | outOfFuel =>
      rw [hrun] at htake
      cases htake

end Session

end Moth
