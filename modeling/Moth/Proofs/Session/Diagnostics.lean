import Moth.Proofs.Issue.Pointing
import Moth.Proofs.Parsing.Provenance
import Moth.Proofs.Scanning.Partition
import Moth.Proofs.Session.Findings
import Moth.Proofs.Session.Programs
/-!
# Issues point at the right text

Functions outlive the unit that has declared them, so a program may fail at a token whose text is
gone.  Every token that an issue is at was scanned in this turn or in an earlier one
(`Turn.findings_kept`), and no two turns have the same unit (`Reached.unit_le`), so the number of
a token's unit tells the two apart.  The main result says how each issue of a turn is shown.
-/

namespace Moth

open Eval Scan

/-! ## Where the scanner finds things -/

theorem Scan.Spells.not_isLineBreak {kind : Kind} {c : Char} {text : List Char}
    (h : Spells kind (c :: text)) : Text.isLineBreak c = false := by
  have hcut := congrArg Cut.reading (cut_of_spells h (apart_nil kind))
  refine Bool.eq_false_iff.2 fun hbreak => ?_
  -- A line break by itself is a gap.
  rcases Text.isLineBreak_iff.1 hbreak with rfl | rfl <;> cases hcut

theorem Reading.Fits.fault_head {fault : ScanFault} {piece behind : List Char}
    (h : (Reading.fault fault).Fits piece behind) :
    ∃ c more, piece = c :: more ∧ Text.isLineBreak c = false := by
  cases fault with
  | unexpectedCharacter =>
    obtain ⟨c, rfl, hblank, -⟩ := h
    refine ⟨c, [], rfl, Bool.eq_false_iff.2 fun hbreak => ?_⟩
    exact hblank (.inr (.inr (Text.isLineBreak_iff.1 hbreak)))
  | unterminatedString =>
    obtain ⟨body, rfl, -⟩ := h
    exact ⟨'"', body, rfl, rfl⟩

/-- A complaint of the scanner is where a piece of the text begins that is at fault, and on the
line on which the piece ends. -/
theorem Tiles.complaint_fits {unit start : Nat} {text : List Char} {tokens : List Token}
    {complaints : List ScanComplaint} (h : Tiles unit text start tokens complaints) :
    ∀ complaint ∈ complaints, ∃ piece behind, text.drop complaint.offset = piece ++ behind ∧
      (Reading.fault complaint.fault).Fits piece behind ∧
        complaint.line = lineBefore text (complaint.offset + piece.length) := by
  induction h with
  | done => simp
  | token _ _ _ ih => exact ih
  | gap _ _ _ ih => exact ih
  | fault htext hfits _ ih => exact List.forall_mem_cons.2 ⟨⟨_, _, htext, hfits, rfl⟩, ih⟩

theorem getElem?_of_drop {text piece behind : List Char} {offset : Nat} {c : Char}
    (h : text.drop offset = c :: piece ++ behind) : text[offset]? = some c := by
  have hhead := congrArg (·[0]?) h
  simpa using hhead

/-! ## Units -/

namespace Turn

variable {turn : Turn} {token : Token}

theorem unit_of_mem_scan (h : token ∈ turn.scan.allTokens) : token.unit = turn.unit := by
  rcases List.mem_append.1 h with htoken | hstop
  · exact unit_of_scan htoken
  · obtain rfl := List.mem_singleton.1 hstop
    exact unit_scan turn.unit turn.text

theorem offset_stop (turn : Turn) : turn.scan.stop.offset = turn.text.length :=
  (scan_tiles turn.unit turn.text).1.offset

end Turn

/-- No unit of a turn so far is the next one. -/
theorem Reached.unit_le {turns : List Turn} {session : Session} (h : Reached turns session) :
    ∀ old ∈ turns, old.unit ≤ session.report.unit := by
  induction h with
  | start => simp
  | take hreached htake ih =>
    have hunit := (Session.take_gains hreached.sound.stage htake).unit
    rw [hunit]
    refine List.forall_mem_cons.2 ⟨Nat.le_refl _, fun old hold => ?_⟩
    exact Nat.le_succ_of_le (ih old hold)
  | setFlags _ _ ih => exact ih
  | complain _ ih => exact ih
  | takeText _ ih => exact ih

/-! ## Tokens of findings -/

variable {r : Relabelling}

/-- What a request is parsed into is made of its tokens. -/
theorem Request.parsed_kept {limits : Limits} {scan : Scan} (request : Request)
    (h : ∀ token ∈ scan.allTokens, r.label token = token) :
    (∀ draft, (request.parsed limits scan).tree = some draft →
      ∀ stmt ∈ draft.program, stmt.relabel r = stmt) ∧
      ∀ complaint ∈ (request.parsed limits scan).complaints,
        r.label complaint.token = complaint.token := by
  obtain ⟨htokens, hstop⟩ := List.forall_mem_append.1 h
  have hstop := hstop scan.stop List.mem_cons_self
  cases request with
  | run text =>
    obtain ⟨htree, hcomplaints⟩ := parseProgram_kept htokens hstop
    refine ⟨fun draft hdraft => ?_, hcomplaints⟩
    cases hdraft
    exact htree
  | evaluate text =>
    obtain ⟨htree, hcomplaints⟩ := parseExpression_kept htokens hstop
    refine ⟨fun draft hdraft => ?_, hcomplaints⟩
    obtain ⟨expr, hexpr, rfl⟩ := Option.map_eq_some_iff.1 hdraft
    refine List.forall_mem_singleton.2 ?_
    simpa using htree expr hexpr

theorem Request.findings_kept {limits : Limits} {unit : Nat} (request : Request)
    (h : ∀ token ∈ (request.scanned unit).allTokens, r.label token = token) :
    ∀ finding ∈ request.findings limits unit, ∀ token, finding.token? = some token →
      r.label token = token := by
  obtain ⟨htree, hcomplaints⟩ := request.parsed_kept h
  have hsource : ∀ finding ∈ request.sourceFindings limits (request.scanned unit), ∀ token,
      finding.token? = some token → r.label token = token := by
    refine List.forall_mem_append.2 ⟨?_, ?_⟩
    · refine List.forall_mem_map.2 fun complaint _ token htoken => ?_
      cases htoken
    · refine List.forall_mem_map.2 fun complaint hmem token htoken => ?_
      cases htoken
      exact hcomplaints complaint (Array.mem_toList_iff.1 hmem)
  unfold Request.findings staticFindings
  dsimp only
  split
  · next program hnone hprogram =>
    obtain ⟨draft, hdraft, rfl⟩ := Option.map_eq_some_iff.1 hprogram
    have hquiet : (request.parsed limits (request.scanned unit)).complaints = #[] := by
      simpa using (List.append_eq_nil_iff.1 hnone).2
    obtain ⟨hbranched, -⟩ := Request.told (congrArg₂ Parsed.mk hdraft hquiet)
    refine List.forall_mem_map.2 fun complaint hmem token htoken => ?_
    cases htoken
    exact resolveProgram_kept hbranched (htree draft hdraft) complaint
      (Array.mem_toList_iff.1 hmem)
  · exact hsource

/-- The program of a turn is made of the turn's tokens. -/
theorem Turn.within_kept {turn : Turn} (hready : turn.session.stage = .ready)
    (h : ∀ token ∈ turn.scan.allTokens, r.label token = token) : turn.Within r.code := by
  intro acceptance hsome
  obtain ⟨checked, -, haccept, -⟩ := turn.session.checked hready turn.request
  rw [haccept] at hsome
  split at hsome
  · cases hsome
  · obtain ⟨⟨draft, resolution⟩, hverdict, rfl⟩ := Option.map_eq_some_iff.1 hsome
    obtain ⟨-, hparsed, -⟩ := Request.check_eq_accepted.1 (Verdict.eq_accepted hverdict)
    exact (turn.request.parsed_kept h).1 draft (congrArg Parsed.tree hparsed)

/-- All that a turn finds is at tokens of this turn and of earlier ones. -/
theorem Turn.findings_kept {turns : List Turn} {session : Session} (h : Reached turns session)
    {request : Request} {fuel : Nat}
    (hkeeps : ∀ old ∈ (⟨session, request, fuel⟩ :: turns : List Turn),
      ∀ token ∈ old.scan.allTokens, r.label token = token) :
    ∀ finding ∈ Turn.findings ⟨session, request, fuel⟩, ∀ token,
      finding.token? = some token → r.label token = token := by
  obtain ⟨hturn, hturns⟩ := List.forall_mem_cons.1 hkeeps
  refine List.forall_mem_append.2 ⟨request.findings_kept hturn, ?_⟩
  refine List.forall_mem_map.2 fun failure hfailure token htoken => ?_
  cases htoken
  rw [Option.mem_toList] at hfailure
  have hready := h.sound.stage
  have hmachine : session.machine.Within r.code session.machine.resolution :=
    h.within fun old hold => Turn.within_kept (h.turns_ready old hold) (hturns old hold)
  cases hsome : session.accept? request with
  | none =>
    rw [Turn.failure?_of_none hsome] at hfailure
    cases hfailure
  | some acceptance =>
    have hprogram := Turn.within_kept hready hturn acceptance hsome
    have hruns := (Session.runs_within hready hsome hmachine hprogram fuel).1
    rw [Turn.failure?_of_some hsome] at hfailure
    dsimp only at hfailure
    split at hfailure
    · next hrun =>
      cases hfailure
      rw [hrun] at hruns
      exact hruns.1
    · cases hfailure

/-- Every token that a turn finds something at was scanned in this turn or in an earlier one. -/
theorem Turn.token_known {turns : List Turn} {session : Session} (h : Reached turns session)
    {request : Request} {fuel : Nat} {finding : Finding}
    (hfinding : finding ∈ Turn.findings ⟨session, request, fuel⟩) {token : Token}
    (htoken : finding.token? = some token) :
    ∃ old ∈ (⟨session, request, fuel⟩ :: turns : List Turn), token ∈ old.scan.allTokens := by
  -- The relabelling that keeps the tokens of these turns keeps no others.
  have hkept := Turn.findings_kept h (fun old hold token htoken =>
    Relabelling.keeping_eq_iff.2 (List.mem_flatMap.2 ⟨old, hold, htoken⟩))
    finding hfinding token htoken
  exact List.mem_flatMap.1 (Relabelling.keeping_eq_iff.1 hkept)

/-! ## Issues -/

/-- How an issue at a token is shown.  The token was scanned in this turn or in an earlier one,
and only in this turn is there a text to show it in. -/
structure Token.Shown (turns : List Turn) (turn : Turn) (issue : Issue) (token : Token) :
    Prop where
  known : ∃ old ∈ turn :: turns, token ∈ old.scan.allTokens
  earlier : (∃ old ∈ turns, token ∈ old.scan.allTokens) → issue.Bare
  current : token ∈ turn.scan.tokens.toList →
    issue.Illustrated turn.text token.offset token.lexeme.length ∧
      token.lexeme.toList <+: turn.text.drop token.offset
  atEnd : token = turn.scan.stop → issue.ShownAtEnd turn.text

structure Finding.Shown (turns : List Turn) (turn : Turn) (finding : Finding) (issue : Issue) :
    Prop where
  phase : issue.phase = finding.phase
  message : issue.message = finding.message
  line : issue.line = finding.line
  atFault : ∀ complaint, finding = .scan complaint →
    issue.Illustrated turn.text complaint.offset 1 ∧ ∃ piece behind,
      turn.text.drop complaint.offset = piece ++ behind ∧
        (Reading.fault complaint.fault).Fits piece behind
  atToken : ∀ token, finding.token? = some token → token.Shown turns turn issue

section

variable {turns : List Turn} {turn : Turn} {report : Report} {issue : Issue} {token : Token}

theorem Issue.shown_token (hsource : report.source = some turn.text)
    (hunit : report.unit = turn.unit) (hturns : ∀ old ∈ turns, old.unit < turn.unit)
    (hpointer : issue.pointer = report.pointAtToken token)
    (hknown : ∃ old ∈ turn :: turns, token ∈ old.scan.allTokens) :
    token.Shown turns turn issue := by
  have hcurrent (hmem : token ∈ turn.scan.allTokens) :
      issue.pointer = report.pointAt token.offset token.lexeme.length := by
    rw [hpointer, Report.pointAtToken, if_pos (by rw [hunit, turn.unit_of_mem_scan hmem])]
  refine ⟨hknown, ?_, ?_, ?_⟩
  · rintro ⟨old, hold, hmem⟩
    have hne : token.unit ≠ report.unit := by
      rw [hunit, old.unit_of_mem_scan hmem]
      exact Nat.ne_of_lt (hturns old hold)
    exact Issue.bare_of_pointer (by rw [hpointer, Report.pointAtToken, if_neg hne])
  · intro hmem
    obtain ⟨behind, hdrop, hspells, -⟩ :=
      ((scan_tiles turn.unit turn.text).2.stands token hmem).fits
    refine ⟨?_, behind, hdrop.symm⟩
    obtain ⟨c, more, hlexeme⟩ := List.exists_cons_of_ne_nil hspells.ne_nil
    have hwidth : 1 ≤ token.lexeme.length := by
      rw [← String.length_toList, hlexeme]
      exact Nat.le_add_left 1 more.length
    rw [hlexeme] at hspells hdrop
    exact Issue.illustrated_of_pointAt hsource (hcurrent (List.mem_append_left _ hmem))
      (getElem?_of_drop hdrop) hspells.not_isLineBreak hwidth
  · rintro rfl
    exact Issue.shownAtEnd_of_pointAt hsource
      (hcurrent (List.mem_append_right _ List.mem_cons_self)) (Nat.le_of_eq turn.offset_stop.symm)

theorem Issue.shown_fault (hsource : report.source = some turn.text) {complaint : ScanComplaint}
    (hpointer : issue.pointer = report.pointAt complaint.offset 1)
    (hmem : complaint ∈ turn.scan.complaints) :
    issue.Illustrated turn.text complaint.offset 1 ∧ ∃ piece behind,
      turn.text.drop complaint.offset = piece ++ behind ∧
        (Reading.fault complaint.fault).Fits piece behind := by
  obtain ⟨piece, behind, hdrop, hfits, -⟩ := (scan_tiles turn.unit turn.text).2.complaint_fits
    complaint (Array.mem_toList_iff.2 hmem)
  refine ⟨?_, piece, behind, hdrop, hfits⟩
  obtain ⟨c, more, rfl, hc⟩ := hfits.fault_head
  exact Issue.illustrated_of_pointAt hsource hpointer (getElem?_of_drop hdrop) hc (Nat.le_refl 1)

end

theorem Turn.complaint_of_findings {turn : Turn} {complaint : ScanComplaint}
    (h : Finding.scan complaint ∈ turn.findings) : complaint ∈ turn.scan.complaints := by
  rcases List.mem_append.1 h with hstatic | hfailure
  · have hsource : Finding.scan complaint ∈ turn.request.sourceFindings turn.session.limits
      turn.scan := by
      unfold Request.findings staticFindings at hstatic
      dsimp only at hstatic
      split at hstatic
      · obtain ⟨_, -, hresolve⟩ := List.mem_map.1 hstatic
        cases hresolve
      · exact hstatic
    rcases List.mem_append.1 hsource with hscan | hparse
    · obtain ⟨_, hmem, hsame⟩ := List.mem_map.1 hscan
      cases hsame
      exact Array.mem_toList_iff.1 hmem
    · obtain ⟨_, -, hsame⟩ := List.mem_map.1 hparse
      cases hsame
  · obtain ⟨_, -, hsame⟩ := List.mem_map.1 hfailure
    cases hsame

/-- Every issue of a turn is shown where it belongs.  There is one issue for each finding, in
order.  A stray character or an open string is illustrated where it begins, with a caret below;
a token of the turn itself is illustrated with carets below as much of it as is in its row; the end
of the text is shown at its last character that breaks no line; and an issue at a token of an
earlier turn is its headline alone. -/
theorem issues_shown {turns : List Turn} {session after : Session} {request : Request}
    {fuel : Nat} {ending : Ending} (h : Reached turns session)
    (htake : session.take fuel request = .ok (ending, after)) :
    List.Forall₂ (Finding.Shown turns ⟨session, request, fuel⟩)
      (Turn.findings ⟨session, request, fuel⟩) after.report.issues.toList := by
  obtain ⟨-, -, issues, hissues, hnoted⟩ := Session.take_gains h.sound.stage htake
  obtain rfl : after.report.issues.toList = issues := hissues
  have hturns : ∀ old ∈ turns, old.unit < Turn.unit ⟨session, request, fuel⟩ :=
    fun old hold => Nat.lt_succ_of_le (h.unit_le old hold)
  have hfound := (List.forall₂_and_left _ _).2 ⟨fun finding hfinding => hfinding, hnoted⟩
  refine hfound.imp ?_
  rintro finding issue ⟨hfinding, hnoted⟩
  refine ⟨hnoted.phase, hnoted.message, hnoted.line, ?_, fun token htoken => ?_⟩
  · rintro complaint rfl
    have hpointer : issue.pointer =
        (session.beginning request.text).pointAt complaint.offset 1 := hnoted.pointer
    exact Issue.shown_fault rfl hpointer (Turn.complaint_of_findings hfinding)
  · have hpointer := hnoted.pointer.trans (Finding.pointer_of_token htoken _)
    exact Issue.shown_token rfl rfl hturns hpointer (Turn.token_known h hfinding htoken)

def failingTurn : Turn := ⟨.empty, .run "fun f() \x7b nil.x; \x7d", 40⟩

/-- A session that keeps a function which fails whenever it is called. -/
def failingSession : Session := Session.empty.after 40 failingTurn.request

def isFailureAt (tokens : List Token) : List Finding → Bool
  | [.runtime failure] => failure.token ∈ tokens
  | _ => false

def isRejectedAt (tokens : List Token) (offset : Nat) (lexeme : String) : List Finding → Bool
  | [.resolve complaint] => complaint.token ∈ tokens ∧ complaint.token.offset = offset ∧
      complaint.token.lexeme = lexeme
  | _ => false

def isFaultyAtEnds (stop : Token) : List Finding → Bool
  | [.scan fault, .parse complaint] => fault.offset = 0 ∧ complaint.token = stop
  | _ => false

/-- The function fails at a token of its own unit, so there is nothing to point into.  A stray
character is illustrated, and the end of the text is at its last name and not at the line break.
A `return` outside of functions is illustrated where it stands. -/
theorem failingSession_shown :
    (∃ ending after issue,
      failingSession.take 40 (.run "\n\nf();") = .ok (ending, after) ∧
      after.report.issues.toList = [issue] ∧ issue.phase = .runtime ∧ issue.Bare) ∧
    (∃ ending after stray missing,
      failingSession.take 40 (.run "@ print f\r\n") = .ok (ending, after) ∧
      after.report.issues.toList = [stray, missing] ∧
      stray.phase = .scan ∧ stray.Illustrated "@ print f\r\n".toList 0 1 ∧
      missing.phase = .parse ∧ missing.Illustrated "@ print f\r\n".toList 8 1) ∧
    ∃ ending after issue,
      failingSession.take 40 (.run "\n  return;") = .ok (ending, after) ∧
      after.report.issues.toList = [issue] ∧ issue.phase = .resolve ∧
      issue.Illustrated "\n  return;".toList 3 6 := by
  have hreached : Reached [failingTurn] failingSession :=
    .after .empty (by decide +kernel)
  refine ⟨?_, ?_, ?_⟩
  · obtain ⟨ending, after, htake⟩ := Session.take_of_isOk
      (show (failingSession.take 40 (.run "\n\nf();")).isOk = true by decide +kernel)
    have hshown := issues_shown hreached htake
    have hfound : isFailureAt failingTurn.scan.allTokens
        (Turn.findings ⟨failingSession, .run "\n\nf();", 40⟩) = true := by decide +kernel
    unfold isFailureAt at hfound
    split at hfound
    · next failure hfindings =>
      rw [hfindings] at hshown
      obtain ⟨issue, _, hissue, hrest, hissues⟩ := List.forall₂_cons_left_iff.1 hshown
      rw [List.forall₂_nil_left_iff.1 hrest] at hissues
      refine ⟨ending, after, issue, htake, hissues, hissue.phase, ?_⟩
      exact (hissue.atToken _ rfl).earlier
        ⟨failingTurn, List.mem_cons_self, of_decide_eq_true hfound⟩
    · cases hfound
  · obtain ⟨ending, after, htake⟩ := Session.take_of_isOk
      (show (failingSession.take 40 (.run "@ print f\r\n")).isOk = true by decide +kernel)
    have hshown := issues_shown hreached htake
    have hfound : isFaultyAtEnds (Turn.scan ⟨failingSession, .run "@ print f\r\n", 40⟩).stop
        (Turn.findings ⟨failingSession, .run "@ print f\r\n", 40⟩) = true := by decide +kernel
    unfold isFaultyAtEnds at hfound
    split at hfound
    · next complaint missing hfindings =>
      obtain ⟨hoffset, hstop⟩ := of_decide_eq_true hfound
      rw [hfindings] at hshown
      obtain ⟨stray, _, hstray, hrest, hissues⟩ := List.forall₂_cons_left_iff.1 hshown
      obtain ⟨last, _, hlast, hnone, rfl⟩ := List.forall₂_cons_left_iff.1 hrest
      rw [List.forall₂_nil_left_iff.1 hnone] at hissues
      refine ⟨ending, after, stray, last, htake, hissues, hstray.phase, ?_, hlast.phase, ?_⟩
      · rw [← hoffset]
        exact (hstray.atFault complaint rfl).1
      · exact (hlast.atToken _ rfl).atEnd hstop
    · cases hfound
  · obtain ⟨ending, after, htake⟩ := Session.take_of_isOk
      (show (failingSession.take 40 (.run "\n  return;")).isOk = true by decide +kernel)
    have hshown := issues_shown hreached htake
    have hfound : isRejectedAt
        (Turn.scan ⟨failingSession, .run "\n  return;", 40⟩).tokens.toList 3 "return"
        (Turn.findings ⟨failingSession, .run "\n  return;", 40⟩) = true := by decide +kernel
    unfold isRejectedAt at hfound
    split at hfound
    · next complaint hfindings =>
      obtain ⟨hmem, hoffset, hlexeme⟩ := of_decide_eq_true hfound
      rw [hfindings] at hshown
      obtain ⟨issue, _, hissue, hrest, hissues⟩ := List.forall₂_cons_left_iff.1 hshown
      rw [List.forall₂_nil_left_iff.1 hrest] at hissues
      refine ⟨ending, after, issue, htake, hissues, hissue.phase, ?_⟩
      have hillustrated := ((hissue.atToken _ rfl).current hmem).1
      rw [hoffset, hlexeme] at hillustrated
      exact hillustrated
    · cases hfound

end Moth
