import Moth.Proofs.Issue.Rows
import Moth.Proofs.Session.Diagnostics
/-!
# The row and the line of an issue

An issue says on which line the text at fault ends, and its illustration shows the row in which
that text begins.  The main result tells the one number from the other.
-/

namespace Moth

open Eval Scan

/-! ## Lines -/

/-- The line on which a piece of text ends, from what stands before the piece and in it. -/
theorem lineBefore_add {text piece behind : List Char} {offset : Nat}
    (h : text.drop offset = piece ++ behind) :
    lineBefore text (offset + piece.length) =
      1 + (text.take offset).count '\n' + piece.count '\n' := by
  rw [lineBefore, List.take_add, h, List.take_left, List.count_append, Nat.add_assoc]

/-! ## Findings -/

namespace Finding

def offset : Finding → Nat
  | scan complaint => complaint.offset
  | parse complaint => complaint.token.offset
  | resolve complaint => complaint.token.offset
  | runtime failure => failure.token.offset

/-- The text that is at fault: a character that begins nothing, all that is left of the text
behind a quote that is not closed, or a token. -/
def lexeme (text : List Char) : Finding → List Char
  | scan ⟨_, offset, .unexpectedCharacter⟩ => (text.drop offset).take 1
  | scan ⟨_, offset, .unterminatedString⟩ => text.drop offset
  | parse complaint => complaint.token.lexeme.toList
  | resolve complaint => complaint.token.lexeme.toList
  | runtime failure => failure.token.lexeme.toList

def AtEnd (finding : Finding) : Prop :=
  ∃ token, finding.token? = some token ∧ token.kind = .eof

theorem place_of_token {finding : Finding} {token : Token} (h : finding.token? = some token)
    (text : List Char) : finding.offset = token.offset ∧
      finding.lexeme text = token.lexeme.toList ∧ finding.line = token.line := by
  cases finding <;> cases h <;> exact ⟨rfl, rfl, rfl⟩

end Finding

structure Finding.Numbered (turn : Turn) (finding : Finding) (issue : Issue) : Prop where
  /-- The row is the line, without the line feeds in the text at fault and with the carriage
  returns before it that have no line feed behind them. -/
  row : ∀ illustration, issue.text = issue.headline ++ "\n" ++ illustration → ¬ finding.AtEnd →
    (shownNumber illustration.toList : Int) =
      issue.line - (finding.lexeme turn.text).count '\n' +
        Text.loneReturns turn.text finding.offset
  /-- The two are the same where neither of them is found. -/
  agree : ∀ illustration, issue.text = issue.headline ++ "\n" ++ illustration → ¬ finding.AtEnd →
    '\n' ∉ finding.lexeme turn.text → (∀ index, Text.isLoneReturn turn.text index = false) →
      (shownNumber illustration.toList : Int) = issue.line

section

variable {turns : List Turn} {turn : Turn} {report : Report} {issue : Issue} {finding : Finding}

theorem Finding.numbered_of_row
    (h : ∀ illustration, issue.text = issue.headline ++ "\n" ++ illustration → ¬ finding.AtEnd →
      (shownNumber illustration.toList : Int) =
        issue.line - (finding.lexeme turn.text).count '\n' +
          Text.loneReturns turn.text finding.offset) :
    finding.Numbered turn issue := by
  refine ⟨h, fun illustration htext hend hfeed hreturns => ?_⟩
  rw [h illustration htext hend, Text.loneReturns_eq_zero hreturns, List.count_eq_zero.2 hfeed]
  simp

/-- An issue at a token of the turn. -/
theorem Finding.numbered_token {token : Token} (htoken : finding.token? = some token)
    (hline : issue.line = finding.line) (hshown : token.Shown turns turn issue) :
    finding.Numbered turn issue := by
  refine Finding.numbered_of_row fun illustration htext hend => ?_
  obtain ⟨hoffset, hlexeme, hsame⟩ := finding.place_of_token htoken turn.text
  have hmem : token ∈ turn.scan.tokens.toList := by
    obtain ⟨old, hold, hmem⟩ := hshown.known
    rcases List.mem_cons.1 hold with rfl | hold
    · rcases List.mem_append.1 hmem with hmem | hstop
      · exact hmem
      · obtain rfl := List.mem_singleton.1 hstop
        exact absurd ⟨_, htoken, rfl⟩ hend
    · -- A token of an earlier turn has no illustration.
      have hbare := (hshown.earlier ⟨old, hold, hmem⟩).2
      rw [htext] at hbare
      have hlength := congrArg String.length hbare
      rw [String.length_append, String.length_append] at hlength
      have hbreak : "\n".length = 1 := rfl
      omega
  have hstands := (scan_tiles turn.unit turn.text).2.stands token hmem
  obtain ⟨behind, hdrop, -⟩ := hstands.fits
  have hends : token.line =
      1 + (turn.text.take token.offset).count '\n' + token.lexeme.toList.count '\n' := by
    rw [hstands.line_eq, ← String.length_toList, lineBefore_add hdrop]
  rw [(hshown.current hmem).1.shownNumber htext, hline, hsame, hoffset, hlexeme, hends]
  omega

/-- An issue at a character that begins nothing or at a quote that is not closed. -/
theorem Finding.numbered_fault {complaint : ScanComplaint}
    (hsource : report.source = some turn.text) (hline : issue.line = complaint.line)
    (hpointer : issue.pointer = report.pointAt complaint.offset 1)
    (hmem : complaint ∈ turn.scan.complaints) : (Finding.scan complaint).Numbered turn issue := by
  refine Finding.numbered_of_row fun illustration htext _ => ?_
  obtain ⟨piece, behind, hdrop, hfits, hends⟩ :=
    (scan_tiles turn.unit turn.text).2.complaint_fits complaint (Array.mem_toList_iff.2 hmem)
  have hlexeme : (Finding.scan complaint).lexeme turn.text = piece := by
    obtain ⟨line, offset, fault⟩ := complaint
    cases fault with
    | unexpectedCharacter =>
      obtain ⟨c, rfl, -⟩ := hfits
      exact congrArg (List.take 1) hdrop
    | unterminatedString =>
      obtain ⟨body, rfl, -, rfl⟩ := hfits
      exact hdrop.trans (List.append_nil _)
  rw [(Issue.shown_fault hsource hpointer hmem).1.shownNumber htext, hline, hlexeme, hends,
    lineBefore_add hdrop, Finding.offset]
  omega

end

/-- The number in front of every illustration of a turn, unless it is one of the end of the text:
the line of the issue, less the line feeds in the text at fault, and more by the carriage returns
before that text which have no line feed behind them. -/
theorem rows_numbered {turns : List Turn} {session after : Session} {request : Request}
    {fuel : Nat} {ending : Ending} (h : Reached turns session)
    (htake : session.take fuel request = .ok (ending, after)) :
    List.Forall₂ (Finding.Numbered ⟨session, request, fuel⟩)
      (Turn.findings ⟨session, request, fuel⟩) after.report.issues.toList := by
  obtain ⟨-, -, issues, hissues, hnoted⟩ := Session.take_gains h.sound.stage htake
  obtain rfl : after.report.issues.toList = issues := hissues
  have hturns : ∀ old ∈ turns, old.unit < Turn.unit ⟨session, request, fuel⟩ :=
    fun old hold => Nat.lt_succ_of_le (h.unit_le old hold)
  refine ((List.forall₂_and_left _ _).2 ⟨fun finding hfinding => hfinding, hnoted⟩).imp ?_
  rintro finding issue ⟨hfinding, hnoted⟩
  cases htoken : finding.token? with
  | none =>
    obtain ⟨complaint, rfl⟩ : ∃ complaint, finding = .scan complaint := by
      cases finding with
      | scan complaint => exact ⟨complaint, rfl⟩
      | parse | resolve | runtime => cases htoken
    have hpointer : issue.pointer =
        (session.beginning request.text).pointAt complaint.offset 1 := hnoted.pointer
    exact Finding.numbered_fault rfl hnoted.line hpointer (Turn.complaint_of_findings hfinding)
  | some token =>
    have hpointer := hnoted.pointer.trans (Finding.pointer_of_token htoken _)
    exact Finding.numbered_token htoken hnoted.line
      (Issue.shown_token rfl rfl hturns hpointer (Turn.token_known h hfinding htoken))

/-- Two carriage returns stand alone, a string goes on for two lines where a name should be, and
the last quote is not closed. -/
def crookedTurn : Turn :=
  ⟨.empty, .run "\r\n\r\rvar \"a\nb\"; \"c\nd", 40⟩

def isCrookedAt (offset offset' : Nat) : List Finding → Bool
  | [.scan complaint, .parse complaint'] =>
    complaint.offset = offset ∧ complaint.fault = .unterminatedString ∧
      complaint'.token.offset = offset' ∧ complaint'.token.kind = .string "a\nb" ∧
      complaint'.token.lexeme.toList.count '\n' = 1
  | _ => false

/-- The open string ends on line 4 and is shown in row 5, and the string before it, which ends on
line 3, in row 4. -/
theorem crookedTurn_numbered : ∃ ending after fault misplaced shown shown',
    crookedTurn.session.take 40 crookedTurn.request = .ok (ending, after) ∧
    after.report.issues.toList = [fault, misplaced] ∧
    fault.text = fault.headline ++ "\n" ++ shown ∧
    fault.line = 4 ∧ shownNumber shown.toList = 5 ∧
    misplaced.text = misplaced.headline ++ "\n" ++ shown' ∧
    misplaced.line = 3 ∧ shownNumber shown'.toList = 4 := by
  obtain ⟨ending, after, htake⟩ := Session.take_of_isOk
    (show (crookedTurn.session.take 40 crookedTurn.request).isOk = true by decide +kernel)
  have hissues : ((crookedTurn.session.take 40 crookedTurn.request).toOption.map fun result =>
      result.2.report.issues.toList.map fun issue => (issue.line, issue.pointer.isSome)) =
        some [(4, true), (3, true)] := by decide +kernel
  have hfound : isCrookedAt 15 8 crookedTurn.findings = true := by decide +kernel
  have hnumbered : List.Forall₂ (Finding.Numbered crookedTurn) crookedTurn.findings
      after.report.issues.toList := rows_numbered .empty htake
  rw [htake] at hissues
  replace hissues := Option.some.inj hissues
  unfold isCrookedAt at hfound
  split at hfound
  · next complaint complaint' hfindings =>
    obtain ⟨hoffset, hfault, hoffset', hkind, hcount⟩ := of_decide_eq_true hfound
    rw [hfindings] at hnumbered
    obtain ⟨fault, _, hopen, hrest, hboth⟩ := List.forall₂_cons_left_iff.1 hnumbered
    obtain ⟨misplaced, _, hstring, hnone, rfl⟩ := List.forall₂_cons_left_iff.1 hrest
    rw [List.forall₂_nil_left_iff.1 hnone] at hboth
    simp only [hboth, List.map_cons, List.map_nil, List.cons.injEq, Prod.mk.injEq, and_true,
      Option.isSome_iff_exists] at hissues
    obtain ⟨⟨hline, pointer, hpointer⟩, hline', pointer', hpointer'⟩ := hissues
    have htext : fault.text = fault.headline ++ "\n" ++ pointer.illustrate := by
      rw [Issue.text, hpointer]
    have htext' : misplaced.text = misplaced.headline ++ "\n" ++ pointer'.illustrate := by
      rw [Issue.text, hpointer']
    refine ⟨ending, after, fault, misplaced, _, _, htake, hboth, htext, hline, ?_, htext', hline',
      ?_⟩
    · have hrow := hopen.row _ htext (by rintro ⟨token, htoken, -⟩; cases htoken)
      obtain ⟨line, offset, kind⟩ := complaint
      obtain rfl : offset = 15 := hoffset
      obtain rfl : kind = .unterminatedString := hfault
      have hcount : (crookedTurn.text.drop 15).count '\n' = 1 := by decide +kernel
      have hreturns : Text.loneReturns crookedTurn.text 15 = 2 := by decide +kernel
      rw [hline, Finding.lexeme, Finding.offset, hcount, hreturns] at hrow
      omega
    · have hrow := hstring.row _ htext' (by
        rintro ⟨token, htoken, heof⟩
        cases htoken
        rw [hkind] at heof
        cases heof)
      have hreturns : Text.loneReturns crookedTurn.text 8 = 2 := by decide +kernel
      rw [hline', Finding.lexeme, Finding.offset, hcount, hoffset', hreturns] at hrow
      omega
  · cases hfound

end Moth
