import Moth.Proofs.Execution.Relabelled
import Moth.Proofs.Parsing.Terminated
import Moth.Proofs.Session.Batch
import Moth.Proofs.Session.Endings
/-!
# Evaluating and printing

A text that can be evaluated is an expression, and can be printed: a print statement with the same
text is read without issue, comes to the same value from the same machine, and writes it.
-/

namespace Moth

open Eval Syntax Scan

/-- The statement that prints what a text evaluates to.  The line break ends a comment. -/
def printText (text : String) : String := "print " ++ text ++ "\n;"

def inUnit (unit : Nat) : Relabelling :=
  ⟨fun token => { token with line := 0, offset := 0, unit }, fun _ => rfl⟩

theorem map_inUnit_of_words {tokens others : List Token} (unit : Nat)
    (h : others.map Token.word = tokens.map Token.word) :
    others.map (inUnit unit).label = tokens.map (inUnit unit).label := by
  have hword : (inUnit unit).label =
      (fun word : Word => ⟨word.1, word.2, 0, 0, unit⟩) ∘ Token.word := rfl
  rw [hword, ← List.map_map, h, List.map_map]

/-! ## Reading -/

theorem scan_printText {unit : Nat} {text : String}
    (h : (scan unit text.toList).complaints = #[]) (joint : Nat) :
    (scan joint (printText text).toList).complaints = #[] ∧
      (scan joint (printText text).toList).tokens.toList.map Token.word =
        (.keyword .print, "print") :: ((scan unit text.toList).tokens.toList.map Token.word ++
          [(.symbol .semicolon, ";")]) := by
  rw [scan_quiet_iff] at h
  have htext : Lexes text.toList ((scan unit text.toList).tokens.toList.map Token.word)
      ['\n', ';'] := ⟨pieces text.toList, pieces_before h [';'], h, (words_scan unit _).symm⟩
  have hkeyword : Lexes "print".toList [(.keyword .print, "print")]
      (' ' :: (text.toList ++ ['\n', ';'])) :=
    lexes_word rfl (Scan.apart_blank (.keyword .print) (.inl rfl) _)
  have hsemicolon : Lexes [';'] [(.symbol .semicolon, ";")] [] :=
    lexes_word rfl (apart_nil (.symbol .semicolon))
  have hend : Lexes ['\n', ';'] [(.symbol .semicolon, ";")] [] :=
    (lexes_blank (.inr rfl) [';']).append hsemicolon
  have hbody := Lexes.append (by simpa using htext) hend
  have hall := Lexes.append (by simpa using hkeyword) ((lexes_blank (.inl rfl) _).append hbody)
  have hchars : (printText text).toList =
      "print".toList ++ ([' '] ++ (text.toList ++ ['\n', ';'])) := by
    simp [printText]
  rw [hchars]
  exact hall.quiet joint

theorem relabelAll_eq_print {r : Relabelling} {program : List Stmt} {expr : Expr}
    (h : relabelAll r program = relabelAll r [.print expr]) :
    ∃ copy, program = [.print copy] ∧ copy.relabel r = expr.relabel r := by
  match program with
  | [] => simp at h
  | first :: second :: rest => simp at h
  | [first] => cases first <;> simp at h ⊢; exact h

/-- The expression of a text is what its print statement shows, at other places. -/
theorem parse_printText {unit levels : Nat} {text : String} {expr : Expr}
    (hscan : (scan unit text.toList).complaints = #[])
    (hparse : parseExpression (scan unit text.toList).tokens.toList (scan unit text.toList).stop
      levels = ⟨some expr, #[]⟩) (joint : Nat) :
    ∃ copy, parseProgram (scan joint (printText text).toList).tokens.toList
        (scan joint (printText text).toList).stop levels = ⟨[.print copy], #[]⟩ ∧
      copy.relabel (inUnit joint) = expr.relabel (inUnit joint) := by
  obtain ⟨-, hwords⟩ := scan_printText hscan joint
  generalize (scan joint (printText text).toList).tokens.toList = tokens,
    (scan joint (printText text).toList).stop = stop at hwords ⊢
  let mark : Token := ⟨.keyword .print, "print", 0, 0, joint⟩
  let semicolon : Token := ⟨.symbol .semicolon, ";", 0, 0, joint⟩
  have hmodel : parseProgram (mark :: ((scan unit text.toList).tokens.toList ++ [semicolon]))
      stop levels = ⟨[.print expr], #[]⟩ := parseProgram_print hparse rfl rfl stop
  have hsame : tokens.map Token.word =
      (mark :: ((scan unit text.toList).tokens.toList ++ [semicolon])).map Token.word := by
    simpa [Token.word, mark, semicolon] using hwords
  have hrelabelled := parseProgram_relabel (inUnit joint) tokens stop levels
  rw [map_inUnit_of_words joint hsame, parseProgram_relabel, hmodel] at hrelabelled
  obtain ⟨htree, hcomplaints⟩ := Parsed.mk.inj hrelabelled
  obtain ⟨copy, hcopy, hbare⟩ := relabelAll_eq_print htree.symm
  have hquiet : (parseProgram tokens stop levels).complaints = #[] := by
    simpa using hcomplaints.symm
  refine ⟨copy, ?_, hbare⟩
  rw [← hcopy]
  exact congrArg (Parsed.mk _) hquiet

/-! ## Resolving -/

/-- Outside of all scopes nothing is linked. -/
theorem Expr.link?_top {expr : Expr} {event : Event} (h : event ∈ expr.events .top) :
    event.link? = none := by
  obtain ⟨sort, token, name, rfl⟩ := expr.events_eq_reference event h
  simp only [Event.link?, Event.reference?, Option.bind_some, Reference.link?, Reference.hops?,
    Place.find?, Place.top, List.findIdx?_nil]
  split <;> rfl

theorem quiet_assign (name : Token) (place : Place) :
    Quiet [.reference ⟨.assign, name, name.lexeme, place⟩] := by
  simp [Quiet, Event.complaint?, Reference.fault?]

theorem quiet_append {events others : List Event} :
    Quiet (events ++ others) ↔ Quiet events ∧ Quiet others := List.forall_mem_append

mutual

/-- What the resolver says about an expression outside of all scopes does not depend on where
it is written. -/
theorem Expr.quiet_relabel (r : Relabelling) : ∀ expr : Expr,
    Quiet ((expr.relabel r).events .top) ↔ Quiet (expr.events .top)
  | .literal _ => .rfl
  | .grouping inner => inner.quiet_relabel r
  | .unary _ _ right => right.quiet_relabel r
  | .binary _ _ left right => by
    simp only [Expr.relabel, Expr.events, quiet_append, left.quiet_relabel r,
      right.quiet_relabel r]
  | .logical _ _ left right => by
    simp only [Expr.relabel, Expr.events, quiet_append, left.quiet_relabel r,
      right.quiet_relabel r]
  | .ref name => by simp [Quiet, Expr.events, Event.complaint?, Reference.fault?, Place.top,
      Place.innermost?]
  | .assign name value => by
    simp only [Expr.relabel, Expr.events, quiet_append, value.quiet_relabel r, quiet_assign]
  | .call callee _ args => by
    simp only [Expr.relabel, Expr.events, quiet_append, callee.quiet_relabel r,
      quiet_relabelArgs r args]
  | .get object _ => object.quiet_relabel r
  | .set object _ value => by
    simp only [Expr.relabel, Expr.events, quiet_append, object.quiet_relabel r,
      value.quiet_relabel r]
  | .this _ => by simp [Quiet, Expr.events, Event.complaint?, Reference.fault?]
  | .super _ _ => by simp [Quiet, Expr.events, Event.complaint?, Reference.fault?]

theorem quiet_relabelArgs (r : Relabelling) : ∀ args : List Expr,
    Quiet (argEvents .top (relabelArgs r args)) ↔ Quiet (argEvents .top args)
  | [] => .rfl
  | arg :: args => by
    simp only [relabelArgs, argEvents, quiet_append, arg.quiet_relabel r, quiet_relabelArgs r args]

end

/-- An expression that may be evaluated may be printed where it is written anew, and neither has
any links. -/
theorem resolve_print {expr copy : Expr} {r : Relabelling} (h : copy.relabel r = expr.relabel r)
    {resolution : Resolution} (hresolve : resolveProgram [.expression expr] = ⟨resolution, #[]⟩) :
    resolution = .empty ∧ resolveProgram [.print copy] = ⟨.empty, #[]⟩ := by
  have hlinks (expr : Expr) : (expr.events .top).filterMap Event.link? = [] :=
    List.filterMap_eq_nil_iff.2 fun _ => Expr.link?_top
  have hevents : programEvents [.expression expr] = expr.events .top := List.append_nil _
  have hcopies : programEvents [.print copy] = copy.events .top := List.append_nil _
  have hbranched : BranchedAll [.expression expr] := ⟨trivial, trivial⟩
  have hbranched' : BranchedAll [.print copy] := ⟨trivial, trivial⟩
  have hquiet : Quiet (expr.events .top) := by
    rw [← hevents, ← resolveProgram_quiet_iff hbranched, hresolve]
  have hcopy : Quiet (copy.events .top) := by
    rwa [← copy.quiet_relabel r, h, expr.quiet_relabel r]
  rw [resolveProgram_eq hbranched, hevents, hlinks] at hresolve
  rw [resolveProgram_eq hbranched', hcopies, hlinks]
  refine ⟨(Resolved.mk.inj hresolve).1.symm, ?_⟩
  rw [List.filterMap_eq_nil_iff.2 hcopy]
  rfl

/-! ## Running -/

section

variable {turns : List Turn} {session : Session} {text : String}

def Acceptance.concludeValue (acceptance : Acceptance) :
    Outcome Value → Except Trouble (Ending × Value × Session)
  | .done value machine => .ok (.completed, value, { acceptance.session with machine }.closeUnit)
  | .failed failure machine =>
    .ok (.runtimeError, .nil, (acceptance.session.noteFailure failure machine).closeUnit)
  | .stuck _ => .error .stuck
  | .outOfFuel => .error .outOfFuel

theorem Session.evaluate_of_accept? {acceptance : Acceptance} {expr : Expr}
    (h : session.accept? (.evaluate text) = some acceptance)
    (hprogram : acceptance.program = [.expression expr]) (fuel : Nat) :
    session.evaluate fuel text =
      acceptance.concludeValue (Eval.evaluate fuel acceptance.session.limits.calls expr
        acceptance.machine) := by
  cases accepts_of_accept? h with
  | evaluate hopen hcheck hdry =>
    cases hprogram
    simp only [evaluate, hopen, evaluateTokens, bind, Except.bind, hcheck, hdry,
      interpretExpression, Acceptance.machine]
    cases Eval.evaluate fuel _ expr _ <;> rfl

/-- A text that is evaluated without a static issue is an expression without issue. -/
theorem Session.evaluated (hready : session.stage = .ready) (hflags : session.flags = {})
    {fuel : Nat}
    (h : ∀ value after, session.evaluate fuel text ≠ .ok (.staticError, value, after)) :
    ∃ acceptance resolution expr, session.accept? (.evaluate text) = some acceptance ∧
      acceptance.program = [.expression expr] ∧
      acceptance.machine = session.machine.addLinks resolution ∧
      acceptance.session.report.entries = [] ∧ acceptance.session.limits = session.limits ∧
      (scan (session.report.unit + 1) text.toList).complaints = #[] ∧
      parseExpression (scan (session.report.unit + 1) text.toList).tokens.toList
        (scan (session.report.unit + 1) text.toList).stop session.limits.nesting =
          ⟨some expr, #[]⟩ ∧
      resolveProgram [.expression expr] = ⟨resolution, #[]⟩ := by
  obtain ⟨checked, hnoted, haccept, hidle⟩ := session.checked hready (.evaluate text)
  rw [hflags] at haccept
  cases hverdict : (session.verdict (.evaluate text)).accepted? with
  | none =>
    -- a text that is not accepted ends on a static issue
    have htake := hidle (.inl hverdict) fuel
    rw [← Verdict.isSome_accepted?, hverdict, take] at htake
    cases hevaluate : session.evaluate fuel text with
    | error trouble =>
      rw [hevaluate] at htake
      cases htake
    | ok result =>
      rw [hevaluate] at htake
      obtain ⟨ending, value, after⟩ := result
      cases htake
      exact absurd hevaluate (h value _)
  | some found =>
    obtain ⟨draft, resolution⟩ := found
    have hcheck := Verdict.eq_accepted hverdict
    obtain ⟨hscan, hparse, hresolve⟩ := Request.check_eq_accepted.1 hcheck
    obtain ⟨htree, hquiet⟩ := Parsed.mk.inj hparse
    obtain ⟨expr, hexpr, rfl⟩ := Option.map_eq_some_iff.1 htree
    rw [hverdict] at haccept
    rw [hcheck] at hnoted
    refine ⟨_, resolution, expr, haccept, rfl, ?_, hnoted.entries, hnoted.limits, ?_, ?_,
      hresolve⟩
    · rw [Acceptance.machine, hnoted.machine, Session.dumps_off hflags, Machine.write,
        String.append_empty]
      rfl
    · simpa [Scan.entries, Request.scanned, Request.text] using hscan
    · rw [← hexpr]
      exact congrArg (Parsed.mk _) hquiet

/-- References of a new unit have no links of earlier ones. -/
theorem Session.unlinked {links : Resolution} {unit : Nat} {events : List Event}
    (hlinks : ∀ link ∈ links.links, link.token.unit ≤ unit)
    (h : ∀ event ∈ events, ∀ reference, event.reference? = some reference →
      reference.token.unit = unit + 1) : Unlinked links events := by
  intro event hevent reference hreference
  refine Resolution.hops?_eq_none_of_unit fun link hlink heq => ?_
  have hle := hlinks link hlink
  have hunit := h event hevent reference hreference
  omega

/-- An expression of a new unit comes to the same at both places. -/
theorem Session.Sound.same_copy {past : Past} (hsound : session.Sound past) {expr copy : Expr}
    (hlabels : copy.relabel (inUnit (session.report.unit + 1)) =
      expr.relabel (inUnit (session.report.unit + 1)))
    (hexpr : ∀ event ∈ expr.events .top, ∀ reference, event.reference? = some reference →
      reference.token.unit = session.report.unit + 1)
    (hcopy : ∀ event ∈ copy.events .top, ∀ reference, event.reference? = some reference →
      reference.token.unit = session.report.unit + 1) (fuel room : Nat) :
    (Eval.evaluate fuel room expr session.machine).Same session.machine.resolution
      (Eval.evaluate fuel room copy session.machine) := by
  have hfresh : Afresh (inUnit (session.report.unit + 1)) session.machine.resolution := by
    refine ⟨fun _ => rfl, fun token => Resolution.hops?_eq_none_of_unit fun link hlink heq => ?_⟩
    have hle := hsound.links link hlink
    have hunit : link.token.unit = session.report.unit + 1 := heq
    omega
  have hleft := same_evaluate hfresh fuel room expr (unlinked hsound.links hexpr) _ rfl
  have hright := same_evaluate hfresh fuel room copy (unlinked hsound.links hcopy) _ rfl
  rw [hlabels] at hright
  exact hleft.trans hright.symm

/-- What a print statement comes to, by what its expression comes to. -/
inductive Outcome.Printed : Outcome Value → Outcome Unit → Prop where
  | done {value : Value} {machine : Machine} :
      Printed (.done value machine) (.done () (machine.write (machine.display value ++ "\n")))
  | failed {failure failure' : Failure} {machine : Machine}
      (hfault : failure'.fault = failure.fault) :
      Printed (.failed failure machine) (.failed failure' machine)
  | stuck {machine : Machine} : Printed (.stuck machine) (.stuck machine)
  | outOfFuel : Printed .outOfFuel .outOfFuel

theorem Eval.executeUnit_print {links : Resolution} {fuel room : Nat} {expr copy : Expr}
    {machine : Machine}
    (h : (evaluate fuel room expr machine).Same links (evaluate fuel room copy machine)) :
    (evaluate fuel room expr machine).Printed
      (executeUnit (fuel + 1) room [.print copy] machine) := by
  have hunit : executeUnit (fuel + 1) room [.print copy] machine =
      Run.bind (Run.bind (evaluate fuel room copy) fun value =>
        Run.bind (printValue value) fun _ => Run.pure Completion.normal) (fun _ => Run.pure ())
        machine := rfl
  rw [hunit]
  unfold Run.bind
  generalize evaluate fuel room expr machine = outcome,
    evaluate fuel room copy machine = outcome' at h
  cases h with
  | done _ => exact .done
  | failed hfault => exact .failed hfault
  | stuck => exact .stuck
  | outOfFuel => exact .outOfFuel

/-- The units of both are concluded alike. -/
theorem Outcome.Printed.conclude {outcome : Outcome Value} {outcome' : Outcome Unit}
    (h : outcome.Printed outcome') {acceptance acceptance' : Acceptance}
    (hentries : acceptance'.session.report.entries = acceptance.session.report.entries) :
    (∀ value after, acceptance.concludeValue outcome = .ok (.completed, value, after) →
      ∃ printed, acceptance'.conclude outcome' = .ok (.completed, printed) ∧
        printed.machine = after.machine.write (after.machine.display value ++ "\n") ∧
        printed.report.entries = after.report.entries) ∧
    (∀ value after, acceptance.concludeValue outcome = .ok (.runtimeError, value, after) →
      ∃ printed, acceptance'.conclude outcome' = .ok (.runtimeError, printed) ∧
        printed.machine = after.machine ∧ printed.report.entries = after.report.entries) ∧
    (∀ trouble, acceptance.concludeValue outcome = .error trouble →
      acceptance'.conclude outcome' = .error trouble) := by
  cases h with
  | done =>
    refine ⟨fun value after hdone => ?_, fun _ _ hfails => (by cases hfails),
      fun _ htrouble => (by cases htrouble)⟩
    cases hdone
    exact ⟨_, rfl, rfl, hentries⟩
  | failed hfault =>
    refine ⟨fun _ _ hdone => (by cases hdone), fun value after hfails => ?_,
      fun _ htrouble => (by cases htrouble)⟩
    cases hfails
    refine ⟨_, rfl, rfl, ?_⟩
    simp only [Session.closeUnit, Session.noteFailure, Report.noteFailure_eq, hentries, hfault]
  | stuck =>
    refine ⟨fun _ _ hdone => (by cases hdone), fun _ _ hfails => (by cases hfails),
      fun _ htrouble => ?_⟩
    cases htrouble
    rfl
  | outOfFuel =>
    refine ⟨fun _ _ hdone => (by cases hdone), fun _ _ hfails => (by cases hfails),
      fun _ htrouble => ?_⟩
    cases htrouble
    rfl

end

/-- Evaluating a text and printing it come to the same: if the text has no static issue its print
statement has none.  If the text evaluates to a value the statement writes the value and otherwise
leaves the machine as the evaluation does; if the evaluation fails or does not end, so does the
statement, with the same message. -/
theorem evaluate_and_print {turns : List Turn} {session : Session} (h : Reached turns session)
    (hflags : session.flags = {}) (text : String) (fuel : Nat)
    (hstatic : ∀ value after, session.evaluate fuel text ≠ .ok (.staticError, value, after)) :
    (∀ more after, session.run more (printText text) ≠ .ok (.staticError, after)) ∧
    (∀ value after, session.evaluate fuel text = .ok (.completed, value, after) →
      ∃ printed, session.run (fuel + 1) (printText text) = .ok (.completed, printed) ∧
        printed.machine = after.machine.write (after.machine.display value ++ "\n") ∧
        printed.report.entries = after.report.entries) ∧
    (∀ value after, session.evaluate fuel text = .ok (.runtimeError, value, after) →
      ∃ printed, session.run (fuel + 1) (printText text) = .ok (.runtimeError, printed) ∧
        printed.machine = after.machine ∧ printed.report.entries = after.report.entries) ∧
    (∀ trouble, session.evaluate fuel text = .error trouble →
      session.run (fuel + 1) (printText text) = .error trouble) := by
  have hsound := h.sound
  obtain ⟨acceptance, resolution, expr, haccept, hprogram, hmachine, hentries, hlimits, hscan,
    hparse, hresolve⟩ := Session.evaluated hsound.stage hflags hstatic
  obtain ⟨copy, hcopy, hlabels⟩ := parse_printText hscan hparse (session.report.unit + 1)
  obtain ⟨rfl, hresolve'⟩ := resolve_print hlabels hresolve
  obtain ⟨acceptance', haccept', hprogram', hentries', -, -, hlimits', hmachine'⟩ :=
    Session.accept?_silent hsound.stage hflags (scan_printText hscan _).1 hcopy (by rw [hresolve'])
  have hevents : programEvents [.expression expr] = expr.events .top := List.append_nil _
  have hcopies : programEvents [.print copy] = copy.events .top := List.append_nil _
  have hsame := hsound.same_copy hlabels
    (hevents ▸ fun event hevent reference href =>
      (mentions_of_parseExpression hparse).unit_eq hevent href)
    (hcopies ▸ (readIn_of_parse hcopy).references) fuel session.limits.calls
  have hrun (more : Nat) : session.run more (printText text) =
      acceptance'.conclude
        (executeUnit more session.limits.calls [.print copy] session.machine) := by
    have htake := Session.take_run haccept' more
    rw [hprogram', hmachine', hresolve', hlimits'] at htake
    exact htake
  have hevaluate : session.evaluate fuel text =
      acceptance.concludeValue
        (Eval.evaluate fuel session.limits.calls expr session.machine) := by
    rw [Session.evaluate_of_accept? haccept hprogram, hmachine, hlimits]
    rfl
  refine ⟨fun more after hends => ?_, ?_⟩
  · rw [hrun] at hends
    exact (acceptance'.tells hentries' hends).1 rfl
  · rw [hrun, hevaluate]
    exact (executeUnit_print hsame).conclude (hentries'.trans hentries.symm)

/-- A function that shows its argument, and asks for a line and adds to it. -/
def askingText : String := "fun ask(a) \x7b print a; return input(a) + a; \x7d"

def askingStart : Session := .start {} false (.seeded 0 0) "no"

def askingSession : Session := askingStart.after 20 (.run askingText)

/-- A call with a comment behind it, which the semicolon is not in; and a call of the text that the
function returns, which fails when the function has asked. -/
theorem askingSession_prints :
    (∃ value after, askingSession.evaluate 20 "ask(\"?\") // or not" =
        .ok (.completed, value, after) ∧ after.machine.output = "?\n?" ∧
      ∃ printed, askingSession.run 21 (printText "ask(\"?\") // or not") =
        .ok (.completed, printed) ∧ printed.machine.output = "?\n?no?\n") ∧
    ∃ value after, askingSession.evaluate 20 "ask(\"?\")()" = .ok (.runtimeError, value, after) ∧
      after.machine.output = "?\n?" ∧
      ∃ printed, askingSession.run 21 (printText "ask(\"?\")()") = .ok (.runtimeError, printed) ∧
        printed.machine.output = "?\n?" ∧
        printed.report.entries = [(.runtime, "Can only call functions and classes.")] := by
  have hreached : Reached [⟨askingStart, .run askingText, 20⟩] askingSession :=
    .after (.start _ _ _ _ _) (by decide +kernel)
  obtain ⟨hflags, hvalue, hfailure⟩ : askingSession.flags = {} ∧
      (askingSession.evaluate 20 "ask(\"?\") // or not").toOption.map (fun result =>
        (result.1, result.2.2.machine.output, result.2.2.machine.display result.2.1)) =
        some (.completed, "?\n?", "no?") ∧
      (askingSession.evaluate 20 "ask(\"?\")()").toOption.map (fun result =>
        (result.1, result.2.2.machine.output, result.2.2.report.entries)) =
        some (.runtimeError, "?\n?", [(.runtime, "Can only call functions and classes.")]) := by
    decide +kernel
  constructor
  · obtain ⟨⟨ending, value, after⟩, hevaluate, hshown⟩ := Except.ok_of_map_toOption hvalue
    obtain ⟨rfl, houtput, hdisplay⟩ := by simpa only [Prod.mk.injEq] using hshown
    obtain ⟨-, hcompleted, -⟩ := evaluate_and_print hreached hflags "ask(\"?\") // or not" 20
      (by rw [hevaluate]; rintro _ _ ⟨⟩)
    obtain ⟨printed, hrun, hmachine, -⟩ := hcompleted value after hevaluate
    refine ⟨value, after, hevaluate, houtput, printed, hrun, ?_⟩
    rw [hmachine, Machine.write, hdisplay, houtput]
    rfl
  · obtain ⟨⟨ending, value, after⟩, hevaluate, hshown⟩ := Except.ok_of_map_toOption hfailure
    obtain ⟨rfl, houtput, hentries⟩ := by simpa only [Prod.mk.injEq] using hshown
    obtain ⟨-, -, hfails, -⟩ := evaluate_and_print hreached hflags "ask(\"?\")()" 20
      (by rw [hevaluate]; rintro _ _ ⟨⟩)
    obtain ⟨printed, hrun, hmachine, hsame⟩ := hfails value after hevaluate
    exact ⟨value, after, hevaluate, houtput, printed, hrun, by rw [hmachine, houtput],
      hsame.trans hentries⟩

end Moth
