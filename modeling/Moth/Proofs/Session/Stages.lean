import Moth.Session
/-!
# The stages of a unit

A unit is opened, checked and run.  Opening and checking touch the report and the output of a
session and nothing else: what they write are the tokens and the tree, and what they note are
the complaints of scanner, parser and resolver.
-/

namespace Moth

/-! ## Noting complaints -/

abbrev Entry := Phase × String

def Scan.entries (scan : Scan) : List Entry :=
  scan.complaints.toList.map fun complaint => (.scan, complaint.fault.message)

def Parsed.entries {α : Type} (parsed : Parsed α) : List Entry :=
  parsed.complaints.toList.map fun complaint => (.parse, complaint.fault.message)

def Resolved.entries (resolved : Resolved) : List Entry :=
  resolved.complaints.toList.map fun complaint => (.resolve, complaint.fault.message)

theorem Parsed.entries_eq_nil {α : Type} {parsed : Parsed α} :
    parsed.entries = [] ↔ parsed.complaints = #[] := by
  simp [entries]

theorem Resolved.entries_eq_nil {resolved : Resolved} :
    resolved.entries = [] ↔ resolved.complaints = #[] := by
  simp [entries]

namespace Report

def entries (report : Report) : List Entry :=
  report.issues.toList.map fun issue => (issue.phase, issue.message)

theorem ok_iff (report : Report) : report.ok = true ↔ report.entries = [] := by
  simp [ok, entries]

/-- Noting complaints one after the other adds their entries, and leaves the unit as it is. -/
theorem foldl_note {α : Type} {note : Report → α → Report} {entry : α → Entry}
    (hunit : ∀ report a, (note report a).unit = report.unit)
    (hentries : ∀ report a, (note report a).entries = report.entries ++ [entry a])
    (complaints : Array α) (report : Report) :
    (complaints.foldl note report).unit = report.unit ∧
      (complaints.foldl note report).entries =
        report.entries ++ complaints.toList.map entry := by
  rw [← Array.foldl_toList]
  induction complaints.toList generalizing report with
  | nil => simp
  | cons first rest ih =>
    obtain ⟨hrestUnit, hrestEntries⟩ := ih (note report first)
    rw [List.foldl_cons, hrestUnit, hrestEntries, hunit, hentries]
    simp

theorem noteScan_eq (report : Report) (scan : Scan) :
    (report.noteScan scan).unit = report.unit ∧
      (report.noteScan scan).entries = report.entries ++ scan.entries := by
  refine foldl_note ?_ ?_ scan.complaints report
  · exact fun _ _ => rfl
  · simp [noteAtOffset, note, add, entries]

theorem noteParse_eq {α : Type} (report : Report) (parsed : Parsed α) :
    (report.noteParse parsed).unit = report.unit ∧
      (report.noteParse parsed).entries = report.entries ++ parsed.entries := by
  refine foldl_note ?_ ?_ parsed.complaints report
  · exact fun _ _ => rfl
  · simp [noteAtToken, note, add, entries]

theorem noteResolve_eq (report : Report) (resolved : Resolved) :
    (report.noteResolve resolved).unit = report.unit ∧
      (report.noteResolve resolved).entries = report.entries ++ resolved.entries := by
  refine foldl_note ?_ ?_ resolved.complaints report
  · exact fun _ _ => rfl
  · simp [noteAtToken, note, add, entries]

theorem noteFailure_eq (report : Report) (token : Token) (message : String) :
    (report.noteFailure token message).entries = report.entries ++ [(.runtime, message)] := by
  simp [noteFailure, add, entries]

end Report

@[simp] theorem Machine.write_empty (machine : Machine) : machine.write "" = machine := by
  simp [Machine.write]

theorem Machine.write_write (machine : Machine) (first second : String) :
    (machine.write first).write second = machine.write (first ++ second) := by
  simp [Machine.write, String.append_assoc]

/-! ## Opening and checking -/

namespace Session

/-- The newer session has written a text and noted some entries, and is otherwise the same. -/
structure Noted (older newer : Session) (text : String) (entries : List Entry) : Prop where
  machine : newer.machine = older.machine.write text
  entries : newer.report.entries = older.report.entries ++ entries
  unit : newer.report.unit = older.report.unit
  stage : newer.stage = older.stage
  flags : newer.flags = older.flags
  limits : newer.limits = older.limits

namespace Noted

theorem trans {oldest older newer : Session} {text text' : String} {entries entries' : List Entry}
    (h : oldest.Noted older text entries) (h' : older.Noted newer text' entries') :
    oldest.Noted newer (text ++ text') (entries ++ entries') where
  machine := by rw [h'.machine, h.machine, Machine.write_write]
  entries := by rw [h'.entries, h.entries, List.append_assoc]
  unit := h'.unit.trans h.unit
  stage := h'.stage.trans h.stage
  flags := h'.flags.trans h.flags
  limits := h'.limits.trans h.limits

/-- Something that leaves no trace but on the console, after something that does. -/
theorem quietly {oldest older newer : Session} {text : String} {entries : List Entry}
    (h : oldest.Noted older text entries) (h' : older.Noted newer "" []) :
    oldest.Noted newer text entries := by
  simpa using h.trans h'

theorem write (session : Session) (text : String) : session.Noted (session.write text) text [] :=
  ⟨rfl, (List.append_nil _).symm, rfl, rfl, rfl, rfl⟩

theorem info (session : Session) (text : String) : session.Noted (session.info text) "" [] := by
  unfold Session.info Report.info
  split <;>
    exact ⟨(Machine.write_empty _).symm, (List.append_nil _).symm, rfl, rfl, rfl, rfl⟩

theorem showTree (session : Session) (text : String) :
    session.Noted (session.showTree text) (if session.flags.showParse then text else "") [] := by
  unfold Session.showTree
  split
  · exact write session text
  · exact ⟨(Machine.write_empty _).symm, (List.append_nil _).symm, rfl, rfl, rfl, rfl⟩

theorem noteParse {α : Type} (session : Session) (parsed : Parsed α) :
    session.Noted (session.noteParse parsed) "" parsed.entries :=
  ⟨(Machine.write_empty _).symm, (Report.noteParse_eq _ _).2, (Report.noteParse_eq _ _).1,
    rfl, rfl, rfl⟩

theorem resolve (session : Session) (program : List Stmt) :
    session.Noted (session.resolve program).1 "" (resolveProgram program).entries :=
  ⟨(Machine.write_empty _).symm, (Report.noteResolve_eq _ _).2, (Report.noteResolve_eq _ _).1,
    rfl, rfl, rfl⟩

/-- The tree has been shown and resolved. -/
theorem resolved {session before : Session} (h : session.Noted before "" [])
    (hclean : session.report.entries = []) (shown : String) (program : List Stmt) : ∃ checked,
      session.Noted checked (if session.flags.showParse then shown else "")
        (resolveProgram program).entries ∧
      (before.showTree shown).resolve program =
        (checked, if (resolveProgram program).complaints = #[] then
          some (resolveProgram program).resolution else none) := by
  have hnoted := (h.trans (showTree before shown)).trans (resolve _ program)
  rw [String.empty_append, String.append_empty, List.nil_append, List.nil_append, h.flags] at hnoted
  refine ⟨_, hnoted, Prod.ext rfl ?_⟩
  have hok : ((before.showTree shown).resolve program).1.report.ok = true ↔
      (resolveProgram program).complaints = #[] := by
    rw [Report.ok_iff, hnoted.entries, hclean, List.nil_append, Resolved.entries_eq_nil]
  simp only [Session.resolve] at hok ⊢
  simp only [hok]

end Noted

variable {session : Session} {scan : Scan}

/-- The report is without an issue after parsing exactly if it was before and nothing is added. -/
theorem ok_noteParse {α : Type} (parsed : Parsed α) :
    (session.noteParse parsed).report.ok = true ↔
      session.report.entries ++ parsed.entries = [] := by
  rw [Report.ok_iff, (Noted.noteParse session parsed).entries]

theorem checkProgram_malformed {parsed : Parsed (List Stmt)}
    (hparsed : parseProgram scan.tokens.toList scan.stop session.limits.nesting = parsed)
    (h : session.report.entries ++ parsed.entries ≠ []) :
    ∃ checked, session.Noted checked "" parsed.entries ∧
      session.checkProgram scan = (checked, none) := by
  have hok := mt (ok_noteParse parsed).1 h
  exact ⟨_, .noteParse session parsed, by simp [checkProgram, hparsed, hok]⟩

theorem checkProgram_parsed {parsed : Parsed (List Stmt)}
    (hparsed : parseProgram scan.tokens.toList scan.stop session.limits.nesting = parsed)
    (h : session.report.entries ++ parsed.entries = []) :
    ∃ checked, session.Noted checked
        (if session.flags.showParse then renderProgram parsed.tree else "")
        (resolveProgram parsed.tree).entries ∧
      session.checkProgram scan =
        (checked, if (resolveProgram parsed.tree).complaints = #[] then
          some ((resolveProgram parsed.tree).resolution, parsed.tree) else none) := by
  have hok := (ok_noteParse parsed).2 h
  obtain ⟨hbefore, hentries⟩ := List.append_eq_nil_iff.1 h
  have hinfo := (Noted.noteParse session parsed).quietly
    (.info _ s!"Parsed {parsed.tree.length} top-level statements")
  rw [hentries] at hinfo
  obtain ⟨checked, hnoted, hresolve⟩ :=
    hinfo.resolved hbefore (renderProgram parsed.tree) parsed.tree
  simp only [checkProgram, hparsed, hok, Bool.not_true, Bool.false_eq_true, if_false]
  rw [hresolve]
  by_cases hquiet : (resolveProgram parsed.tree).complaints = #[]
  · simp only [if_pos hquiet]
    exact ⟨_, hnoted.quietly (.info _ _), rfl⟩
  · simp only [if_neg hquiet]
    exact ⟨_, hnoted, rfl⟩

theorem checkExpression_malformed {parsed : Parsed (Option Expr)}
    (hparsed : parseExpression scan.tokens.toList scan.stop session.limits.nesting = parsed)
    (h : parsed.tree = none ∨ session.report.entries ++ parsed.entries ≠ []) :
    ∃ checked, session.Noted checked "" parsed.entries ∧
      session.checkExpression scan = (checked, none) := by
  refine ⟨_, .noteParse session parsed, ?_⟩
  unfold checkExpression
  rw [hparsed]
  dsimp only
  split
  · rfl
  · next hsome =>
    have hok := mt (ok_noteParse parsed).1 (h.resolve_left (by simp [hsome]))
    simp [hok]

theorem checkExpression_parsed {parsed : Parsed (Option Expr)} {expr : Expr}
    (hparsed : parseExpression scan.tokens.toList scan.stop session.limits.nesting = parsed)
    (hexpr : parsed.tree = some expr) (h : session.report.entries ++ parsed.entries = []) :
    ∃ checked, session.Noted checked (if session.flags.showParse then expr.render ++ "\n" else "")
        (resolveProgram [.expression expr]).entries ∧
      session.checkExpression scan =
        (checked, if (resolveProgram [.expression expr]).complaints = #[] then
          some ((resolveProgram [.expression expr]).resolution, expr) else none) := by
  have hok := (ok_noteParse parsed).2 h
  obtain ⟨hbefore, hentries⟩ := List.append_eq_nil_iff.1 h
  have hparse := Noted.noteParse session parsed
  rw [hentries] at hparse
  obtain ⟨checked, hnoted, hresolve⟩ :=
    hparse.resolved hbefore (expr.render ++ "\n") [.expression expr]
  simp only [checkExpression, hparsed, hexpr, hok, Bool.not_true, Bool.false_eq_true, if_false]
  rw [hresolve]
  by_cases hquiet : (resolveProgram [.expression expr]).complaints = #[]
  · simp only [if_pos hquiet]
    exact ⟨_, hnoted, rfl⟩
  · simp only [if_neg hquiet]
    exact ⟨_, hnoted, rfl⟩

/-- A session that is ready, with the next unit begun and the issues of the last one gone. -/
def begun (session : Session) : Session :=
  { session with
    report := { session.report with unit := session.report.unit + 1, issues := #[] }
    stage := .running }

def listing (scan : Scan) : String := String.join (scan.allTokens.map (·.listing ++ "\n"))

theorem openUnit_ready (h : session.stage = .ready) (text : String) :
    let scan := Moth.scan (session.report.unit + 1) text.toList
    ∃ opened, session.openUnit text = .ok (scan, opened) ∧
      session.begun.Noted opened (if session.flags.showTokens then listing scan else "")
        scan.entries := by
  intro scan
  have hscan : session.begun.Noted { session with
      report := (session.report.reset.setSource text.toList).noteScan scan
      stage := .running } "" scan.entries :=
    ⟨(Machine.write_empty _).symm, (Report.noteScan_eq _ _).2, (Report.noteScan_eq _ _).1, rfl, rfl,
      rfl⟩
  have hinfo := hscan.quietly (.info _ s!"Scanned {scan.allTokens.length} tokens")
  have hflags := hinfo.flags
  unfold openUnit
  rw [h]
  dsimp only
  split
  · next hshow =>
    have hshow' : session.flags.showTokens = true := hflags ▸ hshow
    rw [if_pos hshow']
    have hwritten := hinfo.trans (.write _ (listing scan))
    rw [String.empty_append, List.append_nil] at hwritten
    exact ⟨_, rfl, hwritten⟩
  · next hshow =>
    have hshow' : ¬ session.flags.showTokens = true := hflags ▸ hshow
    rw [if_neg hshow']
    exact ⟨_, rfl, hinfo⟩

end Session

end Moth
