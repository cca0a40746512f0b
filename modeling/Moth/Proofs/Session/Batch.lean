import Moth.Proofs.Rendering.Copying
import Moth.Proofs.Rendering.RoundTrip
import Moth.Proofs.Scanning.Lines
import Moth.Proofs.Session.Comparing
/-!
# Units in turn and units at once

Two texts are run in turn, or as one text with a line break between them.  If each is without
issue and the first completes, both ways come to the same: no token, statement or scope goes
across the line break, and the functions of the first text do in the second what they do when
they come from another unit.
-/

namespace Moth

open Eval Syntax

/-! ## Reading two texts at once -/

theorem joint_program {levels unit unit' joint : Nat} {text more : String}
    {program program' : List Stmt}
    (hscan : (scan unit text.toList).complaints = #[])
    (hparse : parseProgram (scan unit text.toList).tokens.toList (scan unit text.toList).stop
      levels = ⟨program, #[]⟩)
    (hscan' : (scan unit' more.toList).complaints = #[])
    (hparse' : parseProgram (scan unit' more.toList).tokens.toList (scan unit' more.toList).stop
      levels = ⟨program', #[]⟩)
    (hshallow : ¬ TooDeep (programOf levels joint (text ++ "\n" ++ more))) :
    (scan joint (text ++ "\n" ++ more).toList).complaints = #[] ∧
      ∃ first second, programOf levels joint (text ++ "\n" ++ more) = ⟨first ++ second, #[]⟩ ∧
        bareAll first = bareAll program ∧ bareAll second = bareAll program' := by
  have htext : (text ++ "\n" ++ more).toList = text.toList ++ '\n' :: more.toList := by simp
  have hjoint := Scan.scan_lines hscan hscan' joint
  rw [← htext] at hjoint
  obtain ⟨hquiet, hwords⟩ := hjoint
  refine ⟨hquiet, ?_⟩
  obtain ⟨ts, us, htokens, hts, hus⟩ := List.map_eq_append_iff.1 hwords
  obtain ⟨first, hfirst, hbare⟩ := (derives_of_parsed hparse).copies hts
  obtain ⟨second, hsecond, hbare'⟩ := (derives_of_parsed hparse').copies hus
  have hboth := hfirst.followed hsecond
  rw [← htokens] at hboth
  exact ⟨first, second, (parseProgram_of_derives hboth _ levels).resolve_right
    fun hdeep => hshallow hdeep.2, hbare, hbare'⟩

theorem programEvents_append (first second : List Stmt) :
    programEvents (first ++ second) = programEvents first ++ programEvents second := by
  induction first with
  | nil => rfl
  | cons stmt rest ih =>
    have hcons (stmts : List Stmt) :
        programEvents (stmt :: stmts) = stmt.events .top ++ programEvents stmts := by
      rw [programEvents, eventsAll, Place.top_after]
      rfl
    rw [List.cons_append, hcons, hcons, ih, List.append_assoc]

/-! ## Programs without issue -/

theorem Request.check_quiet {limits : Limits} {unit : Nat} {text : String}
    (h : ((Request.run text).check limits unit).entries = []) :
    (scan unit text.toList).complaints = #[] ∧ ∃ program,
      parseProgram (scan unit text.toList).tokens.toList (scan unit text.toList).stop
        limits.nesting = ⟨program, #[]⟩ ∧ (resolveProgram program).complaints = #[] := by
  unfold Request.check at h
  dsimp only at h
  split at h
  · next hnone => cases hnone
  · next draft hdraft =>
    cases hdraft
    split at h
    · next hentries => exact absurd h hentries
    · next hentries =>
      obtain ⟨hscan, hparse⟩ := List.append_eq_nil_iff.1 (Classical.not_not.1 hentries)
      rw [Parsed.entries_eq_nil] at hparse
      refine ⟨by simpa [Scan.entries, Request.scanned, Request.text] using hscan, _,
        congrArg (Parsed.mk _) hparse, ?_⟩
      split at h
      · next hresolved => exact hresolved
      · next hresolved => exact absurd (Resolved.entries_eq_nil.1 h) hresolved

/-- A program without issue is so wherever it is written. -/
theorem ReadIn.quiet_copy {unit : Nat} {program copy : List Stmt} (h : ReadIn unit program)
    (hquiet : (resolveProgram program).complaints = #[])
    (hbare : bareAll copy = bareAll program) : Quiet (programEvents copy) := by
  have htwins := stmtTwins_of_bareAll hbare (resolveProgram program).resolution (fun _ => True)
    fun _ _ _ _ => trivial
  have htogether := stmtTwins_together (Matching.named_byName (· = .same) _ _) rfl [] .top .top
    program .top htwins h.linked (clear_same _)
  exact htogether.events.quiet ((resolveProgram_quiet_iff h.branched).1 hquiet)

/-! ## Running two texts at once -/

/-- A program and a copy of it, each with links of its own, are twins. -/
theorem stmtTwins_copy {program copy : List Stmt} (hbare : bareAll copy = bareAll program)
    {links others : Resolution} {among : Token → Prop}
    (hamong : ∀ event ∈ programEvents program, ∀ reference, event.reference? = some reference →
      among reference.token)
    (hlinks : Linked links (programEvents program))
    (hothers : Linked others (programEvents copy)) (before before' : String) :
    stmtTwins (Twinning.byName (· = .same) links others among before before').toMatching []
      program copy :=
  (stmtTwins_together (Matching.named_byName (· = .same) _ _) rfl [] .top .top program .top
    (stmtTwins_of_bareAll hbare links among hamong) hlinks (clear_same _)).meet _ hothers

theorem Session.dumps_off {session : Session} (h : session.flags = {}) (request : Request) :
    session.dumps request = "" := by
  rw [Session.dumps, h]
  rfl

/-- Links that are added for a later unit change nothing for the references before it. -/
theorem Matching.le_byName {links newer others : Resolution} {unit : Nat}
    (hnewer : ∀ link ∈ newer.links, unit < link.token.unit) (before before' : String)
    (after after' : String) :
    (Twinning.byName (· = .same) links others (·.unit ≤ unit) before before').toMatching.Le
      (Twinning.byName (· = .same) (links.merge newer) others (fun _ => True) after
        after').toMatching where
  allows h := h
  pairs := by
    rintro ρs token name token' name' ⟨⟨hamong, hname⟩, hmeets⟩
    have hlinks : (links.merge newer).hops? token = links.hops? token :=
      Resolution.hops?_merge_old hnewer hamong
    exact ⟨⟨trivial, by rw [hlinks]; exact hname⟩, by rw [hlinks]; exact hmeets⟩

/-- What is left when a text has been run to its end. -/
theorem Session.completed {session middle : Session} {text : String} {acceptance : Acceptance}
    (haccept : session.accept? (.run text) = some acceptance) {fuel : Nat}
    (h : session.take fuel (.run text) = .ok (.completed, middle)) :
    executeUnit fuel acceptance.session.limits.calls acceptance.program acceptance.machine =
        .done () middle.machine ∧
      middle.report = acceptance.session.report ∧ middle.flags = acceptance.session.flags ∧
      middle.limits = acceptance.session.limits ∧ middle.stage = .ready := by
  rw [take_run haccept] at h
  cases hrun : executeUnit fuel acceptance.session.limits.calls acceptance.program
      acceptance.machine with
  | done value machine =>
    rw [hrun] at h
    cases h
    exact ⟨rfl, rfl, rfl, rfl, rfl⟩
  | failed | stuck | outOfFuel =>
    rw [hrun] at h
    cases h

/-- Without dumps a text is run from the machine of the session. -/
theorem Session.accept?_silent {session : Session} {text : String} {program : List Stmt}
    (hready : session.stage = .ready) (hflags : session.flags = {})
    (hscan : (scan (session.report.unit + 1) text.toList).complaints = #[])
    (hparse : parseProgram (scan (session.report.unit + 1) text.toList).tokens.toList
      (scan (session.report.unit + 1) text.toList).stop session.limits.nesting = ⟨program, #[]⟩)
    (hquiet : (resolveProgram program).complaints = #[]) :
    ∃ acceptance, session.accept? (.run text) = some acceptance ∧
      acceptance.program = program ∧ acceptance.session.report.entries = [] ∧
      acceptance.session.report.unit = session.report.unit + 1 ∧
      acceptance.session.flags = session.flags ∧ acceptance.session.limits = session.limits ∧
      acceptance.machine = session.machine.addLinks (resolveProgram program).resolution := by
  have hcheck : session.verdict (.run text) = _ := Request.check_run hscan hparse
  rw [if_pos hquiet] at hcheck
  obtain ⟨acceptance, haccept, hprogram, hentries, hunit, hsame, hlimits, hmachine⟩ :=
    Session.accept?_run hready (by rw [hflags]) hcheck
  refine ⟨acceptance, haccept, hprogram, hentries, hunit, hsame, hlimits, ?_⟩
  rw [hmachine, Session.dumps_off hflags, String.append_empty]
  rfl

section

variable {past : Past} {session : Session} {program program' first second : List Stmt}

def Session.frontTwinning (session : Session) (links joint : Resolution) : Twinning :=
  .byName (· = .same) (session.machine.resolution.merge links)
    (session.machine.resolution.merge joint) (·.unit ≤ session.report.unit + 1)
    session.machine.output session.machine.output

/-- The first text does the same by itself and in front of the other. -/
theorem first_text (hsound : session.Sound past) (hrooted : session.machine.scopes.Rooted)
    (hread : ReadIn (session.report.unit + 1) program)
    (hjoint : ReadIn (session.report.unit + 1) (first ++ second))
    (hbare : bareAll first = bareAll program) {fuel room : Nat} {machine : Machine}
    (hdone : executeUnit fuel room program
      (session.machine.addLinks (resolveProgram program).resolution) = .done () machine) :
    ∃ names there, machine.current = Machine.globals ∧
      Settles (fun fuel => executeUnit fuel room first
        (session.machine.addLinks (resolveProgram (first ++ second)).resolution)) (.done () there) ∧
      Machine.Twin (session.frontTwinning (resolveProgram program).resolution
        (resolveProgram (first ++ second)).resolution) names machine there := by
  have hstart : Machine.Twin (session.frontTwinning (resolveProgram program).resolution
      (resolveProgram (first ++ second)).resolution) (fun _ => .same)
      (session.machine.addLinks (resolveProgram program).resolution)
      (session.machine.addLinks (resolveProgram (first ++ second)).resolution) :=
    hsound.machine.twin hrooted rfl fun reference hknown => Matching.fixes_byName
      (Nat.le_succ_of_le (hsound.known reference hknown))
      (hsound.fixes hread.links hjoint.links hknown)
  have hlinked := hjoint.linked_merge hsound.links
  rw [programEvents_append] at hlinked
  have htwins : stmtTwins (session.frontTwinning (resolveProgram program).resolution
      (resolveProgram (first ++ second)).resolution).toMatching [] program first :=
    stmtTwins_copy hbare (fun event hevent reference href =>
      Nat.le_of_eq (hread.references event hevent reference href))
      (hread.linked_merge hsound.links) hlinked.left _ _
  have hfollows := hstart.executeUnit hsound.current htwins fuel room
  rw [hdone] at hfollows
  obtain ⟨outcome, hsettles, htwin⟩ := hfollows nofun
  cases htwin with
  | done _ hthere hcurrent => exact ⟨_, _, hcurrent.trans hsound.current, hsettles, hthere⟩

def Session.backTwinning (session : Session) (links newer joint : Resolution) (output : String) :
    Twinning :=
  .byName (· = .same) ((session.machine.resolution.merge links).merge newer)
    (session.machine.resolution.merge joint) (fun _ => True) output output

theorem second_text (hsound : session.Sound past)
    (hread : ReadIn (session.report.unit + 1) program)
    (hread' : ReadIn (session.report.unit + 2) program')
    (hjoint : ReadIn (session.report.unit + 1) (first ++ second))
    (hbare : bareAll second = bareAll program') {names : Nat → Renaming} {machine there : Machine}
    (hmachine : Machine.Twin (session.frontTwinning (resolveProgram program).resolution
        (resolveProgram (first ++ second)).resolution) names machine there) :
    Machine.Twin (session.backTwinning (resolveProgram program).resolution
        (resolveProgram program').resolution (resolveProgram (first ++ second)).resolution
        machine.output) names
      (machine.addLinks (resolveProgram program').resolution) there ∧
    stmtTwins (session.backTwinning (resolveProgram program).resolution
        (resolveProgram program').resolution (resolveProgram (first ++ second)).resolution
        machine.output).toMatching [] program' second := by
  have hunits : ∀ link ∈ (session.machine.resolution.merge
      (resolveProgram program).resolution).links, link.token.unit ≤ session.report.unit + 1 := by
    intro link hlink
    rcases List.mem_append.1 hlink with hnew | hold
    · exact Nat.le_of_eq (hread.links link hnew)
    · exact Nat.le_succ_of_le (hsound.links link hold)
  have hlinked := hjoint.linked_merge hsound.links
  rw [programEvents_append] at hlinked
  constructor
  · have hle : (session.frontTwinning (resolveProgram program).resolution
        (resolveProgram (first ++ second)).resolution).toMatching.Le
        (session.backTwinning (resolveProgram program).resolution
          (resolveProgram program').resolution (resolveProgram (first ++ second)).resolution
          machine.output).toMatching :=
      Matching.le_byName (fun link hlink => (hread'.links link hlink).symm ▸ Nat.lt_succ_self _)
        _ _ _ _
    obtain ⟨text, htext, htext'⟩ := hmachine.output
    exact hmachine.widen hle rfl rfl rfl (htext.trans htext'.symm)
  · exact stmtTwins_copy hbare (fun _ _ _ _ => trivial) (hread'.linked_merge hunits)
      hlinked.right _ _

end

/-- Two texts that are run in turn come to what the text with both comes to: the last of the two
units and the joint one both end or neither does, and if they end it is in the same way, with the
same output in all and the same to be seen.  Only nesting that is too deep for the parser can keep
the joint text from being read. -/
theorem units_joined {turns : List Turn} {session middle : Session}
    (hreached : Reached turns session) (hflags : session.flags = {}) {text more : String}
    (hfirst : (session.verdict (.run text)).entries = [])
    (hmore : ((Request.run more).check session.limits (session.report.unit + 2)).entries = [])
    (hshallow : ¬ TooDeep (programOf session.limits.nesting (session.report.unit + 1)
      (text ++ "\n" ++ more)))
    {fuel : Nat} (hcompletes : session.take fuel (.run text) = .ok (.completed, middle)) :
    (middle.Halts (.run more) ↔ session.Halts (.run (text ++ "\n" ++ more))) ∧
      ∀ ending output seen, middle.Ends (.run more) ending output seen ↔
        session.Ends (.run (text ++ "\n" ++ more)) ending output seen := by
  have hsound := hreached.sound
  obtain ⟨hscan, program, hparse, hquiet⟩ := Request.check_quiet hfirst
  obtain ⟨hscan', program', hparse', hquiet'⟩ := Request.check_quiet hmore
  obtain ⟨hscanJoint, first, second, hparseJoint, hbare, hbare'⟩ :=
    joint_program hscan hparse hscan' hparse' hshallow
  have hread := readIn_of_parse hparse
  have hread' := readIn_of_parse hparse'
  have hreadJoint := readIn_of_parse hparseJoint
  have hquietJoint : (resolveProgram (first ++ second)).complaints = #[] := by
    rw [resolveProgram_quiet_iff hreadJoint.branched, programEvents_append]
    exact List.forall_mem_append.2 ⟨hread.quiet_copy hquiet hbare,
      hread'.quiet_copy hquiet' hbare'⟩
  obtain ⟨acceptance, haccept, rfl, -, hunit, hsame, hlimits, hmachine⟩ :=
    Session.accept?_silent hsound.stage hflags hscan hparse hquiet
  obtain ⟨joint, hjoint, hprogram, hnone, -, -, hlimitsJoint, hmachineJoint⟩ :=
    Session.accept?_silent hsound.stage hflags hscanJoint hparseJoint hquietJoint
  obtain ⟨hdone, hreport, hmiddle, hkept, hready⟩ := Session.completed haccept hcompletes
  have hnext : middle.report.unit + 1 = session.report.unit + 2 := by rw [hreport, hunit]
  rw [hlimits] at hdone hkept
  rw [← hnext] at hscan' hparse'
  rw [← hkept] at hparse'
  obtain ⟨acceptance', haccept', rfl, hnone', -, -, hlimits', hmachine'⟩ :=
    Session.accept?_silent hready (hmiddle.trans (hsame.trans hflags)) hscan' hparse' hquiet'
  -- the machine between the texts, and its twin in the joint run
  rw [hmachine] at hdone
  obtain ⟨names, there, hglobals, hsettles, hthere⟩ :=
    first_text hsound hreached.rooted hread hreadJoint hbare hdone
  obtain ⟨htwin, htwins⟩ := second_text hsound hread hread' hreadJoint hbare' hthere
  rw [← hmachine'] at htwin
  rw [← hmachineJoint] at hsettles
  have hends := Session.ends_behind haccept' hjoint (hnone.trans hnone'.symm)
    (by rw [hlimits', hkept]) (by rw [hlimitsJoint]) hprogram hsettles htwin
    (by rw [hmachine']; exact hglobals) htwins
  have hboth : ∀ ending output seen, middle.Ends (.run more) ending output seen ↔
      session.Ends (.run (text ++ "\n" ++ more)) ending output seen := by
    intro ending output seen
    constructor
    · intro h
      obtain ⟨written, rfl, h'⟩ := (hends ending output seen).1 h
      exact h'
    · intro h'
      obtain ⟨written, rfl, h⟩ := (hends ending output seen).2 h'
      exact h
  refine ⟨?_, hboth⟩
  simp only [Session.halts_iff, hboth]

/-- A text with a string over two lines, an open `if` and a comment at its end. -/
def countingText : String :=
  "var n = 1; fun next() \x7b n = n + 1; return n; \x7d if (n == 1) print \"two\nlines\"; // else"

/-- A text that shadows a global of the other, calls its function and fails. -/
def usingText : String := "\x7b var n = input(\"\"); print n; next(); \x7d print next(); n.field;"

def twoLineSession : Session := .start {} false (.seeded 0 0) "first\nsecond"

def countedSeen : Seen where
  entries := [(.runtime, "Only instances have properties.")]
  input := "second".toList
  globals := twoLineSession.machine.shownGlobals ++
    [("n", "number", "3"), ("next", "function", "<fn next>")]

theorem countingText_joined :
    (twoLineSession.verdict (.run countingText)).entries = [] ∧
      ((Request.run usingText).check {} 2).entries = [] ∧
      twoLineSession.Ends (.run (countingText ++ "\n" ++ usingText)) .runtimeError
        "two\nlines\nfirst\n3\n" countedSeen := by
  -- one evaluation, so that each text is scanned once
  obtain ⟨hfirst, hmore, hjoint, hshown⟩ :
      (twoLineSession.verdict (.run countingText)).entries = [] ∧
      ((Request.run usingText).check {} 2).entries = [] ∧
      (programOf nestingLimit 1 (countingText ++ "\n" ++ usingText)).complaints = #[] ∧
      (twoLineSession.take 14 (.run countingText)).toOption.bind (fun result =>
        (result.2.shown? 14 (.run usingText)).map (Prod.mk result.1)) =
        some (.completed, .runtimeError, "two\nlines\nfirst\n3\n", countedSeen) := by
    decide +kernel
  have hshallow : ¬ TooDeep (programOf nestingLimit 1 (countingText ++ "\n" ++ usingText)) := by
    rintro ⟨complaint, hmem, -⟩
    simp [hjoint] at hmem
  refine ⟨hfirst, hmore, ?_⟩
  cases htake : twoLineSession.take 14 (.run countingText) with
  | error trouble =>
    rw [htake] at hshown
    cases hshown
  | ok result =>
    obtain ⟨ending, middle⟩ := result
    rw [htake] at hshown
    obtain ⟨shown, hlast, hsame⟩ := Option.map_eq_some_iff.1 hshown
    obtain ⟨rfl, rfl⟩ := Prod.mk.inj hsame
    have hreached : Reached [] twoLineSession := .start _ _ _ _ _
    obtain ⟨-, hends⟩ := units_joined hreached rfl hfirst hmore hshallow htake
    exact (hends _ _ _).1 (Session.ends_of_shown 14 hlast)

end Moth
