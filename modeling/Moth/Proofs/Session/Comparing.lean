import Moth.Proofs.Session.Conduct
import Moth.Proofs.Twins.Respelt
/-!
# Comparing units

Two texts that are read without a complaint are run from one session.  If their programs are twins
they are both rejected, with the same entries, or both accepted, and then they end alike.
-/

namespace Moth

open Eval

/-! ## Links of several units -/

namespace Resolution

/-- Links of later units are all that is found at a token of a later unit. -/
theorem hops?_merge_new {older newer : Resolution} {unit : Nat} {token : Token}
    (holder : ∀ link ∈ older.links, link.token.unit ≤ unit) (htoken : unit < token.unit) :
    (older.merge newer).hops? token = newer.hops? token := by
  have hnone : older.hops? token = none :=
    hops?_eq_none_of_unit fun link hlink heq => by have := holder link hlink; omega
  rw [hops?_merge, hnone, Option.or_none]

/-- Links of later units change nothing at a token of an earlier one. -/
theorem hops?_merge_old {older newer : Resolution} {unit : Nat} {token : Token}
    (hnewer : ∀ link ∈ newer.links, unit < link.token.unit) (htoken : token.unit ≤ unit) :
    (older.merge newer).hops? token = older.hops? token := by
  have hnone : newer.hops? token = none :=
    hops?_eq_none_of_unit fun link hlink heq => by have := hnewer link hlink; omega
  rw [hops?_merge, hnone, Option.none_or]

end Resolution

/-- A program that was read from a text of a unit: its references are at tokens of the unit, and
have their hops in its resolution. -/
structure ReadIn (unit : Nat) (program : List Stmt) : Prop where
  branched : BranchedAll program
  linked : Linked (resolveProgram program).resolution (programEvents program)
  references : ∀ event ∈ programEvents program, ∀ reference,
    event.reference? = some reference → reference.token.unit = unit
  links : ∀ link ∈ (resolveProgram program).resolution.links, link.token.unit = unit

theorem readIn_of_parse {unit levels : Nat} {text : List Char} {stop : Token}
    {program : List Stmt}
    (hparse : parseProgram (scan unit text).tokens.toList stop levels = ⟨program, #[]⟩) :
    ReadIn unit program := by
  obtain ⟨hbranched, hmentions⟩ := mentions_of_parseProgram hparse
  exact ⟨hbranched, fun event hevent reference href =>
      resolveProgram_hops? hbranched hmentions (nodup_spots unit text) hevent href,
    fun event hevent reference href => hmentions.unit_eq hevent href,
    hmentions.links_unit hbranched⟩

/-- The links of earlier units do not get in the way. -/
theorem ReadIn.linked_merge {unit : Nat} {program : List Stmt} (h : ReadIn (unit + 1) program)
    {older : Resolution} (holder : ∀ link ∈ older.links, link.token.unit ≤ unit) :
    Linked (older.merge (resolveProgram program).resolution) (programEvents program) := by
  intro event hevent reference href
  rw [Resolution.hops?_merge_new holder, h.linked event hevent reference href]
  rw [h.references event hevent reference href]
  exact Nat.lt_succ_self unit

/-! ## The check of twins -/

theorem EventTwins.entries {M : Matching} {program program' : List Stmt}
    (h : EventTwins M (programEvents program) (programEvents program'))
    (hbranched : BranchedAll program) (hbranched' : BranchedAll program') :
    (resolveProgram program').entries = (resolveProgram program).entries := by
  rw [resolveProgram_eq hbranched, resolveProgram_eq hbranched']
  simp only [Resolved.entries]
  generalize programEvents program = events at h
  generalize programEvents program' = events' at h
  induction h with
  | nil => rfl
  | @cons event event' rest rest' hevent _ ih =>
    have hfault := hevent.fault
    cases hleft : event.complaint? <;> cases hright : event'.complaint? <;>
      simp [hleft, hright] at hfault ih ⊢
    · exact ih
    · exact ⟨by rw [hfault], ih⟩

theorem Request.check_run {limits : Limits} {unit : Nat} {text : String} {program : List Stmt}
    (hscan : (scan unit text.toList).complaints = #[])
    (hparse : parseProgram (scan unit text.toList).tokens.toList (scan unit text.toList).stop
      limits.nesting = ⟨program, #[]⟩) :
    (Request.run text).check limits unit =
      if (resolveProgram program).complaints = #[] then
        .accepted (.ofProgram limits.calls program) (resolveProgram program).resolution
      else .rejected (.ofProgram limits.calls program) (resolveProgram program).entries := by
  have hparsed : (Request.run text).parsed limits ((Request.run text).scanned unit) =
      ⟨some (.ofProgram limits.calls program), #[]⟩ := by
    simp only [Request.parsed, Request.scanned, Request.text, hparse]
  have hentries : ((Request.run text).scanned unit).entries = [] := by
    simp only [Request.scanned, Request.text, Scan.entries, hscan]
    rfl
  simp [Request.check, hparsed, hentries, Parsed.entries, Draft.ofProgram]

/-- What is run of a text that was accepted, and from which machine. -/
theorem Session.accept?_run {session : Session} {text : String} {program : List Stmt}
    {resolution : Resolution} (hready : session.stage = .ready)
    (hrun : session.flags.dryRun = false)
    (hcheck : session.verdict (.run text) =
      .accepted (.ofProgram session.limits.calls program) resolution) :
    ∃ acceptance, session.accept? (.run text) = some acceptance ∧
      acceptance.program = program ∧ acceptance.session.report.entries = [] ∧
      acceptance.session.report.unit = session.report.unit + 1 ∧
      acceptance.session.flags = session.flags ∧ acceptance.session.limits = session.limits ∧
      acceptance.machine = { session.machine with
        resolution := session.machine.resolution.merge resolution
        output := session.machine.output ++ session.dumps (.run text) } := by
  obtain ⟨checked, hnoted, haccept, -⟩ := session.checked hready (.run text)
  rw [hrun, hcheck] at haccept
  rw [hcheck] at hnoted
  refine ⟨_, haccept, rfl, ?_, hnoted.unit, hnoted.flags, hnoted.limits, ?_⟩
  · exact hnoted.entries
  · have hmachine : checked.machine = session.machine.write _ := hnoted.machine
    simp only [Acceptance.machine, hmachine]
    rfl

/-! ## Twins in one session -/

section

variable {past : Past} {session : Session} {text text' : String} {program program' : List Stmt}

/-- Earlier units see the same links, whichever of two programs comes after them. -/
theorem Session.Sound.fixes (h : session.Sound past) {resolution resolution' : Resolution}
    (hlinks : ∀ link ∈ resolution.links, link.token.unit = session.report.unit + 1)
    (hlinks' : ∀ link ∈ resolution'.links, link.token.unit = session.report.unit + 1)
    {reference : Reference} (hknown : past.known reference) :
    (session.machine.resolution.merge resolution').hops? reference.token =
      (session.machine.resolution.merge resolution).hops? reference.token := by
  have hunit := h.known reference hknown
  have hold {newer : Resolution}
      (hnewer : ∀ link ∈ newer.links, link.token.unit = session.report.unit + 1) :
      (session.machine.resolution.merge newer).hops? reference.token =
        session.machine.resolution.hops? reference.token :=
    Resolution.hops?_merge_old
      (fun link hlink => (hnewer link hlink).symm ▸ Nat.lt_succ_self _) hunit
  rw [hold hlinks', hold hlinks]

theorem Session.Sound.prints_iff (h : session.Sound past) (hrooted : session.machine.scopes.Rooted)
    (hscan : (scan (session.report.unit + 1) text.toList).complaints = #[])
    (hparse : parseProgram (scan (session.report.unit + 1) text.toList).tokens.toList
      (scan (session.report.unit + 1) text.toList).stop session.limits.nesting = ⟨program, #[]⟩)
    (hscan' : (scan (session.report.unit + 1) text'.toList).complaints = #[])
    (hparse' : parseProgram (scan (session.report.unit + 1) text'.toList).tokens.toList
      (scan (session.report.unit + 1) text'.toList).stop session.limits.nesting = ⟨program', #[]⟩)
    (allows : Renaming → Prop) (hsame : allows .same)
    (hclear : Clear allows (programEvents program))
    (htwins : ∀ links, Linked links (programEvents program) →
      stmtTwins (Matching.byName allows links fun _ => True) [] program program')
    (ending : Ending) (printed : String) (seen : Seen) :
    session.Prints (.run text) ending printed seen ↔
      session.Prints (.run text') ending printed seen := by
  have hread := readIn_of_parse hparse
  have hread' := readIn_of_parse hparse'
  have hentries : (resolveProgram program').entries = (resolveProgram program).entries :=
    EventTwins.entries (stmtTwins_together (Matching.named_byName allows _ _) hsame [] .top .top
      program .top (htwins _ hread.linked) hread.linked hclear).events hread.branched
      hread'.branched
  have hcheck : session.verdict (.run text) = _ := Request.check_run hscan hparse
  have hcheck' : session.verdict (.run text') = _ := Request.check_run hscan' hparse'
  by_cases hquiet : (resolveProgram program).complaints = #[]
  · have hquiet' : (resolveProgram program').complaints = #[] := by
      rw [← Resolved.entries_eq_nil, hentries, Resolved.entries_eq_nil, hquiet]
    rw [if_pos hquiet] at hcheck
    rw [if_pos hquiet'] at hcheck'
    cases hdry : session.flags.dryRun with
    | true =>
      have hidle (text : String) : session.accept? (.run text) = none := by
        obtain ⟨checked, -, haccept, -⟩ := session.checked h.stage (.run text)
        rw [haccept, hdry, if_pos rfl]
      rw [Session.prints_iff_of_none h.stage (hidle text),
        Session.prints_iff_of_none h.stage (hidle text'), hcheck, hcheck']
      rfl
    | false =>
      obtain ⟨acceptance, haccept, rfl, hnone, -, -, hlimits, hmachine⟩ :=
        Session.accept?_run h.stage hdry hcheck
      obtain ⟨acceptance', haccept', rfl, hnone', -, -, hlimits', hmachine'⟩ :=
        Session.accept?_run h.stage hdry hcheck'
      have hlinked := hread.linked_merge h.links
      have hlinked' := hread'.linked_merge h.links
      have hmeet := (stmtTwins_together (Matching.named_byName allows _ _) hsame [] .top .top
        acceptance.program .top (htwins _ hlinked) hlinked hclear).meet _ hlinked'
      let T := Twinning.byName allows acceptance.machine.resolution acceptance'.machine.resolution
        (fun _ => True) acceptance.machine.output acceptance'.machine.output
      have htwin : Machine.Twin T (fun _ => .same) acceptance.machine acceptance'.machine := by
        have hself : Machine.Twin T (fun _ => .same) _ _ := h.machine.twin hrooted hsame
          fun reference hknown => Matching.fixes_byName trivial (by
            rw [hmachine, hmachine']
            exact h.fixes hread.links hread'.links hknown)
        rw [hmachine, hmachine']
        simpa only [T, Twinning.byName, hmachine, hmachine'] using hself
      refine Session.prints_iff_of_twin haccept haccept' (by rw [hnone, hnone'])
        (hlimits'.trans hlimits.symm) htwin ?_ ?_ ?_ ?_ ending printed seen
      · rw [hmachine]
        exact h.current
      · simpa only [T, Twinning.byName, hmachine, hmachine'] using hmeet
      · simp only [T, Twinning.byName, hmachine]
      · simp only [T, Twinning.byName, hmachine']
  · have hquiet' : (resolveProgram program').complaints ≠ #[] := by
      rwa [ne_eq, ← Resolved.entries_eq_nil, hentries, Resolved.entries_eq_nil]
    rw [if_neg hquiet] at hcheck
    rw [if_neg hquiet'] at hcheck'
    have hidle {text : String} {draft : Draft} {entries : List Entry}
        (hcheck : session.verdict (.run text) = .rejected draft entries) :
        session.accept? (.run text) = none := by
      obtain ⟨checked, -, haccept, -⟩ := session.checked h.stage (.run text)
      rw [haccept, hcheck]
      split <;> rfl
    rw [Session.prints_iff_of_none h.stage (hidle hcheck),
      Session.prints_iff_of_none h.stage (hidle hcheck'), hcheck, hcheck']
    simp only [Verdict.ending, Verdict.entries, hentries]

end

/-! ## Programs that differ in groupings and places -/

/-- Where every scope keeps its names a name leads as far. -/
theorem FramesTwin.find?_same {ρs : List Renaming} {frames others : List Frame}
    (h : FramesTwin (· = .same) ρs frames others) (name : String) :
    others.findIdx? (·.names.binds name) = frames.findIdx? (·.names.binds name) ∧
      ∀ hops, Renaming.along ρs hops = .same := by
  induction h with
  | nil => exact ⟨rfl, fun hops => rfl⟩
  | cons hρ hnames _ ih =>
    subst hρ
    rw [Bindings.rename_same] at hnames
    refine ⟨by rw [List.findIdx?_cons, List.findIdx?_cons, hnames, ih.1], fun hops => ?_⟩
    cases hops with
    | zero => rfl
    | succ hops => exact ih.2 hops

theorem clear_same (events : List Event) : Clear (· = .same) events := by
  intro event _ reference _ ρs other hplace
  obtain ⟨hfind, hsame⟩ := hplace.frames.find?_same reference.name
  have hthrough : Renaming.through ρs (reference.place.find? reference.name) = .same := by
    cases reference.place.find? reference.name with
    | none => rfl
    | some hops => exact hsame hops
  rw [hthrough, Renaming.same_apply]
  exact hfind

theorem Matching.blind_flip_byName (allows : Renaming → Prop) (links : Resolution)
    (among : Token → Prop) : (Matching.byName allows links among).flip.Blind := fun _ hpair => hpair

theorem stmtTwins_of_bareAll {program program' : List Stmt}
    (h : bareAll program' = bareAll program) (links : Resolution) (among : Token → Prop)
    (hamong : ∀ event ∈ programEvents program, ∀ reference, event.reference? = some reference →
      among reference.token) :
    stmtTwins (Matching.byName (· = .same) links among) [] program program' := by
  refine stmtTwins_respell (Matching.blind_flip_byName _ _ _) [] program ?_ h.symm
  refine stmtTwins_refl rfl 0 .top program fun event hevent reference href depth name => ?_
  exact ⟨hamong event hevent reference href, by rw [Renaming.through_none, Renaming.same_apply]⟩

end Moth
