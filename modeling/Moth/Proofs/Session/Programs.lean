import Moth.Proofs.Session.Soundness
/-!
# Programs that turns have run

A program that a turn runs was parsed and resolved without complaint.  Its references stand
soundly, in scopes of which only the innermost may hold an unfinished declaration, and the
resolver is quiet about all its events.  Turn after turn, a session runs nothing but the
programs of its turns: it stays within every class of code that they are in.
-/

namespace Moth

/-- A program that may be run: its references stand soundly, and the resolver has no complaint
about it. -/
structure Vetted (program : List Stmt) : Prop where
  branched : BranchedAll program
  placed : ∀ event ∈ programEvents program, event.Placed
  quiet : Quiet (programEvents program)

theorem Request.vetted {limits : Limits} {unit : Nat} {request : Request} {draft : Draft}
    {resolution : Resolution} (h : request.check limits unit = .accepted draft resolution) :
    Vetted draft.program := by
  obtain ⟨-, hparse, hresolve⟩ := check_eq_accepted.1 h
  obtain ⟨hbranched, hmentions⟩ := told hparse
  refine ⟨hbranched, programEvents_placed hbranched hmentions.formed, ?_⟩
  rw [resolveProgram_eq hbranched] at hresolve
  simpa [Quiet, List.filterMap_eq_nil_iff] using congrArg Resolved.complaints hresolve

/-- What a turn runs was accepted when it was checked. -/
theorem Session.check_of_accept? {session : Session} {request : Request} {acceptance : Acceptance}
    (hready : session.stage = .ready) (h : session.accept? request = some acceptance) :
    ∃ draft resolution, session.verdict request = .accepted draft resolution ∧
      acceptance.program = draft.program := by
  obtain ⟨checked, -, haccept, -⟩ := session.checked hready request
  rw [haccept] at h
  split at h
  · cases h
  · obtain ⟨⟨draft, resolution⟩, hsome, rfl⟩ := Option.map_eq_some_iff.1 h
    exact ⟨draft, resolution, Verdict.eq_accepted hsome, rfl⟩

theorem Session.vetted {session : Session} {request : Request} {acceptance : Acceptance}
    (hready : session.stage = .ready) (h : session.accept? request = some acceptance) :
    Vetted acceptance.program := by
  obtain ⟨draft, resolution, hcheck, hprogram⟩ := Session.check_of_accept? hready h
  exact hprogram ▸ Request.vetted hcheck

/-- Every turn was taken by a session that was ready. -/
theorem Reached.turns_ready {turns : List Turn} {session : Session} (h : Reached turns session) :
    ∀ turn ∈ turns, turn.session.stage = .ready := by
  induction h with
  | start => simp
  | take hreached _ ih => exact List.forall_mem_cons.2 ⟨hreached.sound.stage, ih⟩
  | setFlags _ _ ih => exact ih
  | complain _ ih => exact ih
  | takeText _ ih => exact ih

/-- So is every turn up to the next one. -/
theorem Reached.ready_upTo {turns : List Turn} {session : Session} (h : Reached turns session)
    {request : Request} {fuel : Nat} :
    ∀ turn ∈ (⟨session, request, fuel⟩ :: turns : List Turn), turn.session.stage = .ready :=
  List.forall_mem_cons.2 ⟨h.sound.stage, h.turns_ready⟩

/-- A reference of a program that some turn runs stands soundly. -/
theorem Reached.placed {turns : List Turn} {session : Session} (h : Reached turns session)
    {request : Request} {fuel : Nat} {reference : Reference}
    (hknown : (pastOf (⟨session, request, fuel⟩ :: turns)).known reference) :
    reference.place.Sound := by
  obtain ⟨turn, hturn, acceptance, hsome, event, hevent, hreference⟩ := hknown
  exact (Session.vetted (h.ready_upTo turn hturn) hsome).placed event hevent reference hreference

/-! ## Classes of code -/

open Eval

variable {code : Code}

def Turn.Within (code : Code) (turn : Turn) : Prop :=
  ∀ acceptance, turn.session.accept? turn.request = some acceptance →
    ∀ stmt ∈ acceptance.program, code.stmt stmt

theorem Session.Accepts.within {session : Session} {request : Request} {acceptance : Acceptance}
    (h : session.Accepts request acceptance) (hcode : ∀ stmt ∈ acceptance.program, code.stmt stmt) :
    ∀ task ∈ acceptance.tasks, task.Within code := by
  cases h with
  | run _ _ _ =>
    intro task htask
    obtain ⟨stmt, hstmt, rfl⟩ := List.mem_map.1 htask
    exact hcode stmt hstmt
  | @evaluate _ _ _ _ _ expr _ _ _ =>
    intro task htask
    obtain rfl := List.mem_singleton.1 htask
    exact code.stmt_exprs (hcode _ List.mem_cons_self) expr List.mem_cons_self

/-- Tasks that are run one after the other keep to the class and to the current scope. -/
theorem Eval.runAll_within (fuel : Nat) {tasks : List Task} {machine : Machine}
    {links : Resolution} (h : machine.Within code links)
    (htasks : ∀ task ∈ tasks, task.Within code) :
    (runAll fuel tasks machine).Within code links machine.current ∧
      ∀ other there, VisitsAll fuel tasks machine other there →
        there.Within code links ∧ other.Within code := by
  induction tasks generalizing machine with
  | nil => exact ⟨⟨h, rfl⟩, fun other there hvisit => by cases hvisit⟩
  | cons task rest ih =>
    obtain ⟨htask, hrest⟩ := List.forall_mem_cons.1 htasks
    obtain ⟨hrun, hvisited⟩ := run_within h fuel htask
    constructor
    · show (Run.bind (task.run fuel) (fun _ => runAll fuel rest) machine).Within code links _
      unfold Run.bind
      cases hdone : task.run fuel machine with
      | done value after =>
        rw [hdone] at hrun
        exact hrun.2 ▸ (ih hrun.1 hrest).1
      | failed | stuck | outOfFuel =>
        rw [hdone] at hrun
        exact hrun
    · intro other there hvisit
      cases hvisit with
      | first hvisit => exact hvisited other there hvisit
      | later hdone hvisit =>
        rw [hdone] at hrun
        exact (ih hrun.1 hrest).2 other there hvisit

/-- A turn that begins within the class keeps to it. -/
theorem Session.runs_within {session : Session} {request : Request} {acceptance : Acceptance}
    (hready : session.stage = .ready) (hsome : session.accept? request = some acceptance)
    (h : session.machine.Within code session.machine.resolution)
    (hcode : ∀ stmt ∈ acceptance.program, code.stmt stmt) (fuel : Nat) :
    let links := acceptance.machine.resolution
    (runAll fuel acceptance.tasks acceptance.machine).Within code links
        acceptance.machine.current ∧
      ∀ task there, VisitsAll fuel acceptance.tasks acceptance.machine task there →
        there.Within code links ∧ task.Within code := by
  obtain ⟨hnoted, -⟩ := Session.accepted hready hsome
  have hmachine : acceptance.session.machine = session.machine.write _ := hnoted.machine
  have hbegin : acceptance.machine.Within code acceptance.machine.resolution := by
    rw [Acceptance.machine, hmachine]
    exact h.relink rfl rfl
  exact runAll_within fuel hbegin ((accepts_of_accept? hsome).within hcode)

/-- A session keeps no function but those of the programs that its turns have run. -/
theorem Reached.within {turns : List Turn} {session : Session} (h : Reached turns session)
    (hturns : ∀ turn ∈ turns, turn.Within code) :
    session.machine.Within code session.machine.resolution := by
  induction h with
  | start =>
    refine ⟨fun id _ hclosure => ?_, fun id _ _ _ hentry => ?_, rfl⟩
    · simp [Session.start, Machine.start] at hclosure
    · simp [Session.start, Machine.start] at hentry
  | @take turns session after request fuel ending hreached htake ih =>
    obtain ⟨hturn, hturns⟩ := List.forall_mem_cons.1 hturns
    have hready := hreached.sound.stage
    cases hsome : session.accept? request with
    | none =>
      obtain ⟨checked, hnoted, htake'⟩ := Session.take_of_none hready hsome fuel
      rw [htake'] at htake
      cases htake
      have hmachine : checked.machine = session.machine.write _ := hnoted.machine
      show checked.machine.Within code checked.machine.resolution
      rw [hmachine]
      exact (ih hturns).relink rfl rfl
    | some acceptance =>
      have hruns := (Session.runs_within hready hsome (ih hturns) (hturn acceptance hsome) fuel).1
      rw [Session.take_of_some hsome] at htake
      cases hrun : runAll fuel acceptance.tasks acceptance.machine with
      | done value machine =>
        rw [hrun] at htake hruns
        cases htake
        exact hruns.1.relink rfl rfl
      | failed failure machine =>
        rw [hrun] at htake hruns
        cases htake
        exact hruns.2.1.relink rfl rfl
      | stuck | outOfFuel =>
        rw [hrun] at htake
        cases htake
  | setFlags _ _ ih => exact ih hturns
  | complain _ ih => exact ih hturns
  | takeText _ ih => exact (ih hturns).relink rfl rfl

/-- All that a turn visits is a part of the programs up to it. -/
theorem Reached.visits_within {turns : List Turn} {session : Session} (h : Reached turns session)
    {request : Request} {fuel : Nat}
    (hturns : ∀ turn ∈ (⟨session, request, fuel⟩ :: turns : List Turn), turn.Within code)
    {task : Task} {there : Machine} (hvisit : Turn.Visits ⟨session, request, fuel⟩ task there) :
    ∃ acceptance, session.accept? request = some acceptance ∧
      there.Within code acceptance.machine.resolution ∧ task.Within code := by
  obtain ⟨hturn, hturns⟩ := List.forall_mem_cons.1 hturns
  obtain ⟨acceptance, hsome, hvisit⟩ := hvisit
  exact ⟨acceptance, hsome, (Session.runs_within h.sound.stage hsome (h.within hturns)
    (hturn acceptance hsome) fuel).2 task there hvisit⟩

end Moth
