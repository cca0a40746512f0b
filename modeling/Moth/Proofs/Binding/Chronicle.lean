import Moth.Proofs.Binding.Runs
import Moth.Proofs.Session.Soundness
/-!
# The visits of a session

All that the turns of a session visit, from the first turn to the latest, is one course.  So a
scope has one visit that opened it, and what that visit made is there wherever the scope is.
-/

namespace Moth

open Eval

def Happened (turns : List Turn) (task : Task) (there : Machine) : Prop :=
  ∃ turn ∈ turns, turn.Visits task there

theorem Happened.cons {turns : List Turn} {task : Task} {there : Machine}
    (h : Happened turns task there) (turn : Turn) : Happened (turn :: turns) task there := by
  obtain ⟨other, hother, hvisit⟩ := h
  exact ⟨other, List.mem_cons_of_mem _ hother, hvisit⟩

/-- All that the turns visit, in order; the latest turn stands first in the list of turns. -/
def history : List Turn → List (Task × Machine)
  | [] => []
  | turn :: turns => history turns ++ turn.visited

theorem mem_history {turns : List Turn} {task : Task} {there : Machine} :
    (task, there) ∈ history turns ↔ Happened turns task there := by
  induction turns with
  | nil => simp [history, Happened]
  | cons turn turns ih =>
    have hturn : (task, there) ∈ turn.visited ↔ turn.Visits task there :=
      ⟨Turn.visits_of_mem, Turn.mem_of_visits⟩
    rw [history, List.mem_append, ih, hturn]
    simp [Happened, or_comm]

/-! ## The names that tasks bind -/

theorem plain_of_paramEvents {past : Past} {params : List Token} {place : Place}
    (h : ∀ event ∈ paramEvents place params, past.Knows event) :
    ∀ param ∈ params, IsPlain param.lexeme := by
  induction params generalizing place with
  | nil => simp
  | cons param params ih =>
    obtain ⟨hparam, hparams⟩ := List.forall_mem_cons.1 h
    exact List.forall_mem_cons.2 ⟨hparam.1, ih hparams⟩

/-- A task that is ready binds plain names. -/
theorem Eval.Task.Ready.plain {past : Past} {machine : Machine} {task : Task}
    (h : task.Ready past machine) : ∀ name ∈ task.binds, IsPlain name.lexeme := by
  unfold Task.binds
  split
  · next room closure values =>
    obtain ⟨⟨name, params, body⟩, outer, isInitializer⟩ := closure
    obtain ⟨⟨⟨place, context, -, hevents⟩, -⟩, -⟩ := h
    exact plain_of_paramEvents (List.forall_mem_append.1 hevents).1
  · obtain ⟨place, -, hevents⟩ := h
    exact List.forall_mem_singleton.2 (List.forall_mem_cons.1 hevents).1.1
  · obtain ⟨place, -, hevents⟩ := h
    exact List.forall_mem_singleton.2 (List.forall_mem_cons.1 hevents).1.1
  · obtain ⟨-, place, -, hevents⟩ := h
    exact List.forall_mem_singleton.2 (List.forall_mem_singleton.1 hevents).1.1
  · exact List.forall_mem_singleton.2 h.1
  · simp

/-! ## One turn -/

section

variable {seen : Task → Machine → Prop}

/-- Tasks run one after the other are a tour as well. -/
theorem Eval.runAll_tour (fuel : Nat) {tasks : List Task} {machine : Machine}
    (hvisits : ∀ visit ∈ visitedAll fuel tasks machine, seen visit.1 visit.2 ∧
      ∀ name ∈ visit.1.binds, IsPlain name.lexeme)
    (htraced : machine.Traced seen) (hplain : machine.Plain machine.current)
    (hfits : ∀ task ∈ tasks, ∀ there, task.Fits seen there) :
    Tour seen machine machine (visitedAll fuel tasks machine) (runAll fuel tasks machine) := by
  induction tasks generalizing machine with
  | nil =>
    exact ⟨.nil fun last hlast => Option.mem_some.1 hlast ▸ .refl machine,
      fun last hlast => Option.mem_some.1 hlast ▸ rfl⟩
  | cons task rest ih =>
    obtain ⟨hfirst, hrest⟩ := List.forall_mem_cons.1 hfits
    obtain ⟨hvisitsFirst, hvisitsRest⟩ := List.forall_mem_append.1 hvisits
    obtain ⟨hcourse, hcurrent⟩ := Task.run_tour fuel hvisitsFirst htraced hplain (hfirst machine)
    show Tour seen machine machine _ (Run.bind (task.run fuel) (fun _ => runAll fuel rest) machine)
    unfold visitedAll Run.bind
    cases hrun : task.run fuel machine with
    | done value after =>
      rw [hrun] at hcourse hcurrent
      rw [hrun] at hvisitsRest
      have hproceeds := hcourse.through after rfl
      have hsame : after.current = machine.current := hcurrent after rfl
      have htour := ih hvisitsRest (hproceeds.traced htraced)
        (hsame ▸ hplain.evolve hproceeds.evolves) hrest
      exact ⟨hcourse.append htour.course,
        fun last hlast => (htour.current last hlast).trans hsame⟩
    | failed | stuck | outOfFuel =>
      rw [hrun] at hcourse hcurrent
      rw [List.append_nil]
      exact ⟨hcourse, hcurrent⟩

theorem Session.Accepts.fits {session : Session} {request : Request} {acceptance : Acceptance}
    (h : session.Accepts request acceptance) :
    ∀ task ∈ acceptance.tasks, ∀ there, task.Fits seen there := by
  cases h with
  | run _ _ _ =>
    intro task htask there
    obtain ⟨stmt, -, rfl⟩ := List.mem_map.1 htask
    trivial
  | evaluate _ _ _ =>
    intro task htask there
    obtain rfl := List.mem_singleton.1 htask
    trivial

variable {turns : List Turn} {session : Session} {request : Request} {fuel : Nat}

/-- A turn begins where the session is. -/
theorem Session.Sound.tour (h : session.Sound (pastOf turns)) {acceptance : Acceptance}
    (hsome : session.accept? request = some acceptance)
    (hseen : ∀ task there, Turn.Visits ⟨session, request, fuel⟩ task there → seen task there)
    (htraced : session.machine.Traced seen) (hplain : session.machine.Plain Machine.globals) :
    Course seen session.machine (Turn.visited ⟨session, request, fuel⟩)
      (runAll fuel acceptance.tasks acceptance.machine).machine? := by
  obtain ⟨hnoted, -⟩ := Session.accepted h.stage hsome
  have hmachine : acceptance.session.machine = session.machine.write _ := hnoted.machine
  have hbegin : session.machine.Proceeds seen acceptance.machine := by
    rw [Acceptance.machine, hmachine]
    exact .aside rfl rfl rfl rfl
  have hcurrent := (h.accepted fuel hsome).2.1
  have hvisited : Turn.visited ⟨session, request, fuel⟩ =
      visitedAll fuel acceptance.tasks acceptance.machine := by
    rw [Turn.visited, hsome]
  rw [hvisited]
  refine (runAll_tour fuel (fun visit hvisit => ?_) (hbegin.traced htraced)
    (hcurrent ▸ hplain.evolve hbegin.evolves) (accepts_of_accept? hsome).fits).course.before hbegin
  have hvisits : Turn.Visits ⟨session, request, fuel⟩ visit.1 visit.2 :=
    Turn.visits_of_mem (hvisited ▸ hvisit)
  exact ⟨hseen _ _ hvisits, (h.visited hvisits).2.plain⟩

/-- The visits of a turn, whether it comes to an end or not. -/
theorem Session.Sound.visited_course (h : session.Sound (pastOf turns))
    (hseen : ∀ task there, Turn.Visits ⟨session, request, fuel⟩ task there → seen task there)
    (htraced : session.machine.Traced seen) (hplain : session.machine.Plain Machine.globals) :
    ∃ stop, Course seen session.machine (Turn.visited ⟨session, request, fuel⟩) stop := by
  cases hsome : session.accept? request with
  | none =>
    rw [Turn.visited, hsome]
    exact ⟨none, .nil fun last hlast => absurd hlast (Option.not_mem_none last)⟩
  | some acceptance => exact ⟨_, h.tour hsome hseen htraced hplain⟩

/-- What a turn leaves of the machine that it has come to. -/
theorem Session.Sound.course (h : session.Sound (pastOf turns))
    (hseen : ∀ task there, Turn.Visits ⟨session, request, fuel⟩ task there → seen task there)
    (htraced : session.machine.Traced seen) (hplain : session.machine.Plain Machine.globals)
    {ending : Ending} {after : Session} (htake : session.take fuel request = .ok (ending, after)) :
    Course seen session.machine (Turn.visited ⟨session, request, fuel⟩) (some after.machine) := by
  cases hsome : session.accept? request with
  | none =>
    obtain ⟨checked, hnoted, htake'⟩ := take_of_none h.stage hsome fuel
    rw [htake'] at htake
    cases htake
    have hmachine : checked.closeUnit.machine = session.machine.write _ := hnoted.machine
    rw [Turn.visited, hsome, hmachine]
    exact .nil fun last hlast => Option.mem_some.1 hlast ▸ .aside rfl rfl rfl rfl
  | some acceptance =>
    have hcourse := h.tour hsome hseen htraced hplain
    rw [take_of_some hsome] at htake
    cases hrun : runAll fuel acceptance.tasks acceptance.machine with
    | done value machine =>
      rw [hrun] at htake hcourse
      cases htake
      exact hcourse
    | failed failure machine =>
      rw [hrun] at htake hcourse
      cases htake
      exact hcourse.after (.aside rfl rfl rfl rfl)
    | stuck machine =>
      rw [hrun] at htake
      cases htake
    | outOfFuel =>
      rw [hrun] at htake
      cases htake

end

/-! ## Whole sessions -/

theorem Machine.plain_initialScopes (world : World) (input : List Char) :
    (Machine.start world input).Plain Machine.globals := by
  refine ⟨?_, fun name hname => ?_⟩
  · exact (descends_start world input).globals
  · have hnames : ∀ f : Native, f.name ≠ name := by
      rintro f rfl
      exact hname (by cases f <;> exact ⟨by decide, by decide⟩)
    show (Machine.initialScopes.bindings Machine.globals).find? name = none
    simp only [initialScopes, Native.all, List.foldl_cons, List.foldl_nil]
    rw [Forest.find?_define_of_ne (hnames _), Forest.find?_define_of_ne (hnames _),
      Forest.find?_define_of_ne (hnames _), Forest.find?_define_of_ne (hnames _)]
    rfl

structure Chronicle (turns : List Turn) : Prop where
  course : ∃ start stop, start.Traced (Happened turns) ∧
    Course (Happened turns) start (history turns) stop
  sound : ∀ task there, Happened turns task there → ∃ before : List Turn,
    (∀ turn ∈ before, turn ∈ turns) ∧ there.Sound (pastOf before) ∧
      task.Ready (pastOf before) there

theorem Reached.course {turns : List Turn} {session : Session} (h : Reached turns session)
    {seen : Task → Machine → Prop}
    (hseen : ∀ task there, Happened turns task there → seen task there) :
    ∃ start : Machine, start.Traced seen ∧ start.Plain Machine.globals ∧
      Course seen start (history turns) (some session.machine) := by
  induction h with
  | start flags verbose world input =>
    refine ⟨_, ⟨fun id _ hentry => ?_, fun id _ hclosure => ?_⟩,
      Machine.plain_initialScopes world input.toList,
      .nil fun last hlast => Option.mem_some.1 hlast ▸ .refl _⟩
    · simp [Machine.start] at hentry
    · simp [Machine.start] at hclosure
  | @take turns session after request fuel ending hreached htake ih =>
    obtain ⟨start, htraced, hplain, hcourse⟩ := ih fun task there hearlier =>
      hseen task there (hearlier.cons _)
    have hproceeds := hcourse.through session.machine rfl
    refine ⟨start, htraced, hplain, hcourse.append (hreached.sound.course (fun task there hvisit =>
      hseen task there ⟨_, List.mem_cons_self, hvisit⟩) (hproceeds.traced htraced)
      (hplain.evolve hproceeds.evolves) htake)⟩
  | setFlags flags _ ih => exact ih hseen
  | complain _ ih => exact ih hseen
  | takeText _ ih =>
    obtain ⟨start, htraced, hplain, hcourse⟩ := ih hseen
    exact ⟨start, htraced, hplain, hcourse.after (.aside rfl rfl rfl rfl)⟩

theorem Reached.ready {turns : List Turn} {session : Session} (h : Reached turns session)
    {task : Task} {there : Machine} (hseen : Happened turns task there) : ∃ before : List Turn,
      (∀ turn ∈ before, turn ∈ turns) ∧ there.Sound (pastOf before) ∧
        task.Ready (pastOf before) there := by
  induction h with
  | start => simp [Happened] at hseen
  | @take turns session after request fuel ending hreached htake ih =>
    obtain ⟨turn, hturn, hvisit⟩ := hseen
    rcases List.mem_cons.1 hturn with rfl | hturn
    · exact ⟨_, fun _ hmem => hmem, hreached.sound.visited hvisit⟩
    · obtain ⟨before, hbefore, hready⟩ := ih ⟨turn, hturn, hvisit⟩
      exact ⟨before, fun turn hmem => List.mem_cons_of_mem _ (hbefore turn hmem), hready⟩
  | setFlags _ _ ih | complain _ ih | takeText _ ih => exact ih hseen

/-- All the visits up to and in the next turn, whether that turn comes to an end or not. -/
theorem Reached.chronicle {turns : List Turn} {session : Session} (h : Reached turns session)
    (request : Request) (fuel : Nat) : Chronicle (⟨session, request, fuel⟩ :: turns) where
  course := by
    obtain ⟨start, htraced, hplain, hcourse⟩ :=
      h.course fun task there hearlier => hearlier.cons ⟨session, request, fuel⟩
    have hproceeds := hcourse.through session.machine rfl
    obtain ⟨stop, hvisited⟩ := h.sound.visited_course (fun task there hvisit =>
      ⟨_, List.mem_cons_self, hvisit⟩) (hproceeds.traced htraced) (hplain.evolve hproceeds.evolves)
    exact ⟨start, stop, htraced, hcourse.append hvisited⟩
  sound task there hseen := by
    obtain ⟨turn, hturn, hvisit⟩ := hseen
    rcases List.mem_cons.1 hturn with rfl | hturn
    · exact ⟨_, fun _ hmem => hmem, h.sound.visited hvisit⟩
    · obtain ⟨before, hbefore, hready⟩ := h.ready ⟨turn, hturn, hvisit⟩
      exact ⟨before, fun turn hmem => List.mem_cons_of_mem _ (hbefore turn hmem), hready⟩

end Moth
