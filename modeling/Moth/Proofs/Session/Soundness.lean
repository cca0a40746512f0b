import Moth.Proofs.Session.History
/-!
# Sessions never get stuck

Turn after turn the machine of a session stays sound, and so every reference of every program
that was accepted leads to the scope that the resolver found for it, at every step of every
turn.
-/

namespace Moth

open Eval

/-! ## One unit -/

/-- At the top of a program declarations change nothing. -/
theorem Place.top_after (stmt : Stmt) : Place.top.after stmt = .top := by
  unfold Place.after
  split <;> rfl

theorem mem_programEvents {program : List Stmt} {stmt : Stmt} (h : stmt ∈ program) {event : Event}
    (hevent : event ∈ stmt.events .top) : event ∈ programEvents program := by
  induction program with
  | nil => cases h
  | cons first rest ih =>
    rw [programEvents, eventsAll, Place.top_after, List.mem_append]
    rcases List.mem_cons.1 h with rfl | hrest
    · exact .inl hevent
    · exact .inr (ih hrest)

/-- The tasks of a unit are ready in the global scope. -/
theorem Session.Accepts.ready {session : Session} {request : Request} {acceptance : Acceptance}
    (h : session.Accepts request acceptance) {past : Past}
    (hknows : ∀ event ∈ programEvents acceptance.program, past.Knows event) {machine : Machine}
    (hcurrent : machine.current = Machine.globals) :
    ∀ task ∈ acceptance.tasks, task.Ready past machine := by
  have hchain : Chain past machine.scopes machine.current [] := hcurrent ▸ .globals
  cases h with
  | run _ _ _ =>
    intro task htask
    obtain ⟨stmt, hstmt, rfl⟩ := List.mem_map.1 htask
    exact ⟨.top, hchain, fun event hevent => hknows event (mem_programEvents hstmt hevent)⟩
  | @evaluate _ _ _ _ _ expr _ _ _ =>
    intro task htask
    obtain rfl := List.mem_singleton.1 htask
    exact ⟨.top, hchain, fun event hevent =>
      hknows event (mem_programEvents (List.mem_singleton_self (Stmt.expression expr)) hevent)⟩

/-- Tasks that are ready in the global scope, run one after the other. -/
theorem Eval.runAll_keeps {past : Past} (fuel : Nat) {tasks : List Task} {machine : Machine}
    (h : machine.Sound past) (hcurrent : machine.current = Machine.globals)
    (hready : ∀ there : Machine, there.current = Machine.globals →
      ∀ task ∈ tasks, task.Ready past there)
    (hsees : ∀ other there, VisitsAll fuel tasks machine other there → past.Sees other there) :
    Ended past machine (fun _ _ => True) (runAll fuel tasks machine) ∧
      ∀ other there, VisitsAll fuel tasks machine other there →
        there.Sound past ∧ other.Ready past there := by
  induction tasks generalizing machine with
  | nil => exact ⟨⟨h.stay, rfl, trivial⟩, fun other there hvisit => by cases hvisit⟩
  | cons task rest ih =>
    obtain ⟨hended, hvisited⟩ := run_keeps fuel h (hready machine hcurrent task List.mem_cons_self)
      fun other there hvisit => hsees other there (.first hvisit)
    have hlater {value : task.Result} {after : Machine}
        (hdone : task.run fuel machine = .done value after) :=
      ih (hdone ▸ hended).1.sound ((hdone ▸ hended).2.1.trans hcurrent)
        (fun there hthere other hother => hready there hthere other (List.mem_cons_of_mem _ hother))
        fun other there hvisit => hsees other there (.later hdone hvisit)
    constructor
    · show Ended past machine _ (Run.bind (task.run fuel) (fun _ => runAll fuel rest) machine)
      unfold Run.bind
      cases hrun : task.run fuel machine with
      | done value after =>
        rw [hrun] at hended
        exact ((hlater hrun).1.after hended.1 hended.2.1).imp fun _ _ _ => trivial
      | failed | stuck | outOfFuel =>
        rw [hrun] at hended
        exact hended
    · intro other there hvisit
      cases hvisit with
      | first hvisit => exact hvisited other there hvisit
      | later hdone hvisit => exact (hlater hdone).2 other there hvisit

/-! ## One turn -/

namespace Session

structure Sound (past : Past) (session : Session) : Prop where
  machine : session.machine.Sound past
  current : session.machine.current = Machine.globals
  stage : session.stage = .ready
  known : ∀ reference, past.known reference → reference.token.unit ≤ session.report.unit
  links : ∀ link ∈ session.machine.resolution.links, link.token.unit ≤ session.report.unit
  distinct : (session.machine.resolution.links.map (·.token.spot)).Nodup

variable {turns : List Turn} {session : Session} {request : Request} {fuel : Nat}

theorem past_before (turn : Turn) (turns : List Turn) :
    (pastOf turns).Before (pastOf (turn :: turns)) :=
  ⟨fun _ _ ⟨turn, hturn, h⟩ => ⟨turn, List.mem_cons_of_mem _ hturn, h⟩,
    fun _ ⟨turn, hturn, h⟩ => ⟨turn, List.mem_cons_of_mem _ hturn, h⟩⟩

theorem mentions_or {reference : Reference} {turn : Turn}
    (h : (pastOf (turn :: turns)).known reference) :
    turn.Mentions reference ∨ (pastOf turns).known reference := by
  obtain ⟨other, hother, hmentions⟩ := h
  rcases List.mem_cons.1 hother with rfl | hother
  · exact .inl hmentions
  · exact .inr ⟨other, hother, hmentions⟩

/-- A turn that runs nothing leaves the session as it was. -/
theorem Sound.rejected (h : session.Sound (pastOf turns)) (hnone : session.accept? request = none)
    {checked : Session} {text : String} {entries : List Entry}
    (hnoted : session.begun.Noted checked text entries) :
    checked.closeUnit.Sound (pastOf (⟨session, request, fuel⟩ :: turns)) := by
  have hknown : ∀ reference, (pastOf (⟨session, request, fuel⟩ :: turns)).known reference →
      (pastOf turns).known reference := by
    intro reference href
    refine (mentions_or href).resolve_left ?_
    rintro ⟨acceptance, hsome, -⟩
    rw [hnone] at hsome
    cases hsome
  have hmachine : checked.machine = session.machine.write text := hnoted.machine
  have hlater : Machine.Sound (pastOf (⟨session, request, fuel⟩ :: turns)) session.machine :=
    h.machine.later (past_before _ _) fun reference href => h.machine.settled _ (hknown _ href)
  have hle : session.report.unit ≤ checked.report.unit := by
    rw [hnoted.unit]
    exact Nat.le_succ _
  refine ⟨?_, ?_, rfl, fun reference href => ?_, fun link hlink => ?_, ?_⟩
  · show checked.machine.Sound _
    rw [hmachine]
    exact hlater.withOutput _
  · show checked.machine.current = _
    rw [hmachine]
    exact h.current
  · exact Nat.le_trans (h.known reference (hknown reference href)) hle
  · rw [show checked.closeUnit.machine = _ from hmachine] at hlink
    exact Nat.le_trans (h.links link hlink) hle
  · rw [show checked.closeUnit.machine = _ from hmachine]
    exact h.distinct

/-- The links of an accepted unit are added to the earlier ones, and none of them is at the token
of another. -/
theorem Sound.merged (h : session.Sound (pastOf turns)) {acceptance : Acceptance}
    (hsome : session.accept? request = some acceptance) :
    acceptance.machine.resolution.links =
        acceptance.resolution.links ++ session.machine.resolution.links ∧
      (acceptance.machine.resolution.links.map (·.token.spot)).Nodup := by
  obtain ⟨hnoted, haccepted⟩ := Session.accepted h.stage hsome
  have hlinks : acceptance.machine.resolution.links =
      acceptance.resolution.links ++ session.machine.resolution.links := by
    rw [Acceptance.machine, hnoted.machine]
    rfl
  refine ⟨hlinks, ?_⟩
  rw [hlinks, List.map_append]
  refine List.nodup_append.2 ⟨haccepted.distinct, h.distinct, List.forall_mem_map.2
    fun link hlink => List.forall_mem_map.2 fun other hother hspot => ?_⟩
  have hunit : link.token.unit = other.token.unit := (Prod.mk.inj hspot).1
  have hle := h.links other hother
  rw [← hunit, haccepted.links link hlink] at hle
  omega

/-- The machine that an accepted unit is run from. -/
theorem Sound.accepted (fuel : Nat) (h : session.Sound (pastOf turns)) {acceptance : Acceptance}
    (hsome : session.accept? request = some acceptance) :
    acceptance.machine.Sound (pastOf (⟨session, request, fuel⟩ :: turns)) ∧
      acceptance.machine.current = Machine.globals ∧
      (∀ event ∈ programEvents acceptance.program,
        (pastOf (⟨session, request, fuel⟩ :: turns)).Knows event) := by
  obtain ⟨hnoted, haccepted⟩ := Session.accepted h.stage hsome
  have hmachine : acceptance.session.machine = session.machine.write _ := hnoted.machine
  have hsettled : ∀ reference, (pastOf (⟨session, request, fuel⟩ :: turns)).known reference →
      reference.Settled ∧ (session.machine.resolution.merge acceptance.resolution).hops?
        reference.token = reference.hops? := by
    intro reference href
    rw [Resolution.hops?_merge]
    rcases mentions_or href with ⟨other, hother, event, hevent, hreference⟩ | hold
    · -- a reference of this unit; no earlier unit has a link at its token
      rw [hsome] at hother
      cases hother
      have hevents := haccepted.settled event hevent
      refine ⟨hevents.settled reference hreference, ?_⟩
      have hnone : session.machine.resolution.hops? reference.token = none := by
        refine Resolution.hops?_eq_none_of_unit fun link hlink heq => ?_
        have hlink := h.links link hlink
        rw [heq, haccepted.references event hevent reference hreference] at hlink
        omega
      rw [hevents.hops reference hreference, hnone, Option.or_none]
    · -- a reference of an earlier unit; this unit has no link at its token
      obtain ⟨hreference, hhops⟩ := h.machine.settled reference hold
      refine ⟨hreference, ?_⟩
      have hnone : acceptance.resolution.hops? reference.token = none := by
        refine Resolution.hops?_eq_none_of_unit fun link hlink heq => ?_
        have hold := h.known reference hold
        rw [← heq, haccepted.links link hlink] at hold
        omega
      rw [hnone, hhops, Option.none_or]
  refine ⟨?_, ?_, fun event hevent => ⟨(haccepted.settled event hevent).formed, ?_⟩⟩
  · have hlater : Machine.Sound (pastOf (⟨session, request, fuel⟩ :: turns))
        { session.machine with
          resolution := session.machine.resolution.merge acceptance.resolution } :=
      h.machine.later (past_before _ _) hsettled
    rw [Acceptance.machine, hmachine]
    exact hlater.withOutput _
  · rw [Acceptance.machine, hmachine]
    exact h.current
  · exact fun reference href => ⟨_, List.mem_cons_self, acceptance, hsome, event, hevent, href⟩

theorem Sound.runs (fuel : Nat) (h : session.Sound (pastOf turns)) {acceptance : Acceptance}
    (hsome : session.accept? request = some acceptance) :
    Ended (pastOf (⟨session, request, fuel⟩ :: turns)) acceptance.machine (fun _ _ => True)
        (runAll fuel acceptance.tasks acceptance.machine) ∧
      ∀ task there, VisitsAll fuel acceptance.tasks acceptance.machine task there →
        there.Sound (pastOf (⟨session, request, fuel⟩ :: turns)) ∧
          task.Ready (pastOf (⟨session, request, fuel⟩ :: turns)) there := by
  obtain ⟨hmachine, hcurrent, hknows⟩ := h.accepted fuel hsome
  refine runAll_keeps fuel hmachine hcurrent ?_ ?_
  · exact fun there hthere => (accepts_of_accept? hsome).ready hknows hthere
  · exact fun task there hvisit site scope hopens =>
      ⟨_, List.mem_cons_self, task, there, ⟨acceptance, hsome, hvisit⟩, hopens⟩

/-- All that a turn visits is ready. -/
theorem Sound.visited (h : session.Sound (pastOf turns)) {task : Task} {there : Machine}
    (hvisit : Turn.Visits ⟨session, request, fuel⟩ task there) :
    there.Sound (pastOf (⟨session, request, fuel⟩ :: turns)) ∧
      task.Ready (pastOf (⟨session, request, fuel⟩ :: turns)) there := by
  obtain ⟨acceptance, hsome, hvisit⟩ := hvisit
  exact (h.runs fuel hsome).2 task there hvisit

/-- A session after an accepted unit. -/
theorem Sound.concluded (h : session.Sound (pastOf turns)) {acceptance : Acceptance}
    (hsome : session.accept? request = some acceptance) {after : Session}
    (hmachine : acceptance.machine.Onward
      (pastOf (⟨session, request, fuel⟩ :: turns)) after.machine)
    (hcurrent : after.machine.current = Machine.globals)
    (hunit : after.report.unit = acceptance.session.report.unit) :
    after.closeUnit.Sound (pastOf (⟨session, request, fuel⟩ :: turns)) := by
  obtain ⟨hnoted, haccepted⟩ := Session.accepted h.stage hsome
  have hafter : after.report.unit = session.report.unit + 1 := hunit.trans hnoted.unit
  obtain ⟨hlinks, hdistinct⟩ := h.merged hsome
  rw [← hmachine.grows.resolution] at hlinks hdistinct
  refine ⟨hmachine.sound, hcurrent, rfl, fun reference href => ?_, fun link hlink => ?_, hdistinct⟩
  · show reference.token.unit ≤ after.report.unit
    rw [hafter]
    rcases mentions_or href with ⟨other, hother, event, hevent, hreference⟩ | hold
    · rw [hsome] at hother
      cases hother
      exact Nat.le_of_eq (haccepted.references event hevent reference hreference)
    · exact Nat.le_succ_of_le (h.known reference hold)
  · show link.token.unit ≤ after.report.unit
    rw [hafter]
    rcases List.mem_append.1 (hlinks ▸ hlink) with hnew | hold
    · exact Nat.le_of_eq (haccepted.links link hnew)
    · exact Nat.le_succ_of_le (h.links link hold)

theorem Sound.take (h : session.Sound (pastOf turns)) :
    (∀ trouble, session.take fuel request = .error trouble → trouble = .outOfFuel) ∧
      ∀ ending after, session.take fuel request = .ok (ending, after) →
        after.Sound (pastOf (⟨session, request, fuel⟩ :: turns)) := by
  cases hsome : session.accept? request with
  | none =>
    obtain ⟨checked, hnoted, htake⟩ := take_of_none h.stage hsome fuel
    rw [htake]
    refine ⟨fun trouble htrouble => (by cases htrouble), fun _ _ hafter => ?_⟩
    cases hafter
    exact h.rejected hsome hnoted
  | some acceptance =>
    rw [take_of_some hsome]
    have hglobals := (h.accepted fuel hsome).2.1
    have hended := (h.runs fuel hsome).1
    cases hrun : runAll fuel acceptance.tasks acceptance.machine with
    | done value machine =>
      rw [hrun] at hended
      obtain ⟨honward, hcurrent, -⟩ := hended
      refine ⟨fun trouble htrouble => (by cases htrouble), fun _ _ hafter => ?_⟩
      cases hafter
      exact h.concluded hsome honward (hcurrent.trans hglobals) rfl
    | failed failure machine =>
      rw [hrun] at hended
      obtain ⟨honward, -⟩ := hended
      refine ⟨fun trouble htrouble => (by cases htrouble), fun _ _ hafter => ?_⟩
      cases hafter
      exact h.concluded hsome (honward.trans (honward.sound.aside rfl rfl rfl rfl rfl)) rfl rfl
    | stuck machine =>
      rw [hrun] at hended
      exact absurd hended id
    | outOfFuel =>
      refine ⟨fun trouble htrouble => ?_, fun _ _ hafter => (by cases hafter)⟩
      cases htrouble
      rfl

end Session

/-! ## Whole sessions -/

theorem Machine.valid_initialScopes (machine : Machine) {scope : Nat} {name : String}
    {value : Value} (h : (initialScopes.bindings scope).find? name = some value) :
    value.Valid machine := by
  -- every binding is that of a native function
  have hfold : ∀ (fs : List Native) (scopes : Forest Value),
      ((fs.foldl (fun scopes f => scopes.define globals f.name (.native f)) scopes).bindings
        scope).find? name = some value →
      value.Valid machine ∨ (scopes.bindings scope).find? name = some value := by
    intro fs
    induction fs with
    | nil => exact fun scopes h => .inr h
    | cons f fs ih =>
      intro scopes h
      rcases ih _ h with hvalid | hfind
      · exact .inl hvalid
      · rcases Forest.find?_define_cases hfind with rfl | hfind
        · exact .inl trivial
        · exact .inr hfind
  refine (hfold Native.all .single h).resolve_right ?_
  cases scope <;> simp [Forest.single, Forest.bindings]

theorem Session.sound_start (flags : Flags) (verbose : Bool) (world : World) (input : String)
    (limits : Limits) : (Session.start flags verbose world input limits).Sound (pastOf []) where
  machine := {
    links := Machine.descends_start world input.toList
    settled := fun _ ⟨_, hturn, _⟩ => by cases hturn
    values := fun _ _ _ hvalue => Machine.valid_initialScopes _ hvalue
    fields := fun id _ _ _ hentry => by simp [Session.start, Machine.start] at hentry
    functions := fun id _ hclosure => by simp [Session.start, Machine.start] at hclosure
    methods := fun id _ _ _ hentry => by simp [Session.start, Machine.start] at hentry }
  current := rfl
  stage := rfl
  known := fun _ ⟨_, hturn, _⟩ => by cases hturn
  links := fun _ hlink => by cases hlink
  distinct := .nil

/-- However a session has come about, it is sound. -/
theorem Reached.sound {turns : List Turn} {session : Session} (h : Reached turns session) :
    session.Sound (pastOf turns) := by
  induction h with
  | start flags verbose world input limits =>
    exact Session.sound_start flags verbose world input limits
  | take _ htake ih => exact ih.take.2 _ _ htake
  | setFlags flags _ ih => exact ⟨ih.machine, ih.current, ih.stage, ih.known, ih.links,
      ih.distinct⟩
  | complain _ ih => exact ⟨ih.machine, ih.current, ih.stage, ih.known, ih.links,
      ih.distinct⟩
  | takeText _ ih => exact ⟨ih.machine.withOutput "", ih.current, ih.stage, ih.known, ih.links,
      ih.distinct⟩

end Moth
