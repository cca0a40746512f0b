import Moth.Proofs.Scoping.Sound
import Moth.Proofs.Session.Requests
/-!
# Turns of a session

A session takes one request after the other.  The past of a session are the scopes that its
turns have opened and the references of the programs they have run.
-/

namespace Moth

open Eval

namespace Eval

inductive VisitsAll (fuel : Nat) : List Task → Machine → Task → Machine → Prop where
  | first {task other : Task} {rest : List Task} {machine there : Machine} :
      Visits fuel task machine other there → VisitsAll fuel (task :: rest) machine other there
  | later {task other : Task} {rest : List Task} {machine after there : Machine}
      {value : task.Result} : task.run fuel machine = .done value after →
      VisitsAll fuel rest after other there → VisitsAll fuel (task :: rest) machine other there

def visitedAll (fuel : Nat) : List Task → Machine → List (Task × Machine)
  | [], _ => []
  | task :: rest, machine =>
    visited fuel task machine ++
      match task.run fuel machine with
      | .done _ after => visitedAll fuel rest after
      | _ => []

theorem visitsAll_of_mem {fuel : Nat} {tasks : List Task} {machine there : Machine} {other : Task}
    (h : (other, there) ∈ visitedAll fuel tasks machine) :
    VisitsAll fuel tasks machine other there := by
  induction tasks generalizing machine with
  | nil => cases h
  | cons task rest ih =>
    rw [visitedAll, List.mem_append] at h
    rcases h with h | h
    · exact .first (visits_of_mem h)
    · split at h
      · next hdone => exact .later hdone (ih h)
      · cases h

theorem mem_of_visitsAll {fuel : Nat} {tasks : List Task} {machine there : Machine} {other : Task}
    (h : VisitsAll fuel tasks machine other there) :
    (other, there) ∈ visitedAll fuel tasks machine := by
  induction h with
  | first hvisit => exact List.mem_append_left _ (mem_of_visits hvisit)
  | later hdone _ ih =>
    rw [visitedAll, hdone]
    exact List.mem_append_right _ ih

end Eval

structure Turn where
  session : Session
  request : Request
  fuel : Nat

namespace Turn

/-- The turn comes to run a task from `there`. -/
def Visits (turn : Turn) (task : Task) (there : Machine) : Prop :=
  ∃ acceptance, turn.session.accept? turn.request = some acceptance ∧
    VisitsAll turn.fuel acceptance.tasks acceptance.machine task there

def visited (turn : Turn) : List (Task × Machine) :=
  match turn.session.accept? turn.request with
  | some acceptance => visitedAll turn.fuel acceptance.tasks acceptance.machine
  | none => []

theorem visits_of_mem {turn : Turn} {task : Task} {there : Machine}
    (h : (task, there) ∈ turn.visited) : turn.Visits task there := by
  unfold visited at h
  split at h
  · next acceptance hsome => exact ⟨acceptance, hsome, visitsAll_of_mem h⟩
  · cases h

theorem mem_of_visits {turn : Turn} {task : Task} {there : Machine} (h : turn.Visits task there) :
    (task, there) ∈ turn.visited := by
  obtain ⟨acceptance, hsome, hvisit⟩ := h
  rw [visited, hsome]
  exact mem_of_visitsAll hvisit

def Mentions (turn : Turn) (reference : Reference) : Prop :=
  ∃ acceptance, turn.session.accept? turn.request = some acceptance ∧
    ∃ event ∈ programEvents acceptance.program, event.reference? = some reference

end Turn

def pastOf (turns : List Turn) : Past where
  opened scope site := ∃ turn ∈ turns, ∃ task there,
    turn.Visits task there ∧ Opens task there site scope
  known reference := ∃ turn ∈ turns, turn.Mentions reference

/-- The sessions that there are after some turns, the latest of them first.  Between two turns
the flags may be set, the issues shown and the text taken away. -/
inductive Reached : List Turn → Session → Prop where
  | start (flags : Flags) (verbose : Bool) (world : World) (input : String) (limits : Limits) :
      Reached [] (.start flags verbose world input limits)
  | take {turns : List Turn} {session after : Session} {request : Request} {fuel : Nat}
      {ending : Ending} : Reached turns session →
      session.take fuel request = .ok (ending, after) →
      Reached (⟨session, request, fuel⟩ :: turns) after
  | setFlags {turns : List Turn} {session : Session} (flags : Flags) :
      Reached turns session → Reached turns { session with flags }
  | complain {turns : List Turn} {session : Session} :
      Reached turns session → Reached turns session.complain
  | takeText {turns : List Turn} {session : Session} :
      Reached turns session → Reached turns session.takeText.2.2

def Session.empty : Session := .start {} false (.seeded 0 0) ""

theorem Reached.empty : Reached [] .empty := .start _ _ _ _ _

/-- The session after a request; as it was, if the request does not end. -/
def Session.after (session : Session) (fuel : Nat) (request : Request) : Session :=
  match session.take fuel request with
  | .ok (_, after) => after
  | .error _ => session

theorem Reached.after {turns : List Turn} {session : Session} {fuel : Nat} {request : Request}
    (h : Reached turns session) (hok : (session.take fuel request).isOk = true) :
    Reached (⟨session, request, fuel⟩ :: turns) (session.after fuel request) := by
  obtain ⟨ending, after, htake⟩ := Session.take_of_isOk hok
  rw [Session.after, htake]
  exact .take h htake

end Moth
