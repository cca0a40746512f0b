import Moth.Proofs.Binding.Openings
/-!
# What visited tasks leave behind

A task that some turn has visited may be run again from the same machine, with any fuel.  What
was there before is there afterwards, and so is what the task has made in its first steps.
-/

namespace Moth

open Eval

/-- A past in which every scope may have been opened for any site. -/
def Past.anywhere (past : Past) : Past := ⟨fun _ _ => True, past.known⟩

theorem Past.before_anywhere (past : Past) : past.Before past.anywhere :=
  ⟨fun _ _ _ => trivial, fun _ h => h⟩

theorem Eval.Stands.later {past later : Past} (hbefore : past.Before later) {machine : Machine}
    {events : Place → List Event} (h : Stands past machine events) :
    Stands later machine events := by
  obtain ⟨place, hchain, hevents⟩ := h
  exact ⟨place, hchain.later hbefore, fun event hevent => (hevents event hevent).later hbefore⟩

theorem Eval.Task.Ready.later {past later : Past} (hbefore : past.Before later) {machine : Machine}
    {task : Task} (h : task.Ready past machine) : task.Ready later machine := by
  cases task with
  | expr | args | stmt | stmts | loop => exact Stands.later hbefore h
  | call | property => exact h
  | invoke room closure values => exact ⟨h.1.later hbefore, h.2⟩
  | assign name value => exact ⟨h.1, h.2.later hbefore⟩
  | classDef name superclass methods =>
    obtain ⟨hplain, habove, inClass, token, htoken, hstands⟩ := h
    exact ⟨hplain, habove, inClass, token, htoken, hstands.later hbefore⟩

section

variable {seen more : Task → Machine → Prop}
  (himp : ∀ task there, seen task there → more task there)
  {machine : Machine}

include himp

theorem Closure.Traced.mono {closure : Closure} (h : closure.Traced seen machine) :
    closure.Traced more machine := by
  cases h with
  | plain hplain => exact .plain hplain
  | bound hseen hbinds hdeclaration hinit hlt =>
    exact .bound (himp _ _ hseen) hbinds hdeclaration hinit hlt

theorem Machine.Traced.mono (h : machine.Traced seen) : machine.Traced more where
  classes id entry hentry := by
    obtain ⟨name, superclass, methods, there, hseen, hrest⟩ := h.classes id entry hentry
    exact ⟨name, superclass, methods, there, himp _ _ hseen, hrest⟩
  functions id closure hclosure := (h.functions id closure hclosure).mono himp

theorem Eval.Task.Fits.mono {task : Task} (h : task.Fits seen machine) :
    task.Fits more machine := by
  cases task with
  | invoke room closure values => exact Closure.Traced.mono himp h
  | classDef name superclass methods =>
    obtain ⟨room, token, hseen, hlookUp⟩ := h
    exact ⟨room, token, himp _ _ hseen, hlookUp⟩
  | _ => trivial

end

/-- A visited task is not stuck, and all that it visits is ready, with any fuel. -/
theorem Chronicle.run_ready {turns : List Turn} (h : Chronicle turns) {task : Task}
    {there : Machine} (hseen : Happened turns task there) (fuel : Nat) :
    ∃ past, Ended past there (task.Gives past there) (task.run fuel there) ∧
      ∀ other inner, Visits fuel task there other inner → other.Ready past inner := by
  obtain ⟨before, -, hsound, hready⟩ := h.sound task there hseen
  have hbefore := (pastOf before).before_anywhere
  obtain ⟨hended, hvisited⟩ := run_keeps fuel (hsound.later hbefore hsound.settled)
    (hready.later hbefore) fun _ _ _ _ _ _ => trivial
  exact ⟨_, hended, fun other inner hvisit => (hvisited other inner hvisit).2⟩

/-- However far a visited task is run, what was there, and what its first steps made, stays. -/
theorem Chronicle.run_lasts {turns : List Turn} (h : Chronicle turns) {task : Task}
    {there : Machine} (hseen : Happened turns task there) {fuel : Nat} {last : Machine}
    (hlast : last ∈ (task.run fuel there).machine?) :
    there.Evolves last ∧ (task.stride there).Evolves last := by
  obtain ⟨past, -, hvisited⟩ := h.run_ready hseen fuel
  obtain ⟨start, stop, htraced, hcourse⟩ := h.course
  have hthere : there.Traced (Happened turns) :=
    (hcourse.since _ (mem_history.2 hseen)).traced htraced
  have hany : ∀ task there, Happened turns task there → True := fun _ _ _ => trivial
  have htour := Task.run_tour fuel
    (fun visit hvisit => ⟨trivial, (hvisited _ _ (visits_of_mem hvisit)).plain⟩)
    (hthere.mono hany) (h.plainScope hseen) ((h.fits hseen).mono hany)
  have hhere : (task, there) ∈ visited fuel task there := mem_of_visits .here
  exact ⟨(htour.course.through last hlast).evolves, htour.course.upTo last hlast _ hhere⟩

end Moth
