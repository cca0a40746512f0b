import Moth.Proofs.Execution.Visits
/-!
# Fuel

A run that ends goes the same way with more fuel.  A task ends with an outcome if it does so
with some fuel.
-/

namespace Moth

/-- Answers agree with others wherever those have not run out of fuel. -/
def Eval.Extend (answer more : (task : Task) → Run task.Result) : Prop :=
  ∀ task machine, answer task machine ≠ .outOfFuel → more task machine = answer task machine

theorem Run.bind_agrees {α β : Type} {first more : Run α} {next nextMore : α → Run β}
    {machine : Machine} (h : (first >>= next) machine ≠ .outOfFuel)
    (hfirst : first machine ≠ .outOfFuel → more machine = first machine)
    (hnext : ∀ value after, next value after ≠ .outOfFuel →
      nextMore value after = next value after) :
    (more >>= nextMore) machine = (first >>= next) machine := by
  change Run.bind first next machine ≠ .outOfFuel at h
  show Run.bind more nextMore machine = Run.bind first next machine
  unfold Run.bind at h ⊢
  cases hrun : first machine with
  | done value after =>
    rw [hrun] at h hfirst
    rw [hfirst (by simp)]
    exact hnext value after h
  | failed failure after | stuck after =>
    rw [hrun] at hfirst
    rw [hfirst (by simp)]
  | outOfFuel =>
    rw [hrun] at h
    exact absurd rfl h

theorem Run.within_agrees {α : Type} {first more : Run α}
    (hfirst : ∀ machine, first machine ≠ .outOfFuel → more machine = first machine) (scope : Nat)
    (machine : Machine) (h : Run.within scope first machine ≠ .outOfFuel) :
    Run.within scope more machine = Run.within scope first machine := by
  rw [Run.within_eq] at h ⊢
  rw [Run.within_eq, hfirst]
  intro houtOfFuel
  rw [houtOfFuel] at h
  exact h rfl

namespace Eval

theorem Script.exec_agrees {α : Type} {answer more : (task : Task) → Run task.Result}
    (hmore : Extend answer more) {script : Script α} {machine : Machine}
    (h : script.exec answer machine ≠ .outOfFuel) :
    script.exec more machine = script.exec answer machine := by
  induction script generalizing machine with
  | done value => rfl
  | act step next ih => exact Run.bind_agrees h (fun _ => rfl) fun value after => ih value
  | ask task next ih => exact Run.bind_agrees h (hmore task machine) fun value after => ih value
  | within scope task next ih =>
    exact Run.bind_agrees h (Run.within_agrees (hmore task) scope machine) fun value after =>
      ih value

/-- With more fuel a task that ends does so in the same way. -/
theorem Task.run_more : ∀ (fuel more : Nat), Extend (Task.run fuel) (Task.run (fuel + more))
  | 0, more, task, machine, h => by
    cases task with
    | assign | property | classDef => rfl
    | _ => exact absurd rfl h
  | fuel + 1, more, task, machine, h => by
    rw [Nat.add_right_comm, Task.run_succ, Task.run_succ]
    rw [Task.run_succ] at h
    exact Script.exec_agrees (run_more fuel more) h

theorem Task.run_le {fuel more : Nat} (hle : fuel ≤ more) :
    Extend (Task.run fuel) (Task.run more) := by
  obtain ⟨extra, rfl⟩ := Nat.exists_eq_add_of_le hle
  exact Task.run_more fuel extra

theorem executeUnit_le {fuel more room : Nat} (hle : fuel ≤ more) {program : List Stmt}
    {machine : Machine} (h : executeUnit fuel room program machine ≠ .outOfFuel) :
    executeUnit more room program machine = executeUnit fuel room program machine := by
  induction program generalizing machine with
  | nil => rfl
  | cons stmt rest ih =>
    exact Run.bind_agrees h (Task.run_le hle (.stmt room stmt) machine) fun _ _ => ih

/-- A program and one behind it are run in turn. -/
theorem executeUnit_append (fuel room : Nat) (program more : List Stmt) :
    executeUnit fuel room (program ++ more) =
      Run.bind (executeUnit fuel room program) fun _ => executeUnit fuel room more := by
  induction program with
  | nil => rfl
  | cons stmt rest ih =>
    funext machine
    show Run.bind (execute fuel room stmt) (fun _ => executeUnit fuel room (rest ++ more)) machine =
      Run.bind (Run.bind (execute fuel room stmt) fun _ => executeUnit fuel room rest)
        (fun _ => executeUnit fuel room more) machine
    rw [ih]
    unfold Run.bind
    cases execute fuel room stmt machine <;> rfl

end Eval

end Moth
