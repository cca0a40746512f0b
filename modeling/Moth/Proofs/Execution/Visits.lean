import Moth.Proofs.Execution.Script
/-!
# What a run visits

A run visits a task on a machine if it comes to run that task from that machine.  What is
shown of the script of every task, relying on the tasks it asks for, holds of whole runs and
of all that they visit.
-/

namespace Moth

namespace Outcome

variable {α β : Type}

def backTo (scope : Nat) : Outcome α → Outcome α
  | done value machine => done value { machine with current := scope }
  | failed failure machine => failed failure { machine with current := scope }
  | stuck machine => stuck { machine with current := scope }
  | outOfFuel => outOfFuel

/-- An outcome after which it holds of what comes next that `Q` is met. -/
def Leads (Q : Outcome β → Prop) (next : α → Machine → Prop) : Outcome α → Prop
  | done value machine => next value machine
  | failed failure machine => Q (failed failure machine)
  | stuck machine => Q (stuck machine)
  | outOfFuel => Q outOfFuel

end Outcome

theorem Run.within_eq {α : Type} (scope : Nat) (body : Run α) (machine : Machine) :
    Run.within scope body machine =
      (body { machine with current := scope }).backTo machine.current := by
  unfold Run.within
  cases body { machine with current := scope } <;> rfl

namespace Eval

inductive Script.Reaches {α : Type} (answer : (task : Task) → Run task.Result) :
    Script α → Machine → Task → Machine → Prop where
  | act {β : Type} {step : Run β} {next : β → Script α} {value : β} {task : Task}
      {machine after there : Machine} :
      step machine = .done value after → Reaches answer (next value) after task there →
      Reaches answer (.act step next) machine task there
  | ask {task : Task} {next : task.Result → Script α} {machine : Machine} :
      Reaches answer (.ask task next) machine task machine
  | pastAsk {task other : Task} {next : task.Result → Script α} {value : task.Result}
      {machine after there : Machine} :
      answer task machine = .done value after →
      Reaches answer (next value) after other there →
      Reaches answer (.ask task next) machine other there
  | within {scope : Nat} {task : Task} {next : task.Result → Script α} {machine : Machine} :
      Reaches answer (.within scope task next) machine task { machine with current := scope }
  | pastWithin {scope : Nat} {task other : Task} {next : task.Result → Script α}
      {value : task.Result} {machine after there : Machine} :
      Run.within scope (answer task) machine = .done value after →
      Reaches answer (next value) after other there →
      Reaches answer (.within scope task next) machine other there

/-- A task run with fuel from a machine comes to run another from `there`. -/
inductive Visits : Nat → Task → Machine → Task → Machine → Prop where
  | here {fuel : Nat} {task : Task} {machine : Machine} : Visits fuel task machine task machine
  | deeper {fuel : Nat} {task between last : Task} {machine middle there : Machine} :
      task.script.Reaches (Task.run fuel) machine between middle →
      Visits fuel between middle last there → Visits (fuel + 1) task machine last there

/-- The tasks that a script comes to, in order, each with the machine it is run from. -/
def Script.reached {α : Type} (answer : (task : Task) → Run task.Result) :
    Script α → Machine → List (Task × Machine)
  | done _, _ => []
  | act step next, machine =>
    match step machine with
    | .done value after => (next value).reached answer after
    | _ => []
  | ask task next, machine =>
    (task, machine) ::
      match answer task machine with
      | .done value after => (next value).reached answer after
      | _ => []
  | within scope task next, machine =>
    (task, { machine with current := scope }) ::
      match Run.within scope (answer task) machine with
      | .done value after => (next value).reached answer after
      | _ => []

def visited : Nat → Task → Machine → List (Task × Machine)
  | 0, task, machine => [(task, machine)]
  | fuel + 1, task, machine =>
    (task, machine) ::
      (task.script.reached (Task.run fuel) machine).flatMap fun (task, there) =>
        visited fuel task there

theorem Script.reaches_of_mem {α : Type} {answer : (task : Task) → Run task.Result}
    {script : Script α} {machine there : Machine} {task : Task}
    (h : (task, there) ∈ script.reached answer machine) :
    script.Reaches answer machine task there := by
  induction script generalizing machine with
  | done value => cases h
  | act step next ih =>
    rw [reached] at h
    split at h
    · next hstep => exact .act hstep (ih _ h)
    · cases h
  | ask asked next ih =>
    rw [reached] at h
    rcases List.mem_cons.1 h with heq | h
    · cases heq
      exact .ask
    · split at h
      · next hdone => exact .pastAsk hdone (ih _ h)
      · cases h
  | within scope asked next ih =>
    rw [reached] at h
    rcases List.mem_cons.1 h with heq | h
    · cases heq
      exact .within
    · split at h
      · next hdone => exact .pastWithin hdone (ih _ h)
      · cases h

theorem visits_of_mem {fuel : Nat} {task other : Task} {machine there : Machine}
    (h : (other, there) ∈ visited fuel task machine) : Visits fuel task machine other there := by
  induction fuel generalizing task machine with
  | zero =>
    cases List.mem_singleton.1 h
    exact .here
  | succ fuel ih =>
    rcases List.mem_cons.1 h with heq | h
    · cases heq
      exact .here
    · obtain ⟨⟨between, middle⟩, hreached, hrest⟩ := List.mem_flatMap.1 h
      exact .deeper (Script.reaches_of_mem hreached) (ih hrest)

theorem Script.mem_of_reaches {α : Type} {answer : (task : Task) → Run task.Result}
    {script : Script α} {machine there : Machine} {task : Task}
    (h : script.Reaches answer machine task there) :
    (task, there) ∈ script.reached answer machine := by
  induction h with
  | act hstep _ ih => simpa only [reached, hstep] using ih
  | ask | within =>
    rw [reached]
    exact List.mem_cons_self
  | pastAsk hdone _ ih | pastWithin hdone _ ih =>
    rw [reached, hdone]
    exact List.mem_cons_of_mem _ ih

theorem mem_of_visits {fuel : Nat} {task other : Task} {machine there : Machine}
    (h : Visits fuel task machine other there) : (other, there) ∈ visited fuel task machine := by
  induction h with
  | @here fuel => cases fuel <;> exact List.mem_cons_self
  | deeper hreach _ ih =>
    exact List.mem_cons_of_mem _ (List.mem_flatMap.2 ⟨_, Script.mem_of_reaches hreach, ih⟩)

section Meets

variable {α : Type} (Pre : Task → Machine → Prop)
  (Post : (task : Task) → Machine → Outcome task.Result → Prop)

/-- A script asks for tasks where `Pre` holds, and relying on `Post` of their outcomes its own
outcome is one of `Q`. -/
def Script.Meets (Q : Outcome α → Prop) : Script α → Machine → Prop
  | done value, machine => Q (.done value machine)
  | act step next, machine =>
    (step machine).Leads Q fun value after => (next value).Meets Q after
  | ask task next, machine =>
    Pre task machine ∧ ∀ outcome, Post task machine outcome →
      outcome.Leads Q fun value after => (next value).Meets Q after
  | within scope task next, machine =>
    Pre task { machine with current := scope } ∧
      ∀ outcome, Post task { machine with current := scope } outcome →
        (outcome.backTo machine.current).Leads Q fun value after => (next value).Meets Q after

variable {Pre Post} {Q : Outcome α → Prop} {answer : (task : Task) → Run task.Result}

theorem Outcome.Leads.bind {β : Type} {run : Run β} {next : β → Run α} {machine : Machine}
    (h : (run machine).Leads Q fun value after => Q (next value after)) :
    Q ((run >>= next) machine) := by
  show Q (Run.bind run next machine)
  unfold Run.bind
  revert h
  cases run machine <;> exact id

theorem Outcome.Leads.mono {β : Type} {outcome : Outcome β} {P R : β → Machine → Prop}
    (h : outcome.Leads Q P) (hPR : ∀ value after, outcome = .done value after →
      P value after → R value after) : outcome.Leads Q R := by
  cases outcome with
  | done value after => exact hPR value after rfl h
  | _ => exact h

/-- A script that meets its promise, when it relies only on what the answers keep. -/
theorem Script.Meets.exec {script : Script α} {machine : Machine}
    (h : script.Meets Pre Post Q machine)
    (hanswer : ∀ task there, script.Reaches answer machine task there → Pre task there →
      Post task there (answer task there)) :
    Q (script.exec answer machine) ∧
      ∀ task there, script.Reaches answer machine task there → Pre task there := by
  induction script generalizing machine with
  | done value => exact ⟨h, fun task there hreach => by cases hreach⟩
  | act step next ih =>
    constructor
    · refine Outcome.Leads.bind (Outcome.Leads.mono h fun value after hstep hnext => ?_)
      exact (ih value hnext fun task there hreach => hanswer task there (.act hstep hreach)).1
    · intro task there hreach
      cases hreach with
      | act hstep hreach =>
        rw [Script.Meets, hstep] at h
        exact (ih _ h fun task there hreach => hanswer task there (.act hstep hreach)).2 task
          there hreach
  | ask asked next ih =>
    obtain ⟨hpre, hpost⟩ := h
    have hleads := hpost _ (hanswer asked machine .ask hpre)
    constructor
    · refine Outcome.Leads.bind (Outcome.Leads.mono hleads fun value after hdone hnext => ?_)
      exact (ih value hnext fun task there hreach => hanswer task there (.pastAsk hdone hreach)).1
    · intro task there hreach
      cases hreach with
      | ask => exact hpre
      | pastAsk hdone hreach =>
        rw [hdone] at hleads
        exact (ih _ hleads fun task there hreach =>
          hanswer task there (.pastAsk hdone hreach)).2 task there hreach
  | within scope asked next ih =>
    obtain ⟨hpre, hpost⟩ := h
    have hleads := hpost _ (hanswer asked _ .within hpre)
    rw [← Run.within_eq] at hleads
    constructor
    · refine Outcome.Leads.bind (Outcome.Leads.mono hleads fun value after hdone hnext => ?_)
      exact (ih value hnext fun task there hreach =>
        hanswer task there (.pastWithin hdone hreach)).1
    · intro task there hreach
      cases hreach with
      | within => exact hpre
      | pastWithin hdone hreach =>
        rw [hdone] at hleads
        exact (ih _ hleads fun task there hreach =>
          hanswer task there (.pastWithin hdone hreach)).2 task there hreach

end Meets

/-- Without fuel a task gives up, unless it is a single step that needs none. -/
theorem Task.run_zero (task : Task) :
    (∀ machine, task.run 0 machine = .outOfFuel) ∨ task.run 0 = task.run 1 ∧
      ∀ answer machine other there, ¬ task.script.Reaches answer machine other there := by
  cases task with
  | assign | property | classDef =>
    refine .inr ⟨rfl, fun answer machine other there hreach => ?_⟩
    cases hreach with | act _ hreach => cases hreach
  | _ => exact .inl fun machine => rfl

/-- What every script keeps, every run keeps, at all that it visits. -/
theorem Task.run_meets {Seen Pre : Task → Machine → Prop}
    {Post : (task : Task) → Machine → Outcome task.Result → Prop}
    (hfuel : ∀ task machine, Post task machine .outOfFuel)
    (hscript : ∀ task machine, Seen task machine → Pre task machine →
      task.script.Meets Pre Post (Post task machine) machine) :
    ∀ (fuel : Nat) {task : Task} {machine : Machine},
      (∀ other there, Visits fuel task machine other there → Seen other there) →
      Pre task machine → Post task machine (task.run fuel machine) ∧
        ∀ other there, Visits fuel task machine other there → Pre other there
  | 0, task, machine, hseen, hpre => by
    constructor
    · rcases task.run_zero with hnone | ⟨hone, hreach⟩
      · rw [hnone]
        exact hfuel task machine
      · rw [hone, Task.run_succ]
        exact ((hscript task machine (hseen _ _ .here) hpre).exec fun other there h _ =>
          absurd h (hreach _ _ _ _)).1
    · rintro other there ⟨⟩
      exact hpre
  | fuel + 1, task, machine, hseen, hpre => by
    have hbelow : ∀ other there, task.script.Reaches (Task.run fuel) machine other there →
        Pre other there → Post other there (other.run fuel there) ∧
          ∀ last beyond, Visits fuel other there last beyond → Pre last beyond :=
      fun other there hreach hother => run_meets hfuel hscript fuel
        (fun last beyond hvisit => hseen last beyond (.deeper hreach hvisit)) hother
    obtain ⟨hpost, hreached⟩ := (hscript task machine (hseen _ _ .here) hpre).exec
      fun other there hreach hother => (hbelow other there hreach hother).1
    refine ⟨by rwa [Task.run_succ], ?_⟩
    intro other there hvisit
    cases hvisit with
    | here => exact hpre
    | deeper hreach hvisit =>
      exact (hbelow _ _ hreach (hreached _ _ hreach)).2 other there hvisit

end Eval

end Moth
