import Moth.Proofs.Binding.Steps
import Moth.Proofs.Execution.Visits
/-!
# The course of a run

The visits of a run come one after the other.  Before it asks for another task, a task takes its
own first steps, its stride, and in them opens the scope that it opens, if any.  What a stride
has made is there at all later visits.
-/

namespace Moth

open Eval

def Outcome.machine? {α : Type} : Outcome α → Option Machine
  | .done _ machine | .failed _ machine | .stuck machine => some machine
  | .outOfFuel => none

namespace Eval

def Script.stride {α : Type} : Script α → Machine → Machine
  | done _, machine | ask _ _, machine | within _ _ _, machine => machine
  | act step next, machine =>
    match step machine with
    | .done value after => (next value).stride after
    | .failed _ after | .stuck after => after
    | .outOfFuel => machine

def Task.stride (task : Task) (machine : Machine) : Machine := task.script.stride machine

def Task.binds : Task → List Token
  | .invoke _ closure _ => closure.declaration.params
  | .stmt _ (.var name _) => [name]
  | .stmt _ (.function declaration) => [declaration.name]
  | .assign name _ | .classDef name _ _ => [name]
  | _ => []

variable (seen : Task → Machine → Prop)

/-- What is known of a task when it is asked for: where the function came from that is to be
run, and which class the superclass expression gave. -/
def Task.Fits (machine : Machine) : Task → Prop
  | .invoke _ closure _ => closure.Traced seen machine
  | .classDef name superclass methods => ∃ room token,
    seen (.stmt room (.classDef name token methods)) machine ∧
      token.map (fun token => lookUp token machine) =
        superclass.map fun id => .done (.class id) machine
  | _ => True

def Task.Returns (machine : Machine) : (task : Task) → task.Result → Machine → Prop
  | .expr _ (.ref name), value, after => lookUp name machine = .done value after
  | _, _, _ => True

def Script.Steady {α : Type} : Script α → Machine → Prop
  | done _, _ => True
  | act step next, machine => (step machine).Proceeds seen machine ∧
    ∀ value after, step machine = .done value after → (next value).Steady after
  | ask task next, machine => task.Fits seen machine ∧
    ∀ value after, machine.Proceeds seen after → task.Returns machine value after →
      (next value).Steady after
  | within scope task next, machine => machine.Plain scope ∧
    task.Fits seen { machine with current := scope } ∧
    ∀ value after, machine.Proceeds seen after → (next value).Steady after

structure Course (start : Machine) (visits : List (Task × Machine)) (stop : Option Machine) :
    Prop where
  since : ∀ visit ∈ visits, start.Proceeds seen visit.2
  plain : ∀ visit ∈ visits, visit.2.Plain visit.2.current
  fits : ∀ visit ∈ visits, visit.1.Fits seen visit.2
  strides : ∀ visit ∈ visits, visit.2.Evolves (visit.1.stride visit.2)
  ordered : visits.Pairwise fun visit later => (visit.1.stride visit.2).Evolves later.2
  through : ∀ last ∈ stop, start.Proceeds seen last
  upTo : ∀ last ∈ stop, ∀ visit ∈ visits, (visit.1.stride visit.2).Evolves last

/-- The course of a run that comes back to the scope it began in. -/
structure Tour {α : Type} (start first : Machine) (visits : List (Task × Machine))
    (outcome : Outcome α) : Prop where
  course : Course seen start visits outcome.machine?
  current : ∀ last ∈ outcome.machine?, last.current = first.current

variable {seen}

namespace Course

variable {start middle older newer : Machine} {visits more : List (Task × Machine)}
  {stop : Option Machine}

theorem nil (h : ∀ last ∈ stop, start.Proceeds seen last) : Course seen start [] stop :=
  ⟨by simp, by simp, by simp, by simp, .nil, h, by simp⟩

theorem append (h : Course seen start visits (some middle)) (h' : Course seen middle more stop) :
    Course seen start (visits ++ more) stop where
  since := List.forall_mem_append.2
    ⟨h.since, fun visit hvisit => (h.through middle rfl).trans (h'.since visit hvisit)⟩
  plain := List.forall_mem_append.2 ⟨h.plain, h'.plain⟩
  fits := List.forall_mem_append.2 ⟨h.fits, h'.fits⟩
  strides := List.forall_mem_append.2 ⟨h.strides, h'.strides⟩
  ordered := List.pairwise_append.2 ⟨h.ordered, h'.ordered, fun visit hvisit later hlater =>
    (h.upTo middle rfl visit hvisit).trans (h'.since later hlater).evolves⟩
  through last hlast := (h.through middle rfl).trans (h'.through last hlast)
  upTo last hlast := List.forall_mem_append.2
    ⟨fun visit hvisit => (h.upTo middle rfl visit hvisit).trans (h'.through last hlast).evolves,
      h'.upTo last hlast⟩

theorem before (h : Course seen start visits stop) (hstart : older.Proceeds seen start) :
    Course seen older visits stop :=
  ⟨fun visit hvisit => hstart.trans (h.since visit hvisit), h.plain, h.fits, h.strides,
    h.ordered, fun last hlast => hstart.trans (h.through last hlast), h.upTo⟩

theorem after (h : Course seen start visits (some middle)) (hstop : middle.Proceeds seen newer) :
    Course seen start visits (some newer) := by
  simpa using h.append (.nil fun last hlast => Option.mem_some.1 hlast ▸ hstop)

/-- A task and then what is visited after its stride. -/
theorem cons {task : Task} (hplain : start.Plain start.current) (hfits : task.Fits seen start)
    (hstride : start.Proceeds seen (task.stride start))
    (h : Course seen (task.stride start) visits stop) :
    Course seen start ((task, start) :: visits) stop where
  since := List.forall_mem_cons.2 ⟨.refl start, (h.before hstride).since⟩
  plain := List.forall_mem_cons.2 ⟨hplain, h.plain⟩
  fits := List.forall_mem_cons.2 ⟨hfits, h.fits⟩
  strides := List.forall_mem_cons.2 ⟨hstride.evolves, h.strides⟩
  ordered := List.pairwise_cons.2 ⟨fun later hlater => (h.since later hlater).evolves, h.ordered⟩
  through := (h.before hstride).through
  upTo last hlast := List.forall_mem_cons.2 ⟨(h.through last hlast).evolves, h.upTo last hlast⟩

/-- Of two visits one comes before the other. -/
theorem compare (h : Course seen start visits stop) {visit other : Task × Machine}
    (hvisit : visit ∈ visits) (hother : other ∈ visits) : visit = other ∨
      (visit.1.stride visit.2).Evolves other.2 ∨ (other.1.stride other.2).Evolves visit.2 := by
  have hordered := List.pairwise_iff_getElem.1 h.ordered
  obtain ⟨i, hi, rfl⟩ := List.getElem_of_mem hvisit
  obtain ⟨j, hj, rfl⟩ := List.getElem_of_mem hother
  rcases Nat.lt_trichotomy i j with hlt | rfl | hlt
  · exact .inr (.inl (hordered i j hi hj hlt))
  · exact .inl rfl
  · exact .inr (.inr (hordered j i hj hi hlt))

end Course

theorem Tour.outOfFuel {α : Type} {start first : Machine} {visits : List (Task × Machine)}
    (h : Course seen start visits none) :
    Tour seen start first visits (.outOfFuel : Outcome α) :=
  ⟨h, fun last hlast => absurd hlast (Option.not_mem_none last)⟩

/-! ## Scripts -/

section

variable {α : Type} {script : Script α} {machine : Machine}

theorem Script.Steady.stride (h : script.Steady seen machine) :
    machine.Proceeds seen (script.stride machine) := by
  induction script generalizing machine with
  | done | ask | within => exact .refl machine
  | act step next ih =>
    obtain ⟨hstep, hnext⟩ := h
    rw [Script.stride]
    revert hstep hnext
    cases step machine with
    | done value after => exact fun hstep hnext => hstep.1.trans (ih value (hnext value after rfl))
    | failed | stuck => exact fun hstep _ => hstep.1
    | outOfFuel => exact fun _ _ => .refl machine

/-- From any machine, the visits of the script, which are those of the tasks it asks for one after
the other, make a tour if those of each of these tasks do. -/
def Script.Tours (seen : Task → Machine → Prop) (answer : (task : Task) → Run task.Result)
    (visitsOf : Task → Machine → List (Task × Machine)) (script : Script α) : Prop :=
  ∀ machine, script.Steady seen machine → machine.Traced seen → machine.Plain machine.current →
    (∀ visit ∈ script.reached answer machine, visit.2.Traced seen →
      visit.2.Plain visit.2.current → visit.1.Fits seen visit.2 →
      Tour seen visit.2 visit.2 (visitsOf visit.1 visit.2) (answer visit.1 visit.2)) →
    Tour seen (script.stride machine) machine
      ((script.reached answer machine).flatMap fun visit => visitsOf visit.1 visit.2)
      (script.exec answer machine)

namespace Script.Tours

variable {β : Type} {answer : (task : Task) → Run task.Result}
  {visitsOf : Task → Machine → List (Task × Machine)}

theorem done (value : α) : (Script.done value).Tours seen answer visitsOf := by
  intro machine _ _ _ _
  exact ⟨.nil fun last hlast => Option.mem_some.1 hlast ▸ .refl machine,
    fun last hlast => Option.mem_some.1 hlast ▸ rfl⟩

theorem act {step : Run β} {next : β → Script α}
    (ih : ∀ value, (next value).Tours seen answer visitsOf) :
    (Script.act step next).Tours seen answer visitsOf := by
  rintro machine ⟨hstep, hnext⟩ htraced hplain hanswer
  simp only [Script.stride, Script.reached, Script.exec] at hanswer ⊢
  show Tour seen _ _ _ (Run.bind step _ machine)
  unfold Run.bind
  cases hrun : step machine with
  | done value after =>
    rw [hrun] at hstep
    simp only [hrun] at hanswer
    have hafter := hplain.evolve hstep.1.evolves
    have htour := ih value after (hnext value after hrun) (hstep.1.traced htraced)
      (hstep.2 ▸ hafter) hanswer
    exact ⟨htour.course, fun last hlast => (htour.current last hlast).trans hstep.2⟩
  | failed failure after | stuck after =>
    rw [hrun] at hstep
    exact ⟨.nil fun last hlast => Option.mem_some.1 hlast ▸ .refl after,
      fun last hlast => Option.mem_some.1 hlast ▸ hstep.2⟩
  | outOfFuel => exact .outOfFuel (.nil (by simp))

theorem ask {task : Task} {next : task.Result → Script α}
    (hreturns : ∀ there value after, answer task there = .done value after →
      task.Returns there value after)
    (ih : ∀ value, (next value).Tours seen answer visitsOf) :
    (Script.ask task next).Tours seen answer visitsOf := by
  rintro machine ⟨hfits, hnext⟩ htraced hplain hanswer
  simp only [Script.stride, Script.reached, Script.exec] at hanswer ⊢
  obtain ⟨hfirst, hrest⟩ := List.forall_mem_cons.1 hanswer
  obtain ⟨hcourse, hcurrent⟩ := hfirst htraced hplain hfits
  show Tour seen _ _ _ (Run.bind (answer task) _ machine)
  rw [List.flatMap_cons]
  unfold Run.bind
  cases hrun : answer task machine with
  | done value after =>
    rw [hrun] at hcourse hcurrent
    simp only [hrun] at hrest
    have hproceeds := hcourse.through after rfl
    have hsame : after.current = machine.current := hcurrent after rfl
    have hsteady := hnext value after hproceeds (hreturns _ _ _ hrun)
    have htour := ih value after hsteady (hproceeds.traced htraced)
      (hsame ▸ hplain.evolve hproceeds.evolves) hrest
    exact ⟨hcourse.append (htour.course.before hsteady.stride),
      fun last hlast => (htour.current last hlast).trans hsame⟩
  | failed | stuck | outOfFuel =>
    rw [hrun] at hcourse hcurrent
    rw [List.flatMap_nil, List.append_nil]
    exact ⟨hcourse, hcurrent⟩

/-- Inside, and back outside, only the current scope is another one. -/
theorem within {scope : Nat} {task : Task} {next : task.Result → Script α}
    (ih : ∀ value, (next value).Tours seen answer visitsOf) :
    (Script.within scope task next).Tours seen answer visitsOf := by
  rintro machine ⟨hscope, hfits, hnext⟩ htraced hplain hanswer
  simp only [Script.stride, Script.reached, Script.exec] at hanswer ⊢
  obtain ⟨hfirst, hrest⟩ := List.forall_mem_cons.1 hanswer
  have hinside : machine.Proceeds seen { machine with current := scope } := .aside rfl rfl rfl rfl
  have hback (after : Machine) : after.Proceeds seen { after with current := machine.current } :=
    .aside rfl rfl rfl rfl
  obtain ⟨hcourse, -⟩ := hfirst (hinside.traced htraced) (hscope.evolve hinside.evolves) hfits
  replace hcourse := hcourse.before hinside
  show Tour seen _ _ _ (Run.bind (Run.within scope (answer task)) _ machine)
  rw [List.flatMap_cons]
  simp only [Run.bind, Run.within_eq] at hrest ⊢
  cases hrun : answer task { machine with current := scope } with
  | done value after =>
    rw [hrun] at hcourse
    simp only [hrun, Outcome.backTo] at hrest ⊢
    have hdone := hcourse.after (hback after)
    have hproceeds := hdone.through _ rfl
    have hsteady := hnext value _ hproceeds
    have htour := ih value _ hsteady (hproceeds.traced htraced)
      (hplain.evolve hproceeds.evolves) hrest
    exact ⟨hdone.append (htour.course.before hsteady.stride), htour.current⟩
  | failed failure after | stuck after =>
    rw [hrun] at hcourse
    simp only [Outcome.backTo, List.flatMap_nil, List.append_nil]
    exact ⟨hcourse.after (hback after), fun last hlast => Option.mem_some.1 hlast ▸ rfl⟩
  | outOfFuel =>
    rw [hrun] at hcourse
    simp only [Outcome.backTo, List.flatMap_nil, List.append_nil]
    exact .outOfFuel hcourse

end Script.Tours

theorem Script.tours {answer : (task : Task) → Run task.Result}
    (hreturns : ∀ task there value after, answer task there = .done value after →
      task.Returns there value after)
    (visitsOf : Task → Machine → List (Task × Machine)) (script : Script α) :
    script.Tours seen answer visitsOf := by
  induction script with
  | done value => exact .done value
  | act step next ih => exact .act ih
  | ask task next ih => exact .ask (hreturns task) ih
  | within scope task next ih => exact .within ih

end

end Eval

end Moth
