import Moth.Proofs.Twins.Machine
/-!
# Twin runs

What a program does from a machine, its twin does from a twin machine, though it may need more
fuel for it.  One lemma for each way of composing runs, one for each step, and from them, by
induction on the fuel, that twin trees run alike.
-/

namespace Moth

def Settles {α : Type} (runs : Nat → Outcome α) (outcome : Outcome α) : Prop :=
  ∃ enough, ∀ fuel, enough ≤ fuel → runs fuel = outcome

/-- The same value, or the same fault, and twin machines after it.  Scopes have been added, and the
current scope is that of `machine`. -/
inductive Outcome.Twin (T : Twinning) (names : Nat → Renaming) (machine : Machine) {α : Type} :
    Outcome α → Outcome α → Prop where
  | done {names' : Nat → Renaming} {value : α} {after after' : Machine} :
      Widens names machine.scopes names' after.scopes → Machine.Twin T names' after after' →
      after.current = machine.current →
      Outcome.Twin T names machine (.done value after) (.done value after')
  | failed {names' : Nat → Renaming} {failure failure' : Failure} {after after' : Machine} :
      failure'.fault = failure.fault → Machine.Twin T names' after after' →
      Outcome.Twin T names machine (.failed failure after) (.failed failure' after')
  | stuck {after after' : Machine} : Outcome.Twin T names machine (.stuck after) (.stuck after')

/-- If the outcome is not for want of fuel, the runs settle on a twin of it. -/
def Follows (T : Twinning) (names : Nat → Renaming) (machine : Machine) {α : Type}
    (outcome : Outcome α) (runs : Nat → Outcome α) : Prop :=
  outcome ≠ .outOfFuel → ∃ outcome', Settles runs outcome' ∧ outcome.Twin T names machine outcome'

/-- From twin machines the run is followed by the runs, whatever the scopes around are. -/
def RunTwin (T : Twinning) (ρs : List Renaming) {α : Type} (run : Run α) (runs : Nat → Run α) :
    Prop :=
  ∀ names machine machine', Machine.Twin T names machine machine' →
    Chained names machine.scopes machine.current ρs →
    Follows T names machine (run machine) fun fuel => runs fuel machine'

variable {T : Twinning} {α β : Type}

/-! ## Composing runs -/

/-- What a later run has come to, seen from an earlier machine. -/
theorem Outcome.Twin.since {names names' : Nat → Renaming} {machine after : Machine}
    {outcome outcome' : Outcome α} (h : outcome.Twin T names' after outcome')
    (hwidens : Widens names machine.scopes names' after.scopes)
    (hcurrent : after.current = machine.current) : outcome.Twin T names machine outcome' := by
  cases h with
  | done hwidens' hafter hcurrent' =>
    exact .done (hwidens.trans hwidens') hafter (hcurrent'.trans hcurrent)
  | failed hfault hafter => exact .failed hfault hafter
  | stuck => exact .stuck

namespace Follows

variable {names : Nat → Renaming} {machine machine' : Machine}

theorem atom {outcome outcome' : Outcome α} (h : outcome.Twin T names machine outcome') :
    Follows T names machine outcome fun _ => outcome' :=
  fun _ => ⟨outcome', ⟨0, fun _ _ => rfl⟩, h⟩

theorem outOfFuel (runs : Nat → Outcome α) : Follows T names machine .outOfFuel runs :=
  fun h => absurd rfl h

theorem since {names' : Nat → Renaming} {after : Machine} {outcome : Outcome α}
    {runs : Nat → Outcome α} (h : Follows T names' after outcome runs)
    (hwidens : Widens names machine.scopes names' after.scopes)
    (hcurrent : after.current = machine.current) : Follows T names machine outcome runs := by
  intro hends
  obtain ⟨outcome', hsettles, htwin⟩ := h hends
  exact ⟨outcome', hsettles, htwin.since hwidens hcurrent⟩

theorem bind {first : Run α} {next : α → Run β} {firsts : Nat → Run α} {nexts : Nat → α → Run β}
    (hfirst : Follows T names machine (first machine) fun fuel => firsts fuel machine')
    (hnext : ∀ {names' : Nat → Renaming} {after after' : Machine} (value : α),
      Widens names machine.scopes names' after.scopes → Machine.Twin T names' after after' →
      after.current = machine.current →
      Follows T names' after (next value after) fun fuel => nexts fuel value after') :
    Follows T names machine ((first >>= next) machine)
      fun fuel => (firsts fuel >>= nexts fuel) machine' := by
  intro hends
  change Run.bind first next machine ≠ .outOfFuel at hends
  change ∃ outcome', Settles (fun fuel => Run.bind (firsts fuel) (nexts fuel) machine') outcome' ∧
    (Run.bind first next machine).Twin T names machine outcome'
  unfold Run.bind at hends ⊢
  cases hrun : first machine with
  | outOfFuel =>
    rw [hrun] at hends
    exact absurd rfl hends
  | failed failure after | stuck after =>
    rw [hrun] at hfirst
    obtain ⟨outcome', ⟨enough, henough⟩, htwin⟩ := hfirst (by simp)
    cases htwin
    refine ⟨_, ⟨enough, fun fuel hfuel => ?_⟩, by constructor <;> assumption⟩
    simp only [henough fuel hfuel]
  | done value after =>
    rw [hrun] at hfirst hends
    obtain ⟨outcome', ⟨enough, henough⟩, htwin⟩ := hfirst (by simp)
    cases htwin with
    | done hwidens hafter hcurrent =>
      obtain ⟨outcome', ⟨enough', henough'⟩, htwin⟩ := hnext value hwidens hafter hcurrent hends
      refine ⟨outcome', ⟨max enough enough', fun fuel hfuel => ?_⟩, ?_⟩
      · simp only [henough fuel (Nat.le_trans (Nat.le_max_left _ _) hfuel),
          henough' fuel (Nat.le_trans (Nat.le_max_right _ _) hfuel)]
      · exact htwin.since hwidens hcurrent

theorem within {body : Run α} {bodies : Nat → Run α} {scope : Nat}
    (hmachine : Machine.Twin T names machine machine')
    (h : Follows T names { machine with current := scope } (body { machine with current := scope })
      fun fuel => bodies fuel { machine' with current := scope }) :
    Follows T names machine (Run.within scope body machine)
      fun fuel => Run.within scope (bodies fuel) machine' := by
  intro hends
  unfold Run.within at hends ⊢
  simp only at hends ⊢
  generalize body { machine with current := scope } = outcome at h hends
  obtain ⟨outcome', ⟨enough, henough⟩, htwin⟩ := h fun houtcome => by simp [houtcome] at hends
  cases htwin with
  | done hwidens hafter hcurrent =>
    refine ⟨_, ⟨enough, fun fuel hfuel => by simp only [henough fuel hfuel]; rfl⟩, ?_⟩
    rw [hmachine.current]
    exact .done hwidens (hafter.enter machine.current) rfl
  | failed hfault hafter =>
    refine ⟨_, ⟨enough, fun fuel hfuel => by simp only [henough fuel hfuel]; rfl⟩, ?_⟩
    rw [hmachine.current]
    exact .failed hfault (hafter.enter machine.current)
  | stuck => exact ⟨_, ⟨enough, fun fuel hfuel => by simp only [henough fuel hfuel]; rfl⟩, .stuck⟩

/-- With one more piece of fuel the other run does the same. -/
theorem succ {outcome : Outcome α} {runs runs' : Nat → Outcome α}
    (h : Follows T names machine outcome runs) (hsucc : ∀ fuel, runs' (fuel + 1) = runs fuel) :
    Follows T names machine outcome runs' := by
  intro hends
  obtain ⟨outcome', ⟨enough, henough⟩, htwin⟩ := h hends
  refine ⟨outcome', ⟨enough + 1, fun fuel hfuel => ?_⟩, htwin⟩
  obtain ⟨fuel, rfl⟩ := Nat.exists_eq_add_of_le' (Nat.le_trans (Nat.le_add_left 1 enough) hfuel)
  rw [hsucc, henough fuel (by omega)]

end Follows

namespace RunTwin

variable {ρs : List Renaming}

theorem bind {first : Run α} {next : α → Run β} {firsts : Nat → Run α} {nexts : Nat → α → Run β}
    (hfirst : RunTwin T ρs first firsts)
    (hnext : ∀ value, RunTwin T ρs (next value) fun fuel => nexts fuel value) :
    RunTwin T ρs (first >>= next) fun fuel => firsts fuel >>= nexts fuel := by
  intro names machine machine' hmachine hchained
  refine (hfirst names machine machine' hmachine hchained).bind
    fun value hwidens hafter hcurrent => ?_
  exact hnext value _ _ _ hafter (hcurrent ▸ hchained.mono hwidens)

theorem succ {run : Run α} {runs runs' : Nat → Run α} (h : RunTwin T ρs run runs)
    (hsucc : ∀ fuel, runs' (fuel + 1) = runs fuel) : RunTwin T ρs run runs' :=
  fun names machine machine' hmachine hchained =>
    (h names machine machine' hmachine hchained).succ fun fuel => by rw [hsucc]

theorem pure (value : α) : RunTwin T ρs (Pure.pure value) fun _ => Pure.pure value :=
  fun names machine _ hmachine _ => .atom (.done (.refl names machine.scopes) hmachine rfl)

theorem fail (token token' : Token) (fault : RuntimeFault) :
    RunTwin T ρs (Run.fail token fault : Run α) fun _ => Run.fail token' fault :=
  fun _ _ _ hmachine _ => .atom (.failed rfl hmachine)

theorem lift (token token' : Token) (result : Except RuntimeFault α) :
    RunTwin T ρs (Run.lift token result) fun _ => Run.lift token' result := by
  cases result with
  | ok value => exact .pure value
  | error fault => exact .fail token token' fault

theorem stuck : RunTwin T ρs (Run.stuck : Run α) fun _ => Run.stuck :=
  fun _ _ _ _ _ => .atom .stuck

theorem outOfFuel (runs : Nat → Run α) : RunTwin T ρs Run.outOfFuel runs :=
  fun _ _ _ _ _ => .outOfFuel _

theorem ite {p : Prop} [Decidable p] {yes no : Run α} {yess nos : Nat → Run α}
    (hyes : RunTwin T ρs yes yess) (hno : RunTwin T ρs no nos) :
    RunTwin T ρs (if p then yes else no) fun fuel => if p then yess fuel else nos fuel := by
  by_cases h : p
  · simp only [if_pos h]
    exact hyes
  · simp only [if_neg h]
    exact hno

/-- A change that twin machines stay twins under. -/
theorem modify {change : Machine → Machine} {change' : Machine → Machine}
    (h : ∀ names machine machine', Machine.Twin T names machine machine' →
      Machine.Twin T names (change machine) (change' machine'))
    (hscopes : ∀ machine, (change machine).scopes = machine.scopes)
    (hcurrent : ∀ machine, (change machine).current = machine.current) :
    RunTwin T ρs (Run.modify change) fun _ => Run.modify change' := by
  intro names machine machine' hmachine _
  refine .atom (.done ?_ (h names machine machine' hmachine) (hcurrent machine))
  rw [hscopes]
  exact .refl names machine.scopes

end RunTwin

end Moth
