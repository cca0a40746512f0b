import Moth.Proofs.Desugaring.Fitting
import Moth.Proofs.Execution.Tables
/-!
# Machines side by side

Two machines whose scopes are paired, though on the way outward one may have scopes that the other
has not.  Functions, classes and instances have the same numbers, so that values that stand for
one another are equal.  Runs go side by side if each step of the one has its counterpart in the
other, with the same fuel.
-/

namespace Moth

abbrev Machine.beside (machine other : Machine) (pairing : Nat → Nat → Prop) : Beside :=
  ⟨machine.scopes, other.scopes, pairing⟩

/-- Functions that fit where they are.  The scopes between their own and their bodies are those in
`inner`, and the innermost of all is paired if `this` is looked for in it. -/
structure Closure.Parallel (J : Joint) (inner : List Layer) (beside : Beside)
    (closure other : Closure) : Prop where
  isInitializer : other.isInitializer = closure.isInitializer
  declaration : ∃ layers, beside.Chains layers closure.scope other.scope ∧
    FunctionFits J (inner ++ layers) closure.declaration other.declaration ∧
    (closure.isInitializer → SharedHere (inner ++ layers))

/-- The tables correspond.  Methods are in a scope for `this` when they are bound. -/
structure Machine.Parallel (J : Joint) (pairing : Nat → Nat → Prop) (machine other : Machine) : Prop
    extends machine.Tables (Closure.Parallel J [] (machine.beside other pairing))
      (Closure.Parallel J [.both] (machine.beside other pairing)) other where
  scopes : (machine.beside other pairing).Paired
  links : machine.resolution = J.links
  others : other.resolution = J.others
  output : other.output = machine.output

variable {J : Joint}

section

variable {inner : List Layer} {beside later : Beside}

theorem FunctionFits.name {layers : List Layer} {declaration other : FunctionDecl}
    (h : FunctionFits J layers declaration other) :
    other.name.lexeme = declaration.name.lexeme := by
  cases h with | mk hname _ _ => exact hname.lexeme

theorem FunctionFits.params {layers : List Layer} {declaration other : FunctionDecl}
    (h : FunctionFits J layers declaration other) :
    other.params.map (·.lexeme) = declaration.params.map (·.lexeme) := by
  cases h with | mk _ hparams _ => exact hparams

theorem FunctionFits.body {layers : List Layer} {declaration other : FunctionDecl}
    (h : FunctionFits J layers declaration other) :
    StmtsFit J (.both :: layers) declaration.body other.body := by
  cases h with | mk _ _ hbody => exact hbody

theorem Closure.Parallel.mono (hwidens : beside.Widens later) {closure other : Closure}
    (h : Closure.Parallel J inner beside closure other) :
    Closure.Parallel J inner later closure other := by
  obtain ⟨layers, hchains, hrest⟩ := h.declaration
  exact ⟨h.isInitializer, layers, hchains.mono hwidens, hrest⟩

theorem Closure.Parallel.name {closure other : Closure}
    (h : Closure.Parallel J inner beside closure other) :
    other.declaration.name.lexeme = closure.declaration.name.lexeme := by
  obtain ⟨layers, -, hfits, -⟩ := h.declaration
  exact hfits.name

theorem Closure.Parallel.arity {closure other : Closure}
    (h : Closure.Parallel J inner beside closure other) :
    other.declaration.params.length = closure.declaration.params.length := by
  obtain ⟨layers, -, hfits, -⟩ := h.declaration
  simpa using congrArg List.length hfits.params

end

namespace Machine.Parallel

variable {pairing : Nat → Nat → Prop} {machine other : Machine}

/-- The scopes go on, and all else stays. -/
theorem withScopes (h : Machine.Parallel J pairing machine other) {later : Beside}
    (hpaired : later.Paired) (hwidens : (machine.beside other pairing).Widens later) :
    Machine.Parallel J later.pairing { machine with scopes := later.scopes }
      { other with scopes := later.others } :=
  { h with
    scopes := hpaired
    functions := h.functions.imp fun _ _ hclosure => hclosure.mono hwidens
    classes := h.classes.imp fun _ _ hentry => hentry.imp fun _ _ hmethod => hmethod.mono hwidens
    sources := h.sources }

theorem define (h : Machine.Parallel J pairing machine other) {scope scope' : Nat}
    (hpair : pairing scope scope') (name : String) (value : Value) :
    Machine.Parallel J pairing (machine.define scope name value)
      (other.define scope' name value) :=
  h.withScopes (h.scopes.define hpair name value) (.define _ scope scope' name value)

theorem newFunction (h : Machine.Parallel J pairing machine other) {closure closure' : Closure}
    (hclosure : Closure.Parallel J [] (machine.beside other pairing) closure closure') :
    Machine.Parallel J pairing (machine.newFunction closure).2 (other.newFunction closure').2 :=
  { h with toTables := h.toTables.newFunction hclosure }

theorem newClass (h : Machine.Parallel J pairing machine other) {entry entry' : ClassEntry}
    (hentry : entry.Like (Closure.Parallel J [.both] (machine.beside other pairing)) entry') :
    Machine.Parallel J pairing (machine.newClass entry).2 (other.newClass entry').2 :=
  { h with toTables := h.toTables.newClass hentry }

theorem newInstance (h : Machine.Parallel J pairing machine other) (classId : Nat) :
    Machine.Parallel J pairing (machine.newInstance classId).2 (other.newInstance classId).2 :=
  { h with toTables := h.toTables.newInstance classId }

theorem setField (h : Machine.Parallel J pairing machine other) (id : Nat) (name : String)
    (value : Value) :
    Machine.Parallel J pairing (machine.setField id name value) (other.setField id name value) :=
  { h with toTables := h.toTables.setField id name value }

/-- The same text is written, and the same is left to read. -/
theorem exchange (h : Machine.Parallel J pairing machine other) (text : String)
    (rest : Machine.Sources) :
    Machine.Parallel J pairing (machine.exchange text rest) (other.exchange text rest) :=
  { h with sources := rfl, output := congrArg (· ++ text) h.output }

theorem write (h : Machine.Parallel J pairing machine other) (text : String) :
    Machine.Parallel J pairing (machine.write text) (other.write text) :=
  { h with sources := h.sources, output := congrArg (· ++ text) h.output }

theorem enter (h : Machine.Parallel J pairing machine other) (scope scope' : Nat) :
    Machine.Parallel J pairing { machine with current := scope }
      { other with current := scope' } :=
  { h with sources := h.sources }

/-- A value is shown alike. -/
theorem display (h : Machine.Parallel J pairing machine other) (value : Value) :
    other.display value = machine.display value :=
  h.display_eq (fun hclosure => hclosure.name) value

end Machine.Parallel

/-! ## Runs side by side -/

/-- The same value, or the same fault at the same token, and machines side by side after it.  Scopes
have been added, and either machine is in the scope that it was in. -/
inductive Outcome.Parallel (J : Joint) (pairing : Nat → Nat → Prop) (machine other : Machine)
    {α : Type} : Outcome α → Outcome α → Prop where
  | done {later : Nat → Nat → Prop} {value : α} {after after' : Machine} :
      (machine.beside other pairing).Widens (after.beside after' later) →
      Machine.Parallel J later after after' → after.current = machine.current →
      after'.current = other.current →
      Outcome.Parallel J pairing machine other (.done value after) (.done value after')
  | failed {later : Nat → Nat → Prop} {failure failure' : Failure} {after after' : Machine} :
      failure.token.Alike failure'.token → failure'.fault = failure.fault →
      (machine.beside other pairing).Widens (after.beside after' later) →
      Machine.Parallel J later after after' → after.current = machine.current →
      after'.current = other.current →
      Outcome.Parallel J pairing machine other (.failed failure after) (.failed failure' after')
  | stuck {after after' : Machine} :
      Outcome.Parallel J pairing machine other (.stuck after) (.stuck after')
  | outOfFuel : Outcome.Parallel J pairing machine other .outOfFuel .outOfFuel

/-- What a later run has come to, seen from earlier machines. -/
theorem Outcome.Parallel.since {α : Type} {pairing later : Nat → Nat → Prop}
    {machine other after after' : Machine} {outcome outcome' : Outcome α}
    (h : outcome.Parallel J later after after' outcome')
    (hwidens : (machine.beside other pairing).Widens (after.beside after' later))
    (hcurrent : after.current = machine.current) (hcurrent' : after'.current = other.current) :
    outcome.Parallel J pairing machine other outcome' := by
  cases h with
  | done hlater hafter hsame hsame' =>
    exact .done (hwidens.trans hlater) hafter (hsame.trans hcurrent) (hsame'.trans hcurrent')
  | failed htoken hfault hlater hafter hsame hsame' =>
    exact .failed htoken hfault (hwidens.trans hlater) hafter (hsame.trans hcurrent)
      (hsame'.trans hcurrent')
  | stuck => exact .stuck
  | outOfFuel => exact .outOfFuel

/-- From machines side by side, in scopes with these layers around, the runs go side by side. -/
def RunParallel (J : Joint) (layers : List Layer) {α : Type} (run run' : Run α) : Prop :=
  ∀ pairing machine other, Machine.Parallel J pairing machine other →
    (machine.beside other pairing).Chains layers machine.current other.current →
    (run machine).Parallel J pairing machine other (run' other)

section

variable {α β : Type} {pairing : Nat → Nat → Prop} {machine other : Machine}

theorem Machine.Parallel.done (h : Machine.Parallel J pairing machine other) (value : α) :
    Outcome.Parallel J pairing machine other (.done value machine) (.done value other) :=
  .done (.refl _) h rfl rfl

theorem Machine.Parallel.failed (h : Machine.Parallel J pairing machine other)
    {token token' : Token} (htoken : token.Alike token') (fault : RuntimeFault) :
    Outcome.Parallel J pairing machine other (.failed ⟨token, fault⟩ machine : Outcome α)
      (.failed ⟨token', fault⟩ other) :=
  .failed htoken rfl (.refl _) h rfl rfl

theorem Outcome.Parallel.bind {first first' : Run α} {next next' : α → Run β}
    (hfirst : (first machine).Parallel J pairing machine other (first' other))
    (hnext : ∀ {later : Nat → Nat → Prop} {after after' : Machine} (value : α),
      (machine.beside other pairing).Widens (after.beside after' later) →
      Machine.Parallel J later after after' → after.current = machine.current →
      after'.current = other.current →
      (next value after).Parallel J later after after' (next' value after')) :
    ((first >>= next) machine).Parallel J pairing machine other ((first' >>= next') other) := by
  change (Run.bind first next machine).Parallel J pairing machine other
    (Run.bind first' next' other)
  unfold Run.bind
  generalize first machine = outcome at hfirst
  generalize first' other = outcome' at hfirst
  cases hfirst with
  | done hwidens hafter hcurrent hcurrent' =>
    exact (hnext _ hwidens hafter hcurrent hcurrent').since hwidens hcurrent hcurrent'
  | failed htoken hfault hwidens hafter hcurrent hcurrent' =>
    exact .failed htoken hfault hwidens hafter hcurrent hcurrent'
  | stuck => exact .stuck
  | outOfFuel => exact .outOfFuel

/-- A scope that only the first side enters. -/
theorem Outcome.Parallel.withinLeft {body body' : Run α} {scope : Nat}
    (h : (body { machine with current := scope }).Parallel J pairing
      { machine with current := scope } other (body' other)) :
    (Run.within scope body machine).Parallel J pairing machine other (body' other) := by
  unfold Run.within
  simp only
  generalize body { machine with current := scope } = outcome at h
  generalize body' other = outcome' at h
  cases h with
  | done hwidens hafter _ hcurrent' =>
    exact .done hwidens { hafter with } rfl hcurrent'
  | failed htoken hfault hwidens hafter _ hcurrent' =>
    exact .failed htoken hfault hwidens { hafter with } rfl hcurrent'
  | stuck => exact .stuck
  | outOfFuel => exact .outOfFuel

/-- A scope that only the second side enters. -/
theorem Outcome.Parallel.withinRight {body body' : Run α} {scope' : Nat}
    (h : (body machine).Parallel J pairing machine { other with current := scope' }
      (body' { other with current := scope' })) :
    (body machine).Parallel J pairing machine other (Run.within scope' body' other) := by
  unfold Run.within
  simp only
  generalize body machine = outcome at h
  generalize body' { other with current := scope' } = outcome' at h
  cases h with
  | done hwidens hafter hcurrent _ =>
    exact .done hwidens { hafter with } hcurrent rfl
  | failed htoken hfault hwidens hafter hcurrent _ =>
    exact .failed htoken hfault hwidens { hafter with } hcurrent rfl
  | stuck => exact .stuck
  | outOfFuel => exact .outOfFuel

theorem Outcome.Parallel.within {body body' : Run α} {scope scope' : Nat}
    (h : (body { machine with current := scope }).Parallel J pairing
      { machine with current := scope } { other with current := scope' }
      (body' { other with current := scope' })) :
    (Run.within scope body machine).Parallel J pairing machine other
      (Run.within scope' body' other) :=
  h.withinRight.withinLeft

namespace RunParallel

variable {layers : List Layer}

theorem bind {first first' : Run α} {next next' : α → Run β}
    (hfirst : RunParallel J layers first first')
    (hnext : ∀ value, RunParallel J layers (next value) (next' value)) :
    RunParallel J layers (first >>= next) (first' >>= next') := by
  intro pairing machine other hmachine hchains
  refine (hfirst pairing machine other hmachine hchains).bind
    fun value hwidens hafter hcurrent hcurrent' => hnext value _ _ _ hafter ?_
  rw [hcurrent, hcurrent']
  exact hchains.mono hwidens

theorem pure (value : α) : RunParallel J layers (Pure.pure value) (Pure.pure value) :=
  fun _ _ _ hmachine _ => hmachine.done value

theorem fail {token token' : Token} (htoken : token.Alike token') (fault : RuntimeFault) :
    RunParallel J layers (Run.fail token fault : Run α) (Run.fail token' fault) :=
  fun _ _ _ hmachine _ => hmachine.failed htoken fault

theorem lift {token token' : Token} (htoken : token.Alike token')
    (result : Except RuntimeFault α) :
    RunParallel J layers (Run.lift token result) (Run.lift token' result) := by
  cases result with
  | ok value => exact .pure value
  | error fault => exact .fail htoken fault

theorem stuck : RunParallel J layers (Run.stuck : Run α) Run.stuck := fun _ _ _ _ _ => .stuck

theorem outOfFuel : RunParallel J layers (Run.outOfFuel : Run α) Run.outOfFuel :=
  fun _ _ _ _ _ => .outOfFuel

theorem ite {p : Prop} [Decidable p] {yes yes' no no' : Run α}
    (hyes : RunParallel J layers yes yes') (hno : RunParallel J layers no no') :
    RunParallel J layers (if p then yes else no) (if p then yes' else no') := by
  split
  · exact hyes
  · exact hno

/-- What is changed apart from the scopes is the same on both sides. -/
theorem modify {change : Machine → Machine}
    (h : ∀ pairing machine other, Machine.Parallel J pairing machine other →
      Machine.Parallel J pairing (change machine) (change other))
    (hscopes : ∀ machine, (change machine).scopes = machine.scopes)
    (hcurrent : ∀ machine, (change machine).current = machine.current) :
    RunParallel J layers (Run.modify change) (Run.modify change) := by
  intro pairing machine other hmachine _
  refine .done ?_ (h pairing machine other hmachine) (hcurrent machine) (hcurrent other)
  rw [Machine.beside, Machine.beside, hscopes, hscopes]
  exact .refl _

end RunParallel

end

end Moth
