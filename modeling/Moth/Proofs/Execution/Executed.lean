import Moth.Proofs.Execution.Code
/-!
# The statements that a body executes itself

A body executes its own statements: those of its blocks, branches and loops, but not those of
the functions it calls.  If it completes normally it has executed no `return`; if it returns, it
has executed one, as the last of its statements, and completes with the value of that one.
-/

namespace Moth

def Stmt.IsReturn (stmt : Stmt) : Prop := ∃ keyword value, stmt = .returns keyword value

namespace Eval

def Task.isBody : Task → Bool
  | stmt .. | stmts .. | loop .. => true
  | _ => false

def Task.statement? : Task → Option Stmt
  | stmt _ tree => some tree
  | _ => none

/-- The statements that a task executes itself, in order, each with the machine it is executed
from.  Calls are left out. -/
def executed : Nat → Task → Machine → List (Stmt × Machine)
  | 0, _, _ => []
  | fuel + 1, task, machine =>
    (task.statement?.map fun stmt => (stmt, machine)).toList ++
      (task.script.reached (Task.run fuel) machine).flatMap fun (task, there) =>
        if task.isBody then executed fuel task there else []

/-! ## Scripts that end -/

section

variable {α β : Type} {answer : (task : Task) → Run task.Result} {machine after : Machine}
  {value : α}

theorem Run.bind_done {run : Run β} {next : β → Run α}
    (h : (run >>= next) machine = .done value after) :
    ∃ found between, run machine = .done found between ∧
      next found between = .done value after := by
  change Run.bind run next machine = .done value after at h
  unfold Run.bind at h
  split at h
  · next found between hrun => exact ⟨found, between, hrun, h⟩
  · cases h
  · cases h
  · cases h

theorem Script.ended_act {step : Run β} {next : β → Script α}
    (h : (Script.act step next).exec answer machine = .done value after) :
    ∃ found between, step machine = .done found between ∧
      (next found).exec answer between = .done value after ∧
      (Script.act step next).reached answer machine = (next found).reached answer between := by
  obtain ⟨found, between, hstep, hnext⟩ := Run.bind_done h
  exact ⟨found, between, hstep, hnext, by rw [reached, hstep]⟩

theorem Script.ended_ask {task : Task} {next : task.Result → Script α}
    (h : (Script.ask task next).exec answer machine = .done value after) :
    ∃ found between, answer task machine = .done found between ∧
      (next found).exec answer between = .done value after ∧
      (Script.ask task next).reached answer machine =
        (task, machine) :: (next found).reached answer between := by
  obtain ⟨found, between, hanswer, hnext⟩ := Run.bind_done h
  exact ⟨found, between, hanswer, hnext, by rw [reached, hanswer]⟩

theorem Script.ended_within {scope : Nat} {task : Task} {next : task.Result → Script α}
    (h : (Script.within scope task next).exec answer machine = .done value after) :
    ∃ found between, answer task { machine with current := scope } = .done found between ∧
      (next found).exec answer { between with current := machine.current } = .done value after ∧
      (Script.within scope task next).reached answer machine =
        (task, { machine with current := scope }) ::
          (next found).reached answer { between with current := machine.current } := by
  obtain ⟨found, between, hwithin, hnext⟩ := Run.bind_done h
  have hreached : (Script.within scope task next).reached answer machine =
      (task, { machine with current := scope }) :: (next found).reached answer between := by
    rw [reached, hwithin]
  rw [Run.within_eq] at hwithin
  cases hanswer : answer task { machine with current := scope } with
  | done found' between' =>
    rw [hanswer] at hwithin
    cases hwithin
    exact ⟨found, between', rfl, hnext, hreached⟩
  | failed | stuck | outOfFuel =>
    rw [hanswer] at hwithin
    cases hwithin

end

/-! ## How bodies complete -/

def Gives (room : Nat) (expr : Option Expr) (machine : Machine) (value : Value) : Prop :=
  match expr with
  | none => value = .nil
  | some expr => ∃ fuel after, evaluate fuel room expr machine = .done value after

/-- How a body completes that has executed some statements itself: normally, if there is no
`return` among them; or else the last of them is the only `return`, and the value is that of its
expression. -/
def Tallies (room : Nat) (steps : List (Stmt × Machine)) : Completion → Prop
  | .normal => ∀ step ∈ steps, ¬ step.1.IsReturn
  | .returned value => ∃ before keyword expr there,
    steps = before ++ [(.returns keyword expr, there)] ∧
      (∀ step ∈ before, ¬ step.1.IsReturn) ∧ Gives room expr there value

namespace Tallies

variable {room : Nat} {steps more : List (Stmt × Machine)} {completion : Completion}

/-- Statements after some that completed normally. -/
theorem append (hfirst : Tallies room steps .normal) (h : Tallies room more completion) :
    Tallies room (steps ++ more) completion := by
  cases completion with
  | normal => exact List.forall_mem_append.2 ⟨hfirst, h⟩
  | returned value =>
    obtain ⟨before, keyword, expr, there, rfl, hbefore, hgives⟩ := h
    exact ⟨steps ++ before, keyword, expr, there, (List.append_assoc _ _ _).symm,
      List.forall_mem_append.2 ⟨hfirst, hbefore⟩, hgives⟩

theorem nil : Tallies room [] .normal := fun _ hstep => by cases hstep

theorem single {stmt : Stmt} (h : ¬ stmt.IsReturn) (machine : Machine) :
    Tallies room [(stmt, machine)] .normal := by
  intro step hstep
  obtain rfl := List.mem_singleton.1 hstep
  exact h

/-- A statement that is not a return, and what it goes on to execute. -/
theorem cons {stmt : Stmt} (hstmt : ¬ stmt.IsReturn) (machine : Machine)
    (h : Tallies room more completion) : Tallies room ((stmt, machine) :: more) completion :=
  append (single hstmt machine) h

theorem returns {keyword : Token} {expr : Option Expr} {machine : Machine} {value : Value}
    (h : Gives room expr machine value) :
    Tallies room [(.returns keyword expr, machine)] (.returned value) :=
  ⟨[], keyword, expr, machine, rfl, by simp, h⟩

end Tallies

def executedIn (fuel : Nat) (reached : List (Task × Machine)) : List (Stmt × Machine) :=
  reached.flatMap fun (task, there) => if task.isBody then executed fuel task there else []

section

variable {fuel room : Nat} {machine after : Machine} {completion : Completion}

theorem executed_stmt (tree : Stmt) : executed (fuel + 1) (.stmt room tree) machine =
    (tree, machine) :: executedIn fuel ((stmtScript room tree).reached (Task.run fuel) machine) :=
  rfl

theorem executedIn_body {task : Task} (h : task.isBody = true) (rest : List (Task × Machine)) :
    executedIn fuel ((task, machine) :: rest) =
      executed fuel task machine ++ executedIn fuel rest := by
  rw [executedIn, List.flatMap_cons]
  simp only [h]
  rfl

theorem executedIn_other {task : Task} (h : task.isBody = false) (rest : List (Task × Machine)) :
    executedIn fuel ((task, machine) :: rest) = executedIn fuel rest := by
  rw [executedIn, List.flatMap_cons]
  simp only [h]
  rfl

def Goes (fuel room : Nat) (script : Script Completion) (machine : Machine) : Prop :=
  ∀ completion after, script.exec (Task.run fuel) machine = .done completion after →
    Tallies room (executedIn fuel (script.reached (Task.run fuel) machine)) completion

structure BodiesTally (fuel room : Nat) : Prop where
  stmt : ∀ {tree machine completion after}, execute fuel room tree machine =
    .done completion after → Tallies room (executed fuel (.stmt room tree) machine) completion
  stmts : ∀ {body machine completion after}, executeAll fuel room body machine =
    .done completion after → Tallies room (executed fuel (.stmts room body) machine) completion
  loop : ∀ {condition body machine completion after},
    repeatWhile fuel room condition body machine = .done completion after →
      Tallies room (executed fuel (.loop room condition body) machine) completion

namespace Goes

theorem normal : Goes fuel room (.done .normal) machine := by
  intro completion after h
  cases h
  exact .nil

theorem act {β : Type} {step : Run β} {next : β → Script Completion}
    (h : ∀ value between, Goes fuel room (next value) between) :
    Goes fuel room (.act step next) machine := by
  intro completion after hrun
  obtain ⟨value, between, -, hrest, hreached⟩ := Script.ended_act hrun
  rw [hreached]
  exact h value between completion after hrest

/-- A task that is no body adds nothing. -/
theorem ask {task : Task} (hother : task.isBody = false) {next : task.Result → Script Completion}
    (h : ∀ value between, Goes fuel room (next value) between) :
    Goes fuel room (.ask task next) machine := by
  intro completion after hrun
  obtain ⟨value, between, -, hrest, hreached⟩ := Script.ended_ask hrun
  rw [hreached, executedIn_other hother]
  exact h value between completion after hrest

/-- A script that ends with the completion of a body. -/
theorem last {steps : List (Stmt × Machine)} {found completion : Completion}
    {between after : Machine} (h : Tallies room steps found)
    (hdone : (Script.done found).exec (Task.run fuel) between = .done completion after) :
    Tallies room (steps ++ executedIn fuel ((Script.done found).reached (Task.run fuel) between))
      completion := by
  cases hdone
  exact (List.append_nil steps).symm ▸ h

variable (h : BodiesTally fuel room)

include h

theorem stmt (tree : Stmt) : Goes fuel room (.ask (.stmt room tree) .done) machine := by
  intro completion after hrun
  obtain ⟨found, between, hbody, hdone, hreached⟩ := Script.ended_ask hrun
  rw [hreached, executedIn_body rfl]
  exact last (h.stmt hbody) hdone

theorem loop (condition : Expr) (body : Stmt) :
    Goes fuel room (.ask (.loop room condition body) .done) machine := by
  intro completion after hrun
  obtain ⟨found, between, hbody, hdone, hreached⟩ := Script.ended_ask hrun
  rw [hreached, executedIn_body rfl]
  exact last (h.loop hbody) hdone

theorem stmts (body : List Stmt) : Goes fuel room (.ask (.stmts room body) .done) machine := by
  intro completion after hrun
  obtain ⟨found, between, hbody, hdone, hreached⟩ := Script.ended_ask hrun
  rw [hreached, executedIn_body rfl]
  exact last (h.stmts hbody) hdone

theorem within (scope : Nat) (body : List Stmt) :
    Goes fuel room (.within scope (.stmts room body) .done) machine := by
  intro completion after hrun
  obtain ⟨found, between, hbody, hdone, hreached⟩ := Script.ended_within hrun
  rw [hreached, executedIn_body rfl]
  exact last (h.stmts hbody) hdone

/-- A statement, and more only if it has completed normally. -/
theorem afterNormal (tree : Stmt) {next : Script Completion}
    (hnext : ∀ between, Goes fuel room next between) :
    Goes fuel room (.ask (.stmt room tree) (Eval.afterNormal next)) machine := by
  intro completion after hrun
  obtain ⟨found, between, hstmt, hrest, hreached⟩ := Script.ended_ask hrun
  rw [hreached, executedIn_body rfl]
  cases found with
  | normal => exact (h.stmt hstmt).append (hnext between completion after hrest)
  | returned value => exact last (h.stmt hstmt) hrest

/-- A statement other than a return completes as the statements in it do. -/
theorem stmtScript {tree : Stmt} (hstmt : ¬ tree.IsReturn) :
    Goes fuel room (stmtScript room tree) machine := by
  cases tree with
  | expression value => exact .ask rfl fun _ _ => .normal
  | print value => exact .ask rfl fun _ _ => .act fun _ _ => .normal
  | var name init =>
    cases init with
    | none => exact .act fun _ _ => .normal
    | some init => exact .ask rfl fun _ _ => .act fun _ _ => .normal
  | block body => exact .act fun scope _ => within h scope body
  | ifElse condition yes no =>
    refine .ask rfl fun value between => ?_
    split
    · exact stmt h yes
    · cases no with
      | none => exact .normal
      | some no => exact stmt h no
  | whileLoop condition body => exact loop h condition body
  | function declaration => exact .act fun _ _ => .normal
  | returns keyword value => exact absurd ⟨keyword, value, rfl⟩ hstmt
  | classDef name superclass methods =>
    cases superclass with
    | none => exact .ask rfl fun _ _ => .normal
    | some superclass =>
      exact .ask rfl fun _ _ => .act fun _ _ => .ask rfl fun _ _ => .normal

theorem stmtsScript (body : List Stmt) :
    Goes fuel room (Task.stmts room body).script machine := by
  cases body with
  | nil => exact .normal
  | cons first rest => exact afterNormal h first fun _ => stmts h rest

theorem loopScript (condition : Expr) (body : Stmt) :
    Goes fuel room (Task.loop room condition body).script machine := by
  refine .ask rfl fun value between => ?_
  split
  · exact afterNormal h body fun _ => loop h condition body
  · exact .normal

end Goes

theorem BodiesTally.succ (h : BodiesTally fuel room) : BodiesTally (fuel + 1) room where
  stmt := by
    intro tree machine completion after hrun
    have hscript : (Eval.stmtScript room tree).exec (Task.run fuel) machine =
        .done completion after := stmtScript_exec fuel room tree ▸ hrun
    rw [executed_stmt]
    by_cases hstmt : tree.IsReturn
    · obtain ⟨keyword, value, rfl⟩ := hstmt
      cases value with
      | none =>
        cases hscript
        exact .returns rfl
      | some expr =>
        obtain ⟨value, between, hvalue, hrest, hreached⟩ := Script.ended_ask hscript
        cases hrest
        rw [Eval.stmtScript, hreached]
        exact .returns ⟨fuel, _, hvalue⟩
    · exact .cons hstmt machine (Goes.stmtScript h hstmt completion after hscript)
  stmts := by
    intro body machine completion after hrun
    have hscript : (Task.stmts room body).script.exec (Task.run fuel) machine =
        .done completion after := Task.run_succ fuel (.stmts room body) ▸ hrun
    exact Goes.stmtsScript h body completion after hscript
  loop := by
    intro condition body machine completion after hrun
    have hscript : (Task.loop room condition body).script.exec (Task.run fuel) machine =
        .done completion after := Task.run_succ fuel (.loop room condition body) ▸ hrun
    exact Goes.loopScript h condition body completion after hscript

/-- Bodies complete as the statements tell that they execute themselves. -/
theorem bodiesTally (fuel room : Nat) : BodiesTally fuel room := by
  induction fuel with
  | zero => exact ⟨nofun, nofun, nofun⟩
  | succ fuel ih => exact ih.succ

/-- A body that completes normally has executed every one of its statements. -/
theorem mem_executed {body : List Stmt}
    (h : executeAll fuel room body machine = .done .normal after) :
    ∀ stmt ∈ body, ∃ there, (stmt, there) ∈ executed fuel (.stmts room body) machine := by
  induction fuel generalizing body machine with
  | zero => cases h
  | succ fuel ih =>
    cases body with
    | nil => simp
    | cons first rest =>
      have hscript : (Task.stmts room (first :: rest)).script.exec (Task.run fuel) machine =
          .done .normal after := Task.run_succ fuel (.stmts room (first :: rest)) ▸ h
      obtain ⟨found, between, hfirst, hrest, hreached⟩ := Script.ended_ask hscript
      cases found with
      | returned value => cases hrest
      | normal =>
        obtain ⟨completion, last, hrest, hdone, hreached'⟩ := Script.ended_ask hrest
        cases hdone
        have hexecuted : executed (fuel + 1) (.stmts room (first :: rest)) machine =
            executed fuel (.stmt room first) machine ++
              executed fuel (.stmts room rest) between := by
          show executedIn fuel ((Task.stmts room (first :: rest)).script.reached _ _) = _
          rw [Task.script, hreached, afterNormal, hreached', executedIn_body rfl,
            executedIn_body rfl]
          exact congrArg _ (List.append_nil _)
        rw [hexecuted]
        refine List.forall_mem_cons.2 ⟨⟨machine, List.mem_append_left _ ?_⟩, fun stmt hstmt => ?_⟩
        · cases fuel with
          | zero => cases hfirst
          | succ fuel => exact List.mem_cons_self
        · obtain ⟨there, hmem⟩ := ih hrest stmt hstmt
          exact ⟨there, List.mem_append_right _ hmem⟩

end

/-! ## Parts of bodies -/

/-- All tasks that a script may ask for, whatever the answers are. -/
def Script.Asks {α : Type} (P : Task → Prop) : Script α → Prop
  | done _ => True
  | act _ next => ∀ value, (next value).Asks P
  | ask task next => P task ∧ ∀ value, (next value).Asks P
  | within _ task next => P task ∧ ∀ value, (next value).Asks P

theorem Script.Asks.of_reaches {α : Type} {P : Task → Prop} {script : Script α}
    (h : script.Asks P) {answer : (task : Task) → Run task.Result} {task : Task}
    {machine there : Machine} (hreach : script.Reaches answer machine task there) : P task := by
  induction hreach with
  | act _ _ ih => exact ih (h _)
  | ask | within => exact h.1
  | pastAsk _ _ ih | pastWithin _ _ ih => exact ih (h.2 _)

def Task.Consists (P : Stmt → Prop) : Task → Prop
  | .stmt _ tree => P tree
  | .stmts _ body => ∀ tree ∈ body, P tree
  | .loop _ _ body => P body
  | _ => False

section

variable {P : Stmt → Prop} (hparts : ∀ tree, P tree → ∀ part ∈ tree.parts, P part)

include hparts

/-- The bodies that a statement asks for are made of its parts. -/
theorem stmtScript_asks (room : Nat) {tree : Stmt} (htree : P tree) :
    (stmtScript room tree).Asks fun task => task.isBody = true → task.Consists P := by
  have hinner := hparts tree htree
  cases tree with
  | expression value => exact ⟨nofun, fun _ => trivial⟩
  | print value => exact ⟨nofun, fun _ _ => trivial⟩
  | var name init =>
    cases init with
    | none => exact fun _ => trivial
    | some init => exact ⟨nofun, fun _ _ => trivial⟩
  | block body => exact fun _ => ⟨fun _ => hinner, fun _ => trivial⟩
  | ifElse condition yes no =>
    obtain ⟨hyes, hno⟩ := List.forall_mem_cons.1 hinner
    refine ⟨nofun, fun value => ?_⟩
    dsimp only
    split
    · exact ⟨fun _ => hyes, fun _ => trivial⟩
    · cases no with
      | none => trivial
      | some no => exact ⟨fun _ => hno no List.mem_cons_self, fun _ => trivial⟩
  | whileLoop condition body =>
    exact ⟨fun _ => hinner body List.mem_cons_self, fun _ => trivial⟩
  | function declaration => exact fun _ => trivial
  | returns keyword value =>
    cases value with
    | none => trivial
    | some value => exact ⟨nofun, fun _ => trivial⟩
  | classDef name superclass methods =>
    cases superclass with
    | none => exact ⟨nofun, fun _ => trivial⟩
    | some superclass => exact ⟨nofun, fun _ _ => ⟨nofun, fun _ => trivial⟩⟩

theorem script_asks {task : Task} (h : task.Consists P) :
    task.script.Asks fun other => other.isBody = true → other.Consists P := by
  cases task with
  | stmt room tree => exact stmtScript_asks hparts room h
  | stmts room body =>
    cases body with
    | nil => trivial
    | cons first rest =>
      obtain ⟨hfirst, hrest⟩ := List.forall_mem_cons.1 h
      refine ⟨fun _ => hfirst, fun completion => ?_⟩
      cases completion with
      | normal => exact ⟨fun _ => hrest, fun _ => trivial⟩
      | returned value => trivial
  | loop room condition body =>
    refine ⟨nofun, fun value => ?_⟩
    dsimp only
    split
    · refine ⟨fun _ => h, fun completion => ?_⟩
      cases completion with
      | normal => exact ⟨fun _ => h, fun _ => trivial⟩
      | returned value => trivial
    · trivial
  | _ => exact absurd h id

/-- What is true of a statement and of the statements right inside each is true of all that is
executed as a part of it. -/
theorem forall_executed {fuel : Nat} {task : Task} {machine : Machine} (h : task.Consists P) :
    ∀ step ∈ executed fuel task machine, P step.1 := by
  induction fuel generalizing task machine with
  | zero => simp [executed]
  | succ fuel ih =>
    rw [executed, List.forall_mem_append]
    refine ⟨fun step hstep => ?_, fun step hstep => ?_⟩
    · cases task with
      | stmt room tree =>
        obtain rfl := List.mem_singleton.1 hstep
        exact h
      | _ => cases hstep
    · obtain ⟨⟨other, there⟩, hreached, hstep⟩ := List.mem_flatMap.1 hstep
      dsimp only at hstep
      split at hstep
      · next hbody =>
        have hother := (script_asks hparts h).of_reaches (Script.reaches_of_mem hreached) hbody
        exact ih hother step hstep
      · cases hstep

end

end Eval

end Moth
