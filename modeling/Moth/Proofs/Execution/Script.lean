import Moth.Eval.Evaluate
/-!
# Tasks and scripts

The evaluator is cut into tasks: to evaluate an expression, to call a value, to execute a
statement.  The script of a task is what the task does before it asks for another task, and
how it goes on with the answer.  A task with fuel runs its script, and the tasks in it with
one less fuel.
-/

namespace Moth

theorem Run.bind_pure {α : Type} (run : Run α) : run >>= pure = run := by
  funext machine
  show Run.bind run Run.pure machine = run machine
  unfold Run.bind
  cases run machine <;> rfl

namespace Eval

inductive Task where
  | expr (room : Nat) (tree : Expr)
  | args (room : Nat) (trees : List Expr)
  | call (room : Nat) (paren : Token) (callee : Value) (args : List Value)
  | invoke (room : Nat) (closure : Closure) (args : List Value)
  | stmt (room : Nat) (tree : Stmt)
  | stmts (room : Nat) (body : List Stmt)
  | loop (room : Nat) (condition : Expr) (body : Stmt)
  | assign (name : Token) (value : Value)
  | property (object : Value) (name : Token)
  | classDef (name : Token) (superclass : Option Nat) (methods : List FunctionDecl)

namespace Task

abbrev Result : Task → Type
  | expr .. | call .. | invoke .. | property .. => Value
  | args .. => List Value
  | stmt .. | stmts .. | loop .. => Completion
  | assign .. | classDef .. => Unit

def run (fuel : Nat) : (task : Task) → Run task.Result
  | expr room tree => evaluate fuel room tree
  | args room trees => evaluateArgs fuel room trees
  | call room paren callee values => Eval.call fuel room paren callee values
  | invoke room closure values => Eval.invoke fuel room closure values
  | stmt room tree => execute fuel room tree
  | stmts room body => executeAll fuel room body
  | loop room condition body => repeatWhile fuel room condition body
  | assign name value => Eval.assign name value
  | property object name => getProperty object name
  | classDef name superclass methods => declareClass name superclass methods

end Task

/-- What is done on the way to a result: steps of the machine, and other tasks, which may
be run in another scope. -/
inductive Script (α : Type) : Type 1 where
  | done (value : α)
  | act {β : Type} (step : Run β) (next : β → Script α)
  | ask (task : Task) (next : task.Result → Script α)
  | within (scope : Nat) (task : Task) (next : task.Result → Script α)

def Script.exec {α : Type} (answer : (task : Task) → Run task.Result) : Script α → Run α
  | done value => pure value
  | act step next => step >>= fun value => (next value).exec answer
  | ask task next => answer task >>= fun value => (next value).exec answer
  | within scope task next =>
    Run.within scope (answer task) >>= fun value => (next value).exec answer

def closureOf (id : Nat) : Run Closure := fun machine =>
  match machine.functions[id]? with
  | some closure => .done closure machine
  | none => .stuck machine

def exprScript (room : Nat) : Expr → Script Value
  | .literal value => .done value.value
  | .grouping inner => .ask (.expr room inner) .done
  | .unary op mark right =>
    .ask (.expr room right) fun right => .act (Run.lift mark (op.apply right)) .done
  | .binary op mark left right =>
    .ask (.expr room left) fun left => .ask (.expr room right) fun right =>
      .act (Run.lift mark (op.apply left right)) .done
  | .logical op _ left right =>
    .ask (.expr room left) fun left =>
      if op.decidedBy left then .done left else .ask (.expr room right) .done
  | .ref name => .act (lookUp name) .done
  | .assign name value =>
    .ask (.expr room value) fun value => .ask (.assign name value) fun _ => .done value
  | .call callee paren args =>
    .ask (.expr room callee) fun callee => .ask (.args room args) fun args =>
      .act (checkCall paren callee args.length) fun _ =>
        match room with
        | 0 => .act (Run.fail paren .stackOverflow) .done
        | room + 1 => .ask (.call room paren callee args) .done
  | .get object name =>
    .ask (.expr room object) fun object => .ask (.property object name) .done
  | .set object name value =>
    .ask (.expr room object) fun object =>
      match object with
      | .instance id =>
        .ask (.expr room value) fun value =>
          .act (Run.modify (·.setField id name.lexeme value)) fun _ => .done value
      | _ => .act (Run.fail name .noFields) .done
  | .this keyword => .act (lookUp keyword) .done
  | .super keyword method => .act (getSuper keyword method) .done

def callScript (room : Nat) (paren : Token) (args : List Value) : Value → Script Value
  | .native f => .act (f.call paren args) .done
  | .function id => .act (closureOf id) fun closure => .ask (.invoke room closure args) .done
  | .class id =>
    .act (Run.make (·.newInstance id)) fun self => .act Run.get fun machine =>
      match machine.method? id "init" with
      | none => .done (.instance self)
      | some initializer =>
        .act (Run.make (·.bindThis initializer (.instance self))) fun bound =>
          .ask (.invoke room bound args) fun _ => .done (.instance self)
  | _ => .act Run.stuck .done

def afterNormal (next : Script Completion) : Completion → Script Completion
  | .normal => next
  | .returned value => .done (.returned value)

def stmtScript (room : Nat) : Stmt → Script Completion
  | .expression value => .ask (.expr room value) fun _ => .done .normal
  | .print value =>
    .ask (.expr room value) fun value => .act (printValue value) fun _ => .done .normal
  | .var name none => .act (declare name .nil) fun _ => .done .normal
  | .var name (some init) =>
    .ask (.expr room init) fun value => .act (declare name value) fun _ => .done .normal
  | .block body =>
    .act (Run.make fun machine => machine.newScope machine.current) fun scope =>
      .within scope (.stmts room body) .done
  | .ifElse condition yes no =>
    .ask (.expr room condition) fun condition =>
      if condition.isTruthy then .ask (.stmt room yes) .done
      else
        match no with
        | some no => .ask (.stmt room no) .done
        | none => .done .normal
  | .whileLoop condition body => .ask (.loop room condition body) .done
  | .function declaration => .act (declareFunction declaration) fun _ => .done .normal
  | .returns _ none => .done (.returned .nil)
  | .returns _ (some value) => .ask (.expr room value) fun value => .done (.returned value)
  | .classDef name none methods =>
    .ask (.classDef name none methods) fun _ => .done .normal
  | .classDef name (some superclass) methods =>
    .ask (.expr room (.ref superclass)) fun value =>
      .act (checkSuperclass superclass value) fun above =>
        .ask (.classDef name (some above) methods) fun _ => .done .normal

def Task.script : (task : Task) → Script task.Result
  | .expr room tree => exprScript room tree
  | .args _ [] => .done []
  | .args room (tree :: trees) =>
    .ask (.expr room tree) fun value => .ask (.args room trees) fun values =>
      .done (value :: values)
  | .call room paren callee values => callScript room paren values callee
  | .invoke room closure values =>
    .act (Run.make (callScope closure values)) fun scope =>
      .within scope (.stmts room closure.declaration.body) fun completion =>
        .act (callResult closure completion) .done
  | .stmt room tree => stmtScript room tree
  | .stmts _ [] => .done .normal
  | .stmts room (first :: rest) =>
    .ask (.stmt room first) (afterNormal (.ask (.stmts room rest) .done))
  | .loop room condition body =>
    .ask (.expr room condition) fun value =>
      if value.isTruthy then
        .ask (.stmt room body) (afterNormal (.ask (.loop room condition body) .done))
      else .done .normal
  | .assign name value => .act (Eval.assign name value) .done
  | .property object name => .act (getProperty object name) .done
  | .classDef name superclass methods => .act (declareClass name superclass methods) .done

theorem exprScript_exec (fuel room : Nat) (tree : Expr) :
    evaluate (fuel + 1) room tree = (exprScript room tree).exec (Task.run fuel) := by
  cases tree <;> simp only [evaluate, exprScript, Script.exec, Task.run, Run.bind_pure]
  case logical op mark left right =>
    refine congrArg (evaluate fuel room left >>= ·) (funext fun value => ?_)
    split <;> simp only [Script.exec, Task.run, Run.bind_pure]
  case call callee paren args =>
    refine congrArg (evaluate fuel room callee >>= ·) (funext fun value => ?_)
    refine congrArg (evaluateArgs fuel room args >>= ·) (funext fun values => ?_)
    refine congrArg (checkCall paren value values.length >>= ·) (funext fun _ => ?_)
    cases room <;> simp only [Script.exec, Task.run, Run.bind_pure]
  case set object name value =>
    refine congrArg (evaluate fuel room object >>= ·) (funext fun found => ?_)
    cases found <;> simp only [Script.exec, Task.run, Run.bind_pure]

theorem callScript_exec (fuel room : Nat) (paren : Token) (callee : Value) (args : List Value) :
    call (fuel + 1) room paren callee args =
      (callScript room paren args callee).exec (Task.run fuel) := by
  cases callee with
  | function id =>
    simp only [callScript, Script.exec, Run.bind_pure]
    funext machine
    show (match machine.functions[id]? with
      | some closure => invoke fuel room closure args machine
      | none => .stuck machine) = Run.bind (closureOf id) _ machine
    unfold Run.bind closureOf
    cases machine.functions[id]? <;> rfl
  | «class» id =>
    refine congrArg (Run.make (·.newInstance id) >>= ·) (funext fun self => ?_)
    refine congrArg (Run.get >>= ·) (funext fun machine => ?_)
    dsimp only
    cases machine.method? id "init" <;> rfl
  | _ => exact (Run.bind_pure _).symm

theorem stmtScript_exec (fuel room : Nat) (tree : Stmt) :
    execute (fuel + 1) room tree = (stmtScript room tree).exec (Task.run fuel) := by
  cases tree with
  | var name init => cases init <;> simp only [execute, stmtScript, Script.exec, Task.run]
  | returns keyword value =>
    cases value <;> simp only [execute, stmtScript, Script.exec, Task.run]
  | classDef name superclass methods =>
    cases superclass <;> simp only [execute, stmtScript, Script.exec, Task.run]
  | ifElse condition yes no =>
    cases no <;> simp only [execute, stmtScript, Script.exec, Task.run] <;>
      refine congrArg (evaluate fuel room condition >>= ·) (funext fun value => ?_) <;>
      cases value.isTruthy <;> simp [Script.exec, Task.run, Run.bind_pure]
  | _ => simp only [execute, stmtScript, Script.exec, Task.run, Run.bind_pure]

/-- A task with fuel runs its script, and the tasks in it with one less fuel. -/
theorem Task.run_succ (fuel : Nat) (task : Task) :
    task.run (fuel + 1) = task.script.exec (Task.run fuel) := by
  cases task with
  | expr room tree => exact exprScript_exec fuel room tree
  | args room trees =>
    cases trees <;> simp only [run, script, Script.exec, evaluateArgs]
  | call room paren callee args => exact callScript_exec fuel room paren callee args
  | invoke room closure args => simp only [run, script, Script.exec, Eval.invoke, Run.bind_pure]
  | stmt room tree => exact stmtScript_exec fuel room tree
  | stmts room body =>
    cases body with
    | nil => simp only [run, script, Script.exec, executeAll]
    | cons stmt rest =>
      simp only [run, script, Script.exec, executeAll]
      refine congrArg (execute fuel room stmt >>= ·) (funext fun completion => ?_)
      cases completion <;> simp only [afterNormal, Script.exec, run, Run.bind_pure]
  | loop room condition body =>
    simp only [run, script, Script.exec, repeatWhile]
    refine congrArg (evaluate fuel room condition >>= ·) (funext fun value => ?_)
    split
    · refine congrArg (execute fuel room body >>= ·) (funext fun completion => ?_)
      cases completion <;> simp only [afterNormal, Script.exec, run, Run.bind_pure]
    · rfl
  | assign name value => exact (Run.bind_pure _).symm
  | property object name => exact (Run.bind_pure _).symm
  | classDef name superclass methods => exact (Run.bind_pure _).symm

end Eval

end Moth
