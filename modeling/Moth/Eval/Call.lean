import Moth.Eval.Reference
/-!
# Calls

What stands around the running of a function's body: the check of the number of
arguments, the scope of the call, and the value that the call gives.
-/

namespace Moth

inductive Completion where
  | normal
  | returned (value : Value)

namespace Eval

/-- The number of arguments that a value takes, if it can be called. -/
def arity? (machine : Machine) : Value → Option Nat
  | .native f => some f.arity
  | .function id => machine.functions[id]?.map (·.declaration.params.length)
  | .class id => some ((machine.method? id "init").elim 0 (·.declaration.params.length))
  | _ => none

def checkCall (paren : Token) (callee : Value) (count : Nat) : Run Unit := fun machine =>
  match arity? machine callee with
  | none => .failed ⟨paren, .notCallable⟩ machine
  | some arity =>
    if count = arity then .done () machine
    else .failed ⟨paren, .wrongArgumentCount arity count⟩ machine

def callScope (closure : Closure) (args : List Value) (machine : Machine) : Nat × Machine :=
  let (scope, machine) := machine.newScope closure.scope
  let pairs := closure.declaration.params.zip args
  (scope, pairs.foldl (fun machine (param, arg) => machine.define scope param.lexeme arg) machine)

/-- What a call gives when the body has completed.  An initializer gives its instance,
however it completed. -/
def callResult (closure : Closure) (completion : Completion) : Run Value := fun machine =>
  if closure.isInitializer then
    match machine.scopes.getAt closure.scope 0 "this" with
    | .ok self => .done self machine
    | .error _ => .stuck machine
  else
    match completion with
    | .returned value => .done value machine
    | .normal => .done .nil machine

def declareFunction (declaration : FunctionDecl) : Run Unit := do
  let current ← (·.current) <$> Run.get
  let id ← Run.make (·.newFunction ⟨declaration, current, false⟩)
  declare declaration.name (.function id)

end Eval

end Moth
