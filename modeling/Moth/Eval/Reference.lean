import Moth.Eval.Run
/-!
# References

Reading, changing and declaring variables.  A reference with a link finds its variable
at the known distance from the current scope; one without is to a global.
-/

namespace Moth.Eval

/-- The value of the variable of a reference: at its known distance, or global. -/
def lookUp (name : Token) : Run Value := fun machine =>
  match machine.resolution.hops? name with
  | some hops =>
    match machine.scopes.getAt machine.current hops name.lexeme with
    | .ok value => .done value machine
    | .error _ => .stuck machine
  | none =>
    match machine.scopes.get Machine.globals name.lexeme with
    | .ok value => .done value machine
    | .error _ => .failed ⟨name, .undefinedVariable name.lexeme⟩ machine

def assign (name : Token) (value : Value) : Run Unit := fun machine =>
  match machine.resolution.hops? name with
  | some hops =>
    match machine.scopes.ancestor hops machine.current with
    | .ok (some scope) => .done () (machine.define scope name.lexeme value)
    | _ => .stuck machine
  | none =>
    match machine.scopes.holder? Machine.globals name.lexeme with
    | some scope => .done () (machine.define scope name.lexeme value)
    | none => .failed ⟨name, .undefinedVariable name.lexeme⟩ machine

def declare (name : Token) (value : Value) : Run Unit := fun machine =>
  .done () (machine.define machine.current name.lexeme value)

end Moth.Eval
