import Moth.Proofs.Execution.Script
import Moth.Proofs.Scoping.Chain
/-!
# Which tasks open which scopes

A scope is made when a block is executed, when the body of a function is run, when a method is
bound to an instance, and when a class with a superclass is declared.
-/

namespace Moth

namespace Eval

/-- The task, run from the machine, binds a method to an instance, in a scope made for it. -/
inductive BindsMethod : Task → Machine → Closure → Nat → Prop where
  /-- A property that is not a field. -/
  | property {machine : Machine} {id : Nat} {entry : InstanceEntry} {name : Token}
      {method : Closure} : machine.instances[id]? = some entry →
      entry.fields.find? name.lexeme = none →
      machine.method? entry.classId name.lexeme = some method →
      BindsMethod (.property (.instance id) name) machine method
        (machine.bindThis method (.instance id)).1.scope
  | super {machine : Machine} {room hops above : Nat} {self : Value} {keyword name : Token}
      {method : Closure} : machine.resolution.hops? keyword = some hops →
      machine.scopes.getAt machine.current hops "super" = .ok (.class above) →
      machine.scopes.getAt machine.current (hops - 1) "this" = .ok self →
      machine.method? above name.lexeme = some method →
      BindsMethod (.expr room (.super keyword name)) machine method
        (machine.bindThis method self).1.scope
  /-- The initializer of a class that is called. -/
  | initializer {machine : Machine} {room id : Nat} {paren : Token} {args : List Value}
      {method : Closure} : machine.method? id "init" = some method →
      BindsMethod (.call room paren (.class id) args) machine method
        ((machine.newInstance id).2.bindThis method (.instance (machine.newInstance id).1)).1.scope

/-- The task, run from the machine, opens a scope for a site. -/
inductive Opens : Task → Machine → Site → Nat → Prop where
  | block {machine : Machine} {room : Nat} {body : List Stmt} :
      Opens (.stmt room (.block body)) machine (.block body) (machine.newScope machine.current).1
  | function {machine : Machine} {room : Nat} {closure : Closure} {args : List Value} :
      Opens (.invoke room closure args) machine (.function closure.declaration)
        (callScope closure args machine).1
  | this {task : Task} {machine : Machine} {method : Closure} {name : Token}
      {methods : List FunctionDecl} {scope : Nat} : BindsMethod task machine method scope →
      method.declaration ∈ methods → Opens task machine (.this name methods) scope
  | super {machine : Machine} {name : Token} {above : Nat} {methods : List FunctionDecl} :
      Opens (.classDef name (some above) methods) machine (.super name methods)
        ((machine.define machine.current name.lexeme .nil).newScope machine.current).1

end Eval

open Eval

def Past.Sees (past : Past) (task : Task) (machine : Machine) : Prop :=
  ∀ site scope, Opens task machine site scope → past.opened scope site

end Moth
