import Moth.Eval.Reference
/-!
# Objects

Properties of instances, methods and where they are found, and the making of classes.
-/

namespace Moth.Eval

def bindMethod (method : Closure) (self : Value) : Run Value := do
  let bound ← Run.make (·.bindThis method self)
  let id ← Run.make (·.newFunction bound)
  return .function id

/-- A field of an instance, or else a method of its class. -/
def getProperty (object : Value) (name : Token) : Run Value := fun machine =>
  match object with
  | .instance id =>
    match machine.instances[id]? with
    | none => .stuck machine
    | some entry =>
      match entry.fields.find? name.lexeme with
      | some value => .done value machine
      | none =>
        match machine.method? entry.classId name.lexeme with
        | some method => bindMethod method object machine
        | none => .failed ⟨name, .undefinedProperty name.lexeme⟩ machine
  | _ => .failed ⟨name, .noProperties⟩ machine

/-- The method of the superclass, bound to the instance that `this` is.  The scope of
`this` stands one further in than that of `super`. -/
def getSuper (keyword method : Token) : Run Value := fun machine =>
  match machine.resolution.hops? keyword with
  | none => .stuck machine
  | some hops =>
    match machine.scopes.getAt machine.current hops "super",
        machine.scopes.getAt machine.current (hops - 1) "this" with
    | .ok (.class superclass), .ok self =>
      match machine.method? superclass method.lexeme with
      | some found => bindMethod found self machine
      | none => .failed ⟨method, .undefinedProperty method.lexeme⟩ machine
    | _, _ => .stuck machine

def checkSuperclass (token : Token) : Value → Run Nat
  | .class id => pure id
  | _ => Run.fail token .superclassNotClass

/-- The methods of a class as closures in a scope; of two with one name the later stays. -/
def methodTable (scope : Nat) (methods : List FunctionDecl) : Bindings Closure :=
  methods.foldl (fun table method =>
    table.set method.name.lexeme ⟨method, scope, method.name.lexeme = "init"⟩) []

def makeClass (name : Token) (superclass : Option Nat) (methods : List FunctionDecl) : Run Nat :=
  Run.make fun machine =>
    machine.newClass ⟨name.lexeme, superclass, methodTable machine.current methods⟩

def nameClass (name : Token) (id : Nat) : Run Unit := fun machine =>
  match machine.scopes.holder? machine.current name.lexeme with
  | some found => .done () (machine.define found name.lexeme (.class id))
  | none => .failed ⟨name, .undefinedVariable name.lexeme⟩ machine

def enterSuper (above : Nat) : Run Unit := do
  let scope ← Run.make fun machine => machine.newScope machine.current
  Run.modify fun machine => { machine.define scope "super" (.class above) with current := scope }

def leaveScope : Run Unit := fun machine =>
  match machine.scopes.enclosing? machine.current with
  | some outer => .done () { machine with current := outer }
  | none => .stuck machine

/-- Declares a class.  The methods of a subclass stand in a scope that binds `super`, which
is left again by its link before the class gets its name. -/
def declareClass (name : Token) (superclass : Option Nat) (methods : List FunctionDecl) :
    Run Unit := do
  declare name .nil
  match superclass with
  | none =>
    let id ← makeClass name none methods
    nameClass name id
  | some above =>
    enterSuper above
    let id ← makeClass name (some above) methods
    leaveScope
    nameClass name id

end Moth.Eval
