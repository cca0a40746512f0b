import Moth.Eval.Operator
import Moth.Scope.Resolution
import Moth.Store.Forest
/-!
# Machines

The state of a running program: the scopes, the tables of functions, classes and
instances, the current scope, and the input and output.  Scopes and table entries
are only ever added, and links between them lead to earlier ones.
-/

namespace Moth

/-- What a program can ask of the world: the time, and numbers by chance.  Both are
given by how often they have been asked for before. -/
structure World where
  clock : Nat → Number
  chance : Nat → Nat

namespace World

/-- A world whose clock begins at a time in microseconds and goes on by one with every
reading, and whose chance follows from a seed. -/
def seeded (microseconds seed : Nat) : World where
  clock n := Decimal.toNumber ⟨false, microseconds + n, -6⟩
  chance n :=
    let mixed := (seed + n + 1) * 0x9E3779B97F4A7C15 % 0x10000000000000000
    let stirred := (mixed ^^^ (mixed >>> 30)) * 0xBF58476D1CE4E5B9 % 0x10000000000000000
    stirred ^^^ (stirred >>> 27)

end World

structure Closure where
  declaration : FunctionDecl
  scope : Nat
  isInitializer : Bool

structure ClassEntry where
  name : String
  superclass : Option Nat
  methods : Bindings Closure

structure InstanceEntry where
  classId : Nat
  fields : Bindings Value

structure Machine where
  world : World
  scopes : Forest Value
  functions : Array Closure
  classes : Array ClassEntry
  instances : Array InstanceEntry
  current : Nat
  resolution : Resolution
  input : List Char
  output : String
  clockReadings : Nat
  draws : Nat

namespace Machine

def globals : Nat := 0

def initialScopes : Forest Value :=
  Native.all.foldl (fun scopes f => scopes.define globals f.name (.native f)) .single

def start (world : World) (input : List Char) : Machine where
  world
  scopes := initialScopes
  functions := #[]
  classes := #[]
  instances := #[]
  current := globals
  resolution := .empty
  input
  output := ""
  clockReadings := 0
  draws := 0

def write (machine : Machine) (text : String) : Machine :=
  { machine with output := machine.output ++ text }

def addLinks (machine : Machine) (resolution : Resolution) : Machine :=
  { machine with resolution := machine.resolution.merge resolution }

def newScope (machine : Machine) (enclosing : Nat) : Nat × Machine :=
  (machine.scopes.next, { machine with scopes := machine.scopes.child enclosing })

def define (machine : Machine) (scope : Nat) (name : String) (value : Value) : Machine :=
  { machine with scopes := machine.scopes.define scope name value }

def newFunction (machine : Machine) (closure : Closure) : Nat × Machine :=
  (machine.functions.size, { machine with functions := machine.functions.push closure })

def newClass (machine : Machine) (entry : ClassEntry) : Nat × Machine :=
  (machine.classes.size, { machine with classes := machine.classes.push entry })

def newInstance (machine : Machine) (classId : Nat) : Nat × Machine :=
  (machine.instances.size,
    { machine with instances := machine.instances.push ⟨classId, []⟩ })

def setField (machine : Machine) (id : Nat) (name : String) (value : Value) : Machine :=
  { machine with
    instances := machine.instances.modify id fun entry =>
      { entry with fields := entry.fields.set name value } }

/-- The method of a class or the nearest class above it, within a number of steps. -/
def methodWithin (classes : Array ClassEntry) (name : String) : Nat → Nat → Option Closure
  | 0, _ => none
  | steps + 1, id =>
    match classes[id]? with
    | none => none
    | some entry =>
      match entry.methods.find? name with
      | some method => some method
      | none =>
        match entry.superclass with
        | some above => methodWithin classes name steps above
        | none => none

/-- The method that a class has or inherits.  A chain is no longer than there are
classes. -/
def method? (machine : Machine) (classId : Nat) (name : String) : Option Closure :=
  methodWithin machine.classes name machine.classes.size classId

def bindThis (machine : Machine) (method : Closure) (self : Value) : Closure × Machine :=
  let (scope, machine) := machine.newScope method.scope
  ({ method with scope }, machine.define scope "this" self)

def className (machine : Machine) (id : Nat) : String := machine.classes[id]?.elim "" (·.name)

def display (machine : Machine) : Value → String
  | .nil => "nil"
  | .bool value => if value then "true" else "false"
  | .number value => Layout.value.write value
  | .string value => value
  | .native f => "<native fn " ++ f.name ++ ">"
  | .function id =>
    "<fn " ++ (machine.functions[id]?.elim "" (·.declaration.name.lexeme)) ++ ">"
  | .class id => machine.className id
  | .instance id => machine.className (machine.instances[id]?.elim 0 (·.classId)) ++ " instance"

end Machine

end Moth
