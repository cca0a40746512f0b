import Moth.Eval.Call
import Moth.Eval.Native
import Moth.Eval.Object
/-!
# Evaluation

Expressions evaluate to values; statements are executed and complete normally or
with a return.  Every call takes fuel, and calls of functions also take room: a
program whose calls nest too deeply fails with a stack overflow.
-/

namespace Moth

namespace Eval

def printValue (value : Value) : Run Unit :=
  Run.modify fun machine => machine.write (machine.display value ++ "\n")

mutual

/-- The value of an expression, with the given fuel and room for nested calls. -/
def evaluate : Nat → Nat → Expr → Run Value
  | 0, _, _ => Run.outOfFuel
  | _ + 1, _, .literal value => pure value.value
  | fuel + 1, room, .grouping inner => evaluate fuel room inner
  | fuel + 1, room, .unary op mark right => do
    let right ← evaluate fuel room right
    Run.lift mark (op.apply right)
  | fuel + 1, room, .binary op mark left right => do
    let left ← evaluate fuel room left
    let right ← evaluate fuel room right
    Run.lift mark (op.apply left right)
  | fuel + 1, room, .logical op _ left right => do
    let left ← evaluate fuel room left
    if op.decidedBy left then pure left else evaluate fuel room right
  | _ + 1, _, .ref name => lookUp name
  | fuel + 1, room, .assign name value => do
    let value ← evaluate fuel room value
    assign name value
    return value
  | fuel + 1, room, .call callee paren args => do
    let callee ← evaluate fuel room callee
    let args ← evaluateArgs fuel room args
    checkCall paren callee args.length
    match room with
    | 0 => Run.fail paren .stackOverflow
    | room + 1 => call fuel room paren callee args
  | fuel + 1, room, .get object name => do
    let object ← evaluate fuel room object
    getProperty object name
  | fuel + 1, room, .set object name value => do
    match ← evaluate fuel room object with
    | .instance id =>
      let value ← evaluate fuel room value
      Run.modify (·.setField id name.lexeme value)
      return value
    | _ => Run.fail name .noFields
  | _ + 1, _, .this keyword => lookUp keyword
  | _ + 1, _, .super keyword method => getSuper keyword method
termination_by structural fuel => fuel

def evaluateArgs : Nat → Nat → List Expr → Run (List Value)
  | 0, _, _ => Run.outOfFuel
  | _ + 1, _, [] => pure []
  | fuel + 1, room, arg :: args => do
    let value ← evaluate fuel room arg
    let values ← evaluateArgs fuel room args
    return value :: values
termination_by structural fuel => fuel

/-- Calls a value with arguments whose number has been checked.  A class makes an
instance and calls its initializer, if there is one. -/
def call : Nat → Nat → Token → Value → List Value → Run Value
  | 0, _, _, _, _ => Run.outOfFuel
  | fuel + 1, room, paren, callee, args =>
    match callee with
    | .native f => f.call paren args
    | .function id => fun machine =>
      match machine.functions[id]? with
      | some closure => invoke fuel room closure args machine
      | none => .stuck machine
    | .class id => do
      let self ← Run.make (·.newInstance id)
      match (← Run.get).method? id "init" with
      | none => return .instance self
      | some initializer =>
        let bound ← Run.make (·.bindThis initializer (.instance self))
        let _ ← invoke fuel room bound args
        return .instance self
    | _ => Run.stuck
termination_by structural fuel => fuel

def invoke : Nat → Nat → Closure → List Value → Run Value
  | 0, _, _, _ => Run.outOfFuel
  | fuel + 1, room, closure, args => do
    let scope ← Run.make (callScope closure args)
    let completion ← Run.within scope (executeAll fuel room closure.declaration.body)
    callResult closure completion
termination_by structural fuel => fuel

def execute : Nat → Nat → Stmt → Run Completion
  | 0, _, _ => Run.outOfFuel
  | fuel + 1, room, .expression value => do
    let _ ← evaluate fuel room value
    return .normal
  | fuel + 1, room, .print value => do
    let value ← evaluate fuel room value
    printValue value
    return .normal
  | _ + 1, _, .var name none => do
    declare name .nil
    return .normal
  | fuel + 1, room, .var name (some init) => do
    let value ← evaluate fuel room init
    declare name value
    return .normal
  | fuel + 1, room, .block body => do
    let scope ← Run.make fun machine => machine.newScope machine.current
    Run.within scope (executeAll fuel room body)
  | fuel + 1, room, .ifElse condition yes no => do
    let condition ← evaluate fuel room condition
    if condition.isTruthy then execute fuel room yes
    else
      match no with
      | some no => execute fuel room no
      | none => return .normal
  | fuel + 1, room, .whileLoop condition body => repeatWhile fuel room condition body
  | _ + 1, _, .function declaration => do
    declareFunction declaration
    return .normal
  | _ + 1, _, .returns _ none => return .returned .nil
  | fuel + 1, room, .returns _ (some value) => do
    let value ← evaluate fuel room value
    return .returned value
  | _ + 1, _, .classDef name none methods => do
    declareClass name none methods
    return .normal
  | fuel + 1, room, .classDef name (some superclass) methods => do
    let value ← evaluate fuel room (.ref superclass)
    let above ← checkSuperclass superclass value
    declareClass name (some above) methods
    return .normal
termination_by structural fuel => fuel

/-- Executes statements up to a return. -/
def executeAll : Nat → Nat → List Stmt → Run Completion
  | 0, _, _ => Run.outOfFuel
  | _ + 1, _, [] => return .normal
  | fuel + 1, room, stmt :: rest => do
    match ← execute fuel room stmt with
    | .normal => executeAll fuel room rest
    | .returned value => return .returned value
termination_by structural fuel => fuel

def repeatWhile : Nat → Nat → Expr → Stmt → Run Completion
  | 0, _, _, _ => Run.outOfFuel
  | fuel + 1, room, condition, body => do
    let value ← evaluate fuel room condition
    if value.isTruthy then
      match ← execute fuel room body with
      | .normal => repeatWhile fuel room condition body
      | .returned value => return .returned value
    else return .normal
termination_by structural fuel => fuel

end

/-- The most calls that may be open at once, unless another limit is given.  It stands for a stack
of 10000 frames, which 600 to 900 nested calls use up. -/
def callLimit : Nat := 700

def executeUnit (fuel room : Nat) : List Stmt → Run Unit
  | [] => pure ()
  | stmt :: rest => do
    let _ ← execute fuel room stmt
    executeUnit fuel room rest

end Eval

end Moth
