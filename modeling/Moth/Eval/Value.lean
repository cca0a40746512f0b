import Moth.Tree.Basic
/-!
# Values

What expressions evaluate to.  Functions, classes and instances are known by their
numbers in a machine's tables, and are equal only to themselves.
-/

namespace Moth

inductive Native where
  | clock | input | stringToNum | randomNum
deriving DecidableEq, Repr

namespace Native

def all : List Native := [clock, input, stringToNum, randomNum]

def name : Native → String
  | clock => "clock"
  | input => "input"
  | stringToNum => "stringToNum"
  | randomNum => "randomNum"

def arity : Native → Nat
  | clock => 0
  | input => 1
  | stringToNum => 1
  | randomNum => 2

end Native

inductive Value where
  | nil
  | bool (value : Bool)
  | number (value : Number)
  | string (value : String)
  | native (function : Native)
  | function (id : Nat)
  | «class» (id : Nat)
  | «instance» (id : Nat)
deriving DecidableEq

namespace Value

/-- Only nil and false are falsey. -/
def isTruthy : Value → Bool
  | nil => false
  | bool value => value
  | _ => true

/-- Equality as programs see it.  Values of different types are never equal. -/
def same : Value → Value → Bool
  | number x, number y => x.same y
  | a, b => a = b

def typeName : Value → String
  | nil => "nil"
  | bool _ => "boolean"
  | number _ => "number"
  | string _ => "string"
  | native _ => "native"
  | function _ => "function"
  | «class» _ => "class"
  | «instance» _ => "instance"

end Value

def Literal.value : Literal → Value
  | nil => .nil
  | bool value => .bool value
  | number value => .number value
  | string value => .string value

end Moth
