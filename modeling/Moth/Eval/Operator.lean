import Moth.Eval.Value
/-!
# Operators

What can go wrong when a program runs, and what the operators do with values.
-/

namespace Moth

inductive RuntimeFault where
  | operandNotNumber
  | operandsNotNumbers
  | operandsNotAddable
  | undefinedVariable (name : String)
  | notCallable
  | wrongArgumentCount (expected got : Nat)
  | stackOverflow
  | noProperties
  | noFields
  | undefinedProperty (name : String)
  | superclassNotClass
  | promptNotString
  | numeralNotString
  | fromNotNumber
  | toNotNumber
  | invalidRange
deriving DecidableEq, Repr

def RuntimeFault.message : RuntimeFault → String
  | operandNotNumber => "Operand must be a number."
  | operandsNotNumbers => "Operands must be numbers."
  | operandsNotAddable => "Operands must be two numbers or two strings."
  | undefinedVariable name => "Undefined variable '" ++ name ++ "'."
  | notCallable => "Can only call functions and classes."
  | wrongArgumentCount expected got =>
    "Expected " ++ toString expected ++ " arguments but got " ++ toString got ++ "."
  | stackOverflow => "Stack overflow."
  | noProperties => "Only instances have properties."
  | noFields => "Only instances have fields."
  | undefinedProperty name => "Undefined property '" ++ name ++ "'."
  | superclassNotClass => "Superclass must be a class."
  | promptNotString => "Argument to 'input' must be a string."
  | numeralNotString => "Argument to 'stringToNum' must be a string."
  | fromNotNumber => "'from' must be a number."
  | toNotNumber => "'to' must be a number."
  | invalidRange => "Invalid range for randomNum."

def UnaryOp.apply : UnaryOp → Value → Except RuntimeFault Value
  | not, value => .ok (.bool !value.isTruthy)
  | negate, .number x => .ok (.number (-x))
  | negate, _ => .error .operandNotNumber

def onNumbers (result : Number → Number → Value) : Value → Value → Except RuntimeFault Value
  | .number x, .number y => .ok (result x y)
  | _, _ => .error .operandsNotNumbers

/-- The sum of two numbers, or two strings put together. -/
def addValues : Value → Value → Except RuntimeFault Value
  | .number x, .number y => .ok (.number (x + y))
  | .string s, .string t => .ok (.string (s ++ t))
  | _, _ => .error .operandsNotAddable

def BinaryOp.apply : BinaryOp → Value → Value → Except RuntimeFault Value
  | equal, a, b => .ok (.bool (a.same b))
  | notEqual, a, b => .ok (.bool !a.same b)
  | add, a, b => addValues a b
  | subtract, a, b => onNumbers (fun x y => .number (x - y)) a b
  | multiply, a, b => onNumbers (fun x y => .number (x * y)) a b
  | divide, a, b => onNumbers (fun x y => .number (x / y)) a b
  | less, a, b => onNumbers (fun x y => .bool (x.less y)) a b
  | lessEqual, a, b => onNumbers (fun x y => .bool (x.lessEqual y)) a b
  | greater, a, b => onNumbers (fun x y => .bool (y.less x)) a b
  | greaterEqual, a, b => onNumbers (fun x y => .bool (y.lessEqual x)) a b

def LogicalOp.decidedBy : LogicalOp → Value → Bool
  | or, left => left.isTruthy
  | and, left => !left.isTruthy

end Moth
