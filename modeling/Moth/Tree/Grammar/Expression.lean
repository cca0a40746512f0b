import Moth.Tree.Basic
import Moth.Tree.Rule
/-!
# The grammar of expressions

One function for each level of precedence, from tight binding to loose, in terms of
the rules one level of nesting further in (`Rules`).  A rule that reads a list takes
a bound on its length.
-/

namespace Moth

structure Rules where
  expression : Rule Expr
  unary : Rule Expr
  statement : Rule Stmt
  declaration : Rule (Option Stmt)

namespace Grammar

open Rule

/-- The operands that follow on `left`, each behind an operator. -/
def operands (operand : Rule Expr) (join? : Kind → Option (Token → Expr → Expr → Expr)) :
    Nat → Expr → Rule Expr
  | 0, left => pure left
  | bound + 1, left => do
    match ← takePicked join? with
    | none => pure left
    | some (join, mark) =>
      let right ← operand
      operands operand join? bound (join mark left right)

def leftGrouped (bound : Nat) (operand : Rule Expr)
    (join? : Kind → Option (Token → Expr → Expr → Expr)) : Rule Expr := do
  let first ← operand
  operands operand join? bound first

def binary (op? : Kind → Option BinaryOp) (kind : Kind) :
    Option (Token → Expr → Expr → Expr) :=
  (op? kind).map fun op mark left right => .binary op mark left right

def logical (op : LogicalOp) (kind : Kind) : Option (Token → Expr → Expr → Expr) :=
  if kind = .keyword op.keyword then some fun mark left right => .logical op mark left right
  else none

def literal? : Kind → Option Literal
  | .keyword .false => some (.bool false)
  | .keyword .true => some (.bool true)
  | .keyword .nil => some .nil
  | .number value => some (.number value)
  | .string value => some (.string value)
  | _ => none

def primary (inner : Rules) : Rule Expr := do
  if let some (value, _) ← takePicked literal? then
    return .literal value
  if let some keyword ← take? (.keyword .this) then
    return .this keyword
  if let some name ← take? .identifier then
    return .ref name
  if let some keyword ← take? (.keyword .super) then
    let _ ← expect (.symbol .dot) .expectSuperDot
    let method ← expect .identifier .expectSuperMethod
    return .super keyword method
  if let some _ ← take? (.symbol .leftParen) then
    let expr ← inner.expression
    let _ ← expect (.symbol .rightParen) .expectGroupEnd
    return .grouping expr
  fail .expectExpression

/-- Arguments with commas between them, behind those in `args`. -/
def arguments (inner : Rules) : Nat → Array Expr → Rule (Array Expr)
  | 0, args => pure args
  | bound + 1, args => do
    complainIf (maxArgs ≤ args.size) .tooManyArgs
    let arg ← inner.expression
    match ← take? (.symbol .comma) with
    | some _ => arguments inner bound (args.push arg)
    | none => pure (args.push arg)

def finishCall (bound : Nat) (inner : Rules) (callee : Expr) : Rule Expr := do
  let args ← orAbsent (.symbol .rightParen) #[] (arguments inner bound #[])
  let paren ← expect (.symbol .rightParen) .expectArgsEnd
  return .call callee paren args.toList

def accesses (bound : Nat) (inner : Rules) : Nat → Expr → Rule Expr
  | 0, expr => pure expr
  | steps + 1, expr => do
    if let some _ ← take? (.symbol .leftParen) then
      let next ← finishCall bound inner expr
      accesses bound inner steps next
    else if let some _ ← take? (.symbol .dot) then
      let name ← expect .identifier .expectPropertyName
      accesses bound inner steps (.get expr name)
    else
      return expr

def call (bound : Nat) (inner : Rules) : Rule Expr := do
  let expr ← primary inner
  accesses bound inner bound expr

def unary (bound : Nat) (inner : Rules) : Rule Expr := do
  match ← takePicked UnaryOp.ofKind? with
  | some (op, mark) =>
    let right ← inner.unary
    return .unary op mark right
  | none => call bound inner

def factor (bound : Nat) (inner : Rules) : Rule Expr :=
  leftGrouped bound (unary bound inner) (binary BinaryOp.factor?)

def term (bound : Nat) (inner : Rules) : Rule Expr :=
  leftGrouped bound (factor bound inner) (binary BinaryOp.term?)

def comparison (bound : Nat) (inner : Rules) : Rule Expr :=
  leftGrouped bound (term bound inner) (binary BinaryOp.comparison?)

def equality (bound : Nat) (inner : Rules) : Rule Expr :=
  leftGrouped bound (comparison bound inner) (binary BinaryOp.equality?)

def conjunction (bound : Nat) (inner : Rules) : Rule Expr :=
  leftGrouped bound (equality bound inner) (logical .and)

def disjunction (bound : Nat) (inner : Rules) : Rule Expr :=
  leftGrouped bound (conjunction bound inner) (logical .or)

/-- An assignment, or an expression without one.  A bad target is noted when the
value has been read, and the value dropped: the parser knows where it is. -/
def expression (bound : Nat) (inner : Rules) : Rule Expr := do
  let target ← disjunction bound inner
  match ← take? (.symbol .equal) with
  | none => return target
  | some mark =>
    let value ← inner.expression
    match target with
    | .ref name => return .assign name value
    | .get object name => return .set object name value
    | _ =>
      complainAt mark .invalidTarget
      return target

end Grammar

end Moth
