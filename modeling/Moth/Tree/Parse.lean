import Moth.Tree.Grammar.Statement
/-!
# Parsing

Recursive descent from tokens to trees.  `Rules.nested` builds the rules of the
grammar up to a number of levels, which is the limit on nesting.  After a syntax
error the rest of the statement is skipped, so that one mistake gives one complaint.
-/

namespace Moth

namespace Rules

def exhausted : Rules where
  expression := Rule.tooDeep
  unary := Rule.tooDeep
  statement := Rule.tooDeep
  declaration := Rule.tooDeep

/-- The rules around `inner`.  No list in them is longer than `bound` tokens. -/
def around (bound : Nat) (inner : Rules) : Rules where
  expression := Grammar.expression bound inner
  unary := Grammar.unary bound inner
  statement := Grammar.statement bound inner
  declaration := Grammar.declaration bound inner

def nested (bound : Nat) : Nat → Rules
  | 0 => exhausted
  | levels + 1 => around bound (nested bound levels)

end Rules

/-- The most levels of nesting in a program, unless another limit is given.  It stands for a stack
of 10000 frames, which some 660 nested parentheses, 3300 nested blocks or 9900 prefix operators
use up; here each of them is one level. -/
def nestingLimit : Nat := 1000

/-- What parsing gives: a tree, which may lack faulty parts, and the complaints. -/
structure Parsed (α : Type) where
  tree : α
  complaints : Array ParseComplaint

/-- Statements up to the end of the tokens.  Nesting that is too deep ends it early. -/
def programFrom (rules : Rules) : Nat → Array Stmt → Cursor → Parsed (List Stmt)
  | 0, body, cursor => ⟨body.toList, cursor.complaints⟩
  | bound + 1, body, cursor =>
    if cursor.rest.isEmpty then ⟨body.toList, cursor.complaints⟩
    else
      match rules.declaration cursor with
      | .ok (some stmt) next => programFrom rules bound (body.push stmt) next
      | .ok none next => programFrom rules bound body next
      | .failed next => ⟨body.toList, next.complaints⟩
      | .tooDeep next => ⟨body.toList, (next.complainAt next.peek .tooMuchNesting).complaints⟩

/-- Parses a program; statements that cannot be parsed are left out. -/
def parseProgram (tokens : List Token) (stop : Token) (levels : Nat := nestingLimit) :
    Parsed (List Stmt) :=
  let bound := tokens.length
  programFrom (Rules.nested bound levels) bound #[] ⟨tokens, stop, #[]⟩

def wholeExpression (rules : Rules) : Rule Expr := do
  let expr ← rules.expression
  if ← Rule.atEnd then return expr else Rule.fail .expectInputEnd

def parseExpression (tokens : List Token) (stop : Token) (levels : Nat := nestingLimit) :
    Parsed (Option Expr) :=
  let rules := Rules.nested tokens.length levels
  match wholeExpression rules ⟨tokens, stop, #[]⟩ with
  | .ok expr cursor => ⟨some expr, cursor.complaints⟩
  | .failed cursor => ⟨none, cursor.complaints⟩
  | .tooDeep cursor => ⟨none, (cursor.complainAt cursor.peek .tooMuchNesting).complaints⟩

end Moth
