import Moth.Token.Basic
/-!
# Syntax trees

Expressions and statements of Moth.  Nodes keep the tokens that later stages point
at: names, operators, the closing parenthesis of a call.
-/

namespace Moth

inductive UnaryOp where
  | not | negate
deriving DecidableEq, Repr

inductive BinaryOp where
  | add | subtract | multiply | divide
  | equal | notEqual | less | lessEqual | greater | greaterEqual
deriving DecidableEq, Repr

inductive LogicalOp where
  | and | or
deriving DecidableEq, Repr

namespace UnaryOp

def symbol : UnaryOp → Symbol
  | not => .bang
  | negate => .minus

def ofKind? : Kind → Option UnaryOp
  | .symbol .bang => some not
  | .symbol .minus => some negate
  | _ => none

end UnaryOp

namespace BinaryOp

def symbol : BinaryOp → Symbol
  | add => .plus
  | subtract => .minus
  | multiply => .star
  | divide => .slash
  | equal => .equalEqual
  | notEqual => .bangEqual
  | less => .less
  | lessEqual => .lessEqual
  | greater => .greater
  | greaterEqual => .greaterEqual

/-- The operators that compare any two values. -/
def equality? : Kind → Option BinaryOp
  | .symbol .bangEqual => some notEqual
  | .symbol .equalEqual => some equal
  | _ => none

def comparison? : Kind → Option BinaryOp
  | .symbol .greater => some greater
  | .symbol .greaterEqual => some greaterEqual
  | .symbol .less => some less
  | .symbol .lessEqual => some lessEqual
  | _ => none

def term? : Kind → Option BinaryOp
  | .symbol .minus => some subtract
  | .symbol .plus => some add
  | _ => none

def factor? : Kind → Option BinaryOp
  | .symbol .slash => some divide
  | .symbol .star => some multiply
  | _ => none

end BinaryOp

namespace LogicalOp

def keyword : LogicalOp → Keyword
  | and => .and
  | or => .or

end LogicalOp

inductive Literal where
  | nil
  | bool (value : Bool)
  | number (value : Number)
  | string (value : String)
deriving DecidableEq

inductive Expr where
  | literal (value : Literal)
  | grouping (inner : Expr)
  | unary (op : UnaryOp) (mark : Token) (right : Expr)
  | binary (op : BinaryOp) (mark : Token) (left right : Expr)
  | logical (op : LogicalOp) (mark : Token) (left right : Expr)
  | ref (name : Token)
  | assign (name : Token) (value : Expr)
  | call (callee : Expr) (paren : Token) (args : List Expr)
  | get (object : Expr) (name : Token)
  | set (object : Expr) (name : Token) (value : Expr)
  | this (keyword : Token)
  | super (keyword method : Token)

structure FunctionOf (Body : Type) where
  name : Token
  params : List Token
  body : List Body

inductive Stmt where
  | expression (value : Expr)
  | print (value : Expr)
  | var (name : Token) (init : Option Expr)
  | block (body : List Stmt)
  | ifElse (condition : Expr) (yes : Stmt) (no : Option Stmt)
  | whileLoop (condition : Expr) (body : Stmt)
  | function (declaration : FunctionOf Stmt)
  | returns (keyword : Token) (value : Option Expr)
  | classDef (name : Token) (superclass : Option Token) (methods : List (FunctionOf Stmt))

abbrev FunctionDecl := FunctionOf Stmt

end Moth
