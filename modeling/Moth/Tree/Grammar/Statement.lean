import Moth.Tree.Grammar.Expression
/-!
# The grammar of statements

Statements and declarations, and what is skipped when one of them is faulty.  There is
no for loop in the tree: `Grammar.forLoop` gives the loop that it stands for.
-/

namespace Moth

namespace Grammar

open Rule

/-- Whether a token begins a statement; skipping after an error stops before it. -/
def startsStatement : Kind → Bool
  | .keyword .«class» | .keyword .«fun» | .keyword .var | .keyword .«for»
  | .keyword .«if» | .keyword .«while» | .keyword .print | .keyword .«return» => true
  | _ => false

/-- Skips to behind a semicolon or before the start of a statement, `last` being the
token just taken. -/
def skipAfter (last : Token) : List Token → List Token
  | [] => []
  | token :: rest =>
    if last.kind = .symbol .semicolon || startsStatement token.kind then token :: rest
    else skipAfter token rest

def skip : List Token → List Token
  | [] => []
  | token :: rest => skipAfter token rest

/-- Runs a rule for a statement; if it fails the statement is left out. -/
def recover (rule : Rule Stmt) : Rule (Option Stmt) := fun cursor =>
  match rule cursor with
  | .ok stmt cursor => .ok (some stmt) cursor
  | .failed cursor => .ok none { cursor with rest := skip cursor.rest }
  | .tooDeep cursor => .tooDeep cursor

def declarations (inner : Rules) : Nat → Array Stmt → Rule (Array Stmt)
  | 0, body => pure body
  | bound + 1, body => do
    if (← sees (.symbol .rightBrace)) || (← atEnd) then
      return body
    match ← inner.declaration with
    | some stmt => declarations inner bound (body.push stmt)
    | none => declarations inner bound body

def block (bound : Nat) (inner : Rules) : Rule (List Stmt) := do
  let body ← declarations inner bound #[]
  let _ ← expect (.symbol .rightBrace) .expectBlockEnd
  return body.toList

def expressionStatement (expression : Rule Expr) : Rule Stmt := do
  let value ← expression
  let _ ← expect (.symbol .semicolon) .expectExpressionEnd
  return .expression value

def varDeclaration (expression : Rule Expr) : Rule Stmt := do
  let name ← expect .identifier .expectVariableName
  let init ← behind (.symbol .equal) expression
  let _ ← expect (.symbol .semicolon) .expectVariableEnd
  return .var name init

/-- The loop that a for statement stands for: the initializer once, in a scope around
the loop, and the increment behind the body. -/
def forLoop (init : Option Stmt) (condition increment : Option Expr) (body : Stmt) : Stmt :=
  let body := match increment with
    | some increment => .block [body, .expression increment]
    | none => body
  let loop := .whileLoop (condition.getD (.literal (.bool true))) body
  match init with
  | some init => .block [init, loop]
  | none => loop

def expressionUnless (kind : Kind) (expression : Rule Expr) : Rule (Option Expr) :=
  orAbsent kind none (some <$> expression)

def forInitializer (expression : Rule Expr) : Rule (Option Stmt) := do
  if let some _ ← take? (.symbol .semicolon) then
    return none
  else if let some _ ← take? (.keyword .var) then
    some <$> varDeclaration expression
  else
    some <$> expressionStatement expression

def forStatement (expression : Rule Expr) (body : Rule Stmt) : Rule Stmt := do
  let _ ← expect (.symbol .leftParen) .expectForClauses
  let init ← forInitializer expression
  let condition ← expressionUnless (.symbol .semicolon) expression
  let _ ← expect (.symbol .semicolon) .expectConditionEnd
  let increment ← expressionUnless (.symbol .rightParen) expression
  let _ ← expect (.symbol .rightParen) .expectForClausesEnd
  let body ← body
  return forLoop init condition increment body

def ifStatement (expression : Rule Expr) (branch : Rule Stmt) : Rule Stmt := do
  let _ ← expect (.symbol .leftParen) .expectIfCondition
  let condition ← expression
  let _ ← expect (.symbol .rightParen) .expectIfConditionEnd
  let yes ← branch
  let no ← behind (.keyword .«else») branch
  return .ifElse condition yes no

def whileStatement (expression : Rule Expr) (body : Rule Stmt) : Rule Stmt := do
  let _ ← expect (.symbol .leftParen) .expectWhileCondition
  let condition ← expression
  let _ ← expect (.symbol .rightParen) .expectWhileConditionEnd
  let body ← body
  return .whileLoop condition body

def printStatement (expression : Rule Expr) : Rule Stmt := do
  let value ← expression
  let _ ← expect (.symbol .semicolon) .expectPrintEnd
  return .print value

def returnStatement (keyword : Token) (expression : Rule Expr) : Rule Stmt := do
  let value ← expressionUnless (.symbol .semicolon) expression
  let _ ← expect (.symbol .semicolon) .expectReturnEnd
  return .returns keyword value

def statement (bound : Nat) (inner : Rules) : Rule Stmt := do
  if let some _ ← take? (.keyword .«for») then
    forStatement (expression bound inner) inner.statement
  else if let some _ ← take? (.keyword .«if») then
    ifStatement (expression bound inner) inner.statement
  else if let some _ ← take? (.keyword .print) then
    printStatement (expression bound inner)
  else if let some keyword ← take? (.keyword .«return») then
    returnStatement keyword (expression bound inner)
  else if let some _ ← take? (.keyword .«while») then
    whileStatement (expression bound inner) inner.statement
  else if let some _ ← take? (.symbol .leftBrace) then
    .block <$> block bound inner
  else
    expressionStatement (expression bound inner)

def parameters : Nat → Array Token → Rule (Array Token)
  | 0, params => pure params
  | bound + 1, params => do
    complainIf (maxArgs ≤ params.size) .tooManyParams
    let param ← expect .identifier .expectParamName
    match ← take? (.symbol .comma) with
    | some _ => parameters bound (params.push param)
    | none => pure (params.push param)

def function (bound : Nat) (inner : Rules) (sort : FunctionSort) : Rule FunctionDecl := do
  let name ← expect .identifier (.expectName sort)
  let _ ← expect (.symbol .leftParen) (.expectParams sort)
  let params ← orAbsent (.symbol .rightParen) #[] (parameters bound #[])
  let _ ← expect (.symbol .rightParen) .expectParamsEnd
  let _ ← expect (.symbol .leftBrace) (.expectBody sort)
  let body ← block bound inner
  return { name, params := params.toList, body }

def methods (bound : Nat) (inner : Rules) :
    Nat → Array FunctionDecl → Rule (Array FunctionDecl)
  | 0, found => pure found
  | steps + 1, found => do
    if (← sees (.symbol .rightBrace)) || (← atEnd) then
      return found
    let method ← function bound inner .method
    methods bound inner steps (found.push method)

def classDeclaration (bound : Nat) (inner : Rules) : Rule Stmt := do
  let name ← expect .identifier .expectClassName
  let superclass ← behind (.symbol .less) (expect .identifier .expectSuperclassName)
  let _ ← expect (.symbol .leftBrace) .expectClassBody
  let methods ← methods bound inner bound #[]
  let _ ← expect (.symbol .rightBrace) .expectClassEnd
  return .classDef name superclass methods.toList

def declaration (bound : Nat) (inner : Rules) : Rule (Option Stmt) := recover do
  if let some _ ← take? (.keyword .«class») then
    classDeclaration bound inner
  else if let some _ ← take? (.keyword .«fun») then
    .function <$> function bound inner .function
  else if let some _ ← take? (.keyword .var) then
    varDeclaration (expression bound inner)
  else
    statement bound inner

end Grammar

end Moth
