import Moth.Tree.Basic
/-!
# Rendering trees as program text

The text has parentheses around everything compound, so reading it back gives a
tree that means the same.  Statements stand one to a line, indented by the depth
of their block.
-/

namespace Moth

def joinWith (separator : String) : List String → String
  | [] => ""
  | [text] => text
  | text :: rest => text ++ separator ++ joinWith separator rest

def Literal.render : Literal → String
  | nil => "nil"
  | bool value => if value then "true" else "false"
  | number value => Layout.source.write value
  | string value => "\"" ++ value ++ "\""

def spaced (left operator right : String) : String :=
  "(" ++ left ++ " " ++ operator ++ " " ++ right ++ ")"

mutual

def Expr.render : Expr → String
  | .literal value => value.render
  | .grouping inner => inner.render
  | .unary op _ right => "(" ++ op.symbol.text ++ right.render ++ ")"
  | .binary op _ left right => spaced left.render op.symbol.text right.render
  | .logical op _ left right => spaced left.render op.keyword.text right.render
  | .ref name => name.lexeme
  | .assign name value => spaced name.lexeme "=" value.render
  | .call callee _ args => callee.render ++ "(" ++ joinWith ", " (renderArgs args) ++ ")"
  | .get object name => object.render ++ "." ++ name.lexeme
  | .set object name value =>
    spaced (object.render ++ "." ++ name.lexeme) "=" value.render
  | .this _ => "this"
  | .super _ method => "super." ++ method.lexeme

def renderArgs : List Expr → List String
  | [] => []
  | arg :: args => arg.render :: renderArgs args

end

def indent (depth : Nat) : String := String.ofList (List.replicate (4 * depth) ' ')

/-- Lines between braces, one step further in than the braces. -/
def braced (depth : Nat) (lines : List String) : String :=
  if lines.isEmpty then "\x7b\x7d"
  else "\x7b\n" ++ joinWith "\n" (lines.map fun line => indent (depth + 1) ++ line) ++
    "\n" ++ indent depth ++ "\x7d"

mutual

def Stmt.render (depth : Nat) : Stmt → String
  | .expression value => value.render ++ ";"
  | .print value => "print " ++ value.render ++ ";"
  | .var name none => "var " ++ name.lexeme ++ ";"
  | .var name (some init) => "var " ++ name.lexeme ++ " = " ++ init.render ++ ";"
  | .block body => braced depth (renderAll (depth + 1) body)
  | .ifElse condition yes no =>
    "if (" ++ condition.render ++ ") " ++ yes.render depth ++ renderElse depth no
  | .whileLoop condition body => "while (" ++ condition.render ++ ") " ++ body.render depth
  | .function declaration => "fun " ++ renderFunction depth declaration
  | .returns _ none => "return;"
  | .returns _ (some value) => "return " ++ value.render ++ ";"
  | .classDef name superclass methods =>
    let parent := match superclass with
      | none => ""
      | some parent => " < " ++ parent.lexeme
    "class " ++ name.lexeme ++ parent ++ " " ++
      braced depth (renderMethods (depth + 1) methods)

def renderElse (depth : Nat) : Option Stmt → String
  | none => ""
  | some no => " else " ++ no.render depth

def renderAll (depth : Nat) : List Stmt → List String
  | [] => []
  | first :: rest => first.render depth :: renderAll depth rest

def renderFunction (depth : Nat) : FunctionDecl → String
  | ⟨name, params, body⟩ =>
    name.lexeme ++ "(" ++ joinWith ", " (params.map (·.lexeme)) ++ ") " ++
      braced depth (renderAll (depth + 1) body)

def renderMethods (depth : Nat) : List FunctionDecl → List String
  | [] => []
  | first :: rest => renderFunction depth first :: renderMethods depth rest

end

def renderProgram (program : List Stmt) : String :=
  joinWith "\n" (renderAll 0 program) ++ "\n"

end Moth
