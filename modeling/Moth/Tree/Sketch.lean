import Moth.Tree.Basic
import Moth.Text.Quoted
/-!
# Sketches of trees

Short forms of nodes for listings.  A node without a short form is written by
`plain`, from the name of its sort.
-/

namespace Moth

def Literal.sketch : Literal → String
  | nil => "None"
  | bool value => if value then "True" else "False"
  | number value => Layout.token.write value
  | string value => Text.quoted value

def Expr.sketch (plain : String → String) : Expr → String
  | .literal value => "<lit:" ++ value.sketch ++ ">"
  | .grouping _ => plain "Grouping"
  | .unary op _ right => "<" ++ op.symbol.text ++ " " ++ right.sketch plain ++ ">"
  | .binary op _ left right =>
    "<" ++ left.sketch plain ++ " " ++ op.symbol.text ++ " " ++ right.sketch plain ++ ">"
  | .logical _ _ _ _ => plain "Logical"
  | .ref name => "<ref:" ++ name.lexeme ++ ">"
  | .assign name value => "<" ++ name.lexeme ++ "=" ++ value.sketch plain ++ ">"
  | .call _ _ _ => plain "Call"
  | .get object name => "<" ++ object.sketch plain ++ "." ++ name.lexeme ++ ">"
  | .set _ _ _ => plain "Set"
  | .this _ => "<this>"
  | .super _ method => "<super." ++ method.lexeme ++ ">"

def Stmt.sketch (plain : String → String) : Stmt → String
  | .expression _ => plain "Expression"
  | .print _ => plain "Print"
  | .var name _ => "\x7bvar " ++ name.lexeme ++ "\x7d"
  | .block _ => plain "Block"
  | .ifElse _ _ _ => plain "If"
  | .whileLoop _ _ => plain "While"
  | .function declaration =>
    "\x7bfn|" ++ declaration.name.lexeme ++ "(" ++
      ", ".intercalate (declaration.params.map (·.lexeme)) ++ ")\x7d"
  | .returns _ _ => plain "Return"
  | .classDef name _ _ => "\x7bclass " ++ name.lexeme ++ "\x7d"

end Moth
