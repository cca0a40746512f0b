import Moth.Tree.Render
import Moth.Proofs.Parsing.Derivation
/-!
# Bare trees

A tree without groupings, and without the places of its tokens.  Two trees that are equal
when bare differ only in how they were written, and they are rendered alike.
-/

namespace Moth

def Token.bare (token : Token) : Token := { token with line := 0, offset := 0, unit := 0 }

mutual

def Expr.bare : Expr → Expr
  | .literal value => .literal value
  | .grouping inner => inner.bare
  | .unary op mark right => .unary op mark.bare right.bare
  | .binary op mark left right => .binary op mark.bare left.bare right.bare
  | .logical op mark left right => .logical op mark.bare left.bare right.bare
  | .ref name => .ref name.bare
  | .assign name value => .assign name.bare value.bare
  | .call callee paren args => .call callee.bare paren.bare (bareArgs args)
  | .get object name => .get object.bare name.bare
  | .set object name value => .set object.bare name.bare value.bare
  | .this keyword => .this keyword.bare
  | .super keyword method => .super keyword.bare method.bare

def bareArgs : List Expr → List Expr
  | [] => []
  | arg :: args => arg.bare :: bareArgs args

end

mutual

def Stmt.bare : Stmt → Stmt
  | .expression value => .expression value.bare
  | .print value => .print value.bare
  | .var name init => .var name.bare (init.map Expr.bare)
  | .block body => .block (bareAll body)
  | .ifElse condition yes no => .ifElse condition.bare yes.bare (bareElse no)
  | .whileLoop condition body => .whileLoop condition.bare body.bare
  | .function declaration => .function (bareFunction declaration)
  | .returns keyword value => .returns keyword.bare (value.map Expr.bare)
  | .classDef name superclass methods =>
    .classDef name.bare (superclass.map Token.bare) (bareMethods methods)

def bareElse : Option Stmt → Option Stmt
  | none => none
  | some no => some no.bare

def bareAll : List Stmt → List Stmt
  | [] => []
  | first :: rest => first.bare :: bareAll rest

def bareFunction : FunctionDecl → FunctionDecl
  | ⟨name, params, body⟩ => ⟨name.bare, params.map Token.bare, bareAll body⟩

def bareMethods : List FunctionDecl → List FunctionDecl
  | [] => []
  | first :: rest => bareFunction first :: bareMethods rest

end

theorem Token.bare_eq_iff {token other : Token} :
    token.bare = other.bare ↔ token.kind = other.kind ∧ token.lexeme = other.lexeme := by
  simp [Token.bare]

theorem length_bareArgs (args : List Expr) : (bareArgs args).length = args.length := by
  induction args with
  | nil => rfl
  | cons arg args ih => rw [bareArgs, List.length_cons, List.length_cons, ih]

/-! ## Rendering -/

mutual

theorem Expr.render_bare : ∀ expr : Expr, expr.bare.render = expr.render
  | .literal value => rfl
  | .grouping inner => by rw [Expr.bare, Expr.render, inner.render_bare]
  | .unary op mark right => by rw [Expr.bare, Expr.render, Expr.render, right.render_bare]
  | .binary op mark left right => by
    rw [Expr.bare, Expr.render, Expr.render, left.render_bare, right.render_bare]
  | .logical op mark left right => by
    rw [Expr.bare, Expr.render, Expr.render, left.render_bare, right.render_bare]
  | .ref name => rfl
  | .assign name value => by
    rw [Expr.bare, Expr.render, Expr.render, value.render_bare]
    rfl
  | .call callee paren args => by
    rw [Expr.bare, Expr.render, Expr.render, callee.render_bare, renderArgs_bareArgs args]
  | .get object name => by
    rw [Expr.bare, Expr.render, Expr.render, object.render_bare]
    rfl
  | .set object name value => by
    rw [Expr.bare, Expr.render, Expr.render, object.render_bare, value.render_bare]
    rfl
  | .this keyword => rfl
  | .super keyword method => rfl

theorem renderArgs_bareArgs : ∀ args : List Expr, renderArgs (bareArgs args) = renderArgs args
  | [] => rfl
  | arg :: args => by
    rw [bareArgs, renderArgs, renderArgs, arg.render_bare, renderArgs_bareArgs args]

end

mutual

theorem Stmt.render_bare (depth : Nat) : ∀ stmt : Stmt, stmt.bare.render depth = stmt.render depth
  | .expression value => by rw [Stmt.bare, Stmt.render, Stmt.render, value.render_bare]
  | .print value => by rw [Stmt.bare, Stmt.render, Stmt.render, value.render_bare]
  | .var name none => rfl
  | .var name (some init) => by
    rw [Stmt.bare, Option.map_some, Stmt.render, Stmt.render, init.render_bare]
    rfl
  | .block body => by
    rw [Stmt.bare, Stmt.render, Stmt.render, renderAll_bareAll (depth + 1) body]
  | .ifElse condition yes no => by
    rw [Stmt.bare, Stmt.render, Stmt.render, condition.render_bare, yes.render_bare depth,
      renderElse_bareElse depth no]
  | .whileLoop condition body => by
    rw [Stmt.bare, Stmt.render, Stmt.render, condition.render_bare, body.render_bare depth]
  | .function declaration => by
    rw [Stmt.bare, Stmt.render, Stmt.render, renderFunction_bareFunction depth declaration]
  | .returns keyword none => rfl
  | .returns keyword (some value) => by
    rw [Stmt.bare, Option.map_some, Stmt.render, Stmt.render, value.render_bare]
  | .classDef name superclass methods => by
    simp only [Stmt.bare, Stmt.render, renderMethods_bareMethods (depth + 1) methods]
    cases superclass <;> rfl

theorem renderElse_bareElse (depth : Nat) :
    ∀ no : Option Stmt, renderElse depth (bareElse no) = renderElse depth no
  | none => rfl
  | some no => by rw [bareElse, renderElse, renderElse, no.render_bare depth]

theorem renderAll_bareAll (depth : Nat) :
    ∀ body : List Stmt, renderAll depth (bareAll body) = renderAll depth body
  | [] => rfl
  | first :: rest => by
    rw [bareAll, renderAll, renderAll, first.render_bare depth, renderAll_bareAll depth rest]

theorem renderFunction_bareFunction (depth : Nat) : ∀ declaration : FunctionDecl,
    renderFunction depth (bareFunction declaration) = renderFunction depth declaration
  | ⟨name, params, body⟩ => by
    rw [bareFunction, renderFunction, renderFunction, renderAll_bareAll (depth + 1) body,
      List.map_map]
    rfl

theorem renderMethods_bareMethods (depth : Nat) : ∀ methods : List FunctionDecl,
    renderMethods depth (bareMethods methods) = renderMethods depth methods
  | [] => rfl
  | first :: rest => by
    rw [bareMethods, renderMethods, renderMethods, renderFunction_bareFunction depth first,
      renderMethods_bareMethods depth rest]

end

namespace Syntax

def Nonterminal.bare : (sort : Nonterminal) → sort.Tree → sort.Tree
  | .phrase _, expr => expr.bare
  | .arguments, args | .argumentList, args => bareArgs args
  | .optional, expr => expr.map Expr.bare
  | .expressionStatement, stmt | .varDeclaration, stmt | .statement _, stmt
  | .declaration, stmt => stmt.bare
  | .initializer, init => init.map Stmt.bare
  | .declarations, body => bareAll body
  | .parameters, params | .parameterList, params => params.map Token.bare
  | .function, decl => bareFunction decl
  | .methods, decls => bareMethods decls

end Syntax

end Moth
