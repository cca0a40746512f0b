import Moth.Store.Bindings
import Moth.Scope.Resolution
/-!
# Resolving references

A pass over a program that finds for every reference the scope of its variable, as
the text alone decides it: a function sees the variables around its definition.
The scopes passed through form a stack, the innermost first; the global scope is
not on it.  Rules that the grammar cannot express are checked on the way.
-/

namespace Moth

inductive ResolveFault where
  | alreadyDeclared
  | readInOwnInitializer
  | returnOutside
  | returnFromInitializer
  | inheritFromItself
  | thisOutside
  | superOutside
  | superWithoutSuperclass
deriving DecidableEq, Repr

def ResolveFault.message : ResolveFault → String
  | alreadyDeclared => "Already a variable with this name in this scope."
  | readInOwnInitializer => "Can't read local variable in its own initializer."
  | returnOutside => "Can't return from top-level code."
  | returnFromInitializer => "Can't return a value from an initializer."
  | inheritFromItself => "A class can't inherit from itself."
  | thisOutside => "Can't use 'this' outside of a class."
  | superOutside => "Can't use 'super' outside of a class."
  | superWithoutSuperclass => "Can't use 'super' in a class with no superclass."

structure ResolveComplaint where
  token : Token
  fault : ResolveFault

inductive FunctionContext where
  | outside | function | method | initializer
deriving DecidableEq, Repr

inductive ClassContext where
  | outside | plain | subclass
deriving DecidableEq, Repr

structure Context where
  function : FunctionContext
  inClass : ClassContext
deriving DecidableEq, Repr

def Context.topLevel : Context := ⟨.outside, .outside⟩

/-- The names of a scope, each with whether its declaration is finished. -/
abbrev StaticScope := Bindings Bool

/-- The scopes around the place reached, the links found, and the complaints. -/
structure Resolver where
  scopes : List StaticScope
  links : Array Link
  complaints : Array ResolveComplaint

namespace Resolver

def start : Resolver := ⟨[], #[], #[]⟩

def complain (r : Resolver) (token : Token) (fault : ResolveFault) : Resolver :=
  { r with complaints := r.complaints.push ⟨token, fault⟩ }

def enter (r : Resolver) (names : List String) : Resolver :=
  { r with scopes := (names.map fun name => (name, true)) :: r.scopes }

def leave (r : Resolver) : Resolver := { r with scopes := r.scopes.tail }

/-- Whether the innermost scope knows a name, and if so whether it is finished. -/
def innermost? (r : Resolver) (name : String) : Option Bool :=
  match r.scopes with
  | [] => none
  | scope :: _ => scope.find? name

def setInnermost (r : Resolver) (name : String) (finished : Bool) : Resolver :=
  match r.scopes with
  | [] => r
  | scope :: outer => { r with scopes := scope.set name finished :: outer }

def declare (r : Resolver) (name : Token) : Resolver :=
  let r := if (r.innermost? name.lexeme).isSome then r.complain name .alreadyDeclared else r
  r.setInnermost name.lexeme false

def define (r : Resolver) (name : Token) : Resolver := r.setInnermost name.lexeme true

/-- Links a reference to the nearest scope with the name, if there is one. -/
def link (r : Resolver) (sort : ReferenceSort) (token : Token) (name : String) : Resolver :=
  match r.scopes.findIdx? (·.binds name) with
  | some hops => { r with links := r.links.push ⟨sort, token, hops⟩ }
  | none => r

def reads (r : Resolver) (name : Token) : Resolver :=
  let r := if r.innermost? name.lexeme = some false then
      r.complain name .readInOwnInitializer
    else r
  r.link .read name name.lexeme

end Resolver

mutual

def Expr.resolve (context : Context) : Expr → Resolver → Resolver
  | .literal _, r => r
  | .grouping inner, r => inner.resolve context r
  | .unary _ _ right, r => right.resolve context r
  | .binary _ _ left right, r => right.resolve context (left.resolve context r)
  | .logical _ _ left right, r => right.resolve context (left.resolve context r)
  | .ref name, r => r.reads name
  | .assign name value, r => (value.resolve context r).link .assign name name.lexeme
  | .call callee _ args, r => resolveArgs context args (callee.resolve context r)
  | .get object _, r => object.resolve context r
  | .set object _ value, r => object.resolve context (value.resolve context r)
  | .this keyword, r =>
    match context.inClass with
    | .outside => r.complain keyword .thisOutside
    | .plain | .subclass => r.link .this keyword "this"
  | .super keyword _, r =>
    let r := match context.inClass with
      | .outside => r.complain keyword .superOutside
      | .plain => r.complain keyword .superWithoutSuperclass
      | .subclass => r
    r.link .super keyword "super"

def resolveArgs (context : Context) : List Expr → Resolver → Resolver
  | [], r => r
  | arg :: args, r => resolveArgs context args (arg.resolve context r)

end

def methodContext (name : Token) : FunctionContext :=
  if name.lexeme = "init" then .initializer else .method

def resolveReturn (context : Context) (keyword : Token) (value : Option Expr)
    (r : Resolver) : Resolver :=
  let r := if context.function = .outside then r.complain keyword .returnOutside else r
  match value with
  | none => r
  | some value =>
    let r := if context.function = .initializer then
        r.complain keyword .returnFromInitializer
      else r
    value.resolve context r

/-- The superclass of a class, which is read in the scope around the class. -/
def resolveSuperclass (name superclass : Token) (r : Resolver) : Resolver :=
  let r := if superclass.lexeme = name.lexeme then
      r.complain superclass .inheritFromItself
    else r
  r.reads superclass

mutual

def Stmt.resolve (context : Context) : Stmt → Resolver → Resolver
  | .expression value, r => value.resolve context r
  | .print value, r => value.resolve context r
  | .var name none, r => (r.declare name).define name
  | .var name (some init), r => (init.resolve context (r.declare name)).define name
  | .block body, r => (resolveAll context body (r.enter [])).leave
  | .ifElse condition yes no, r =>
    resolveElse context no (yes.resolve context (condition.resolve context r))
  | .whileLoop condition body, r => body.resolve context (condition.resolve context r)
  | .function declaration, r =>
    let r := (r.declare declaration.name).define declaration.name
    resolveFunction { context with function := .function } declaration r
  | .returns keyword value, r => resolveReturn context keyword value r
  | .classDef name none methods, r =>
    let r := (r.declare name).define name
    (resolveMethods .plain methods (r.enter ["this"])).leave
  | .classDef name (some superclass) methods, r =>
    let r := resolveSuperclass name superclass ((r.declare name).define name)
    (resolveMethods .subclass methods ((r.enter ["super"]).enter ["this"])).leave.leave

def resolveElse (context : Context) : Option Stmt → Resolver → Resolver
  | none, r => r
  | some no, r => no.resolve context r

def resolveAll (context : Context) : List Stmt → Resolver → Resolver
  | [], r => r
  | first :: rest, r => resolveAll context rest (first.resolve context r)

/-- A function's parameters and body, which share one scope. -/
def resolveFunction (context : Context) : FunctionDecl → Resolver → Resolver
  | ⟨_, params, body⟩, r =>
    let r := params.foldl (fun r param => (r.declare param).define param) (r.enter [])
    (resolveAll context body r).leave

def resolveMethods (inClass : ClassContext) : List FunctionDecl → Resolver → Resolver
  | [], r => r
  | first :: rest, r =>
    let context := { function := methodContext first.name, inClass }
    resolveMethods inClass rest (resolveFunction context first r)

end

structure Resolved where
  resolution : Resolution
  complaints : Array ResolveComplaint

def Resolver.finish (r : Resolver) : Resolved := ⟨⟨r.links.toList⟩, r.complaints⟩

def resolveProgram (program : List Stmt) : Resolved :=
  (resolveAll .topLevel program .start).finish

end Moth
