import Moth.Scope.Resolve
/-!
# What the resolver looks at

The events of a program are the references, declarations, returns and superclasses in it, in
the order in which the resolver comes to them, each with the place where it stands.  What the
resolver links and what it complains about is read off the events one by one.
-/

namespace Moth

/-- A part of a program with a scope of its own.  A class has one for `this`, and one for
`super` around it if it has a superclass. -/
inductive Site where
  | block (body : List Stmt)
  | function (declaration : FunctionDecl)
  | this (name : Token) (methods : List FunctionDecl)
  | super (name : Token) (methods : List FunctionDecl)

def Stmt.declared? : Stmt → Option Token
  | .var name _ => some name
  | .function declaration => some declaration.name
  | .classDef name _ _ => some name
  | _ => none

def Site.declares : Site → List String
  | block body => (body.filterMap Stmt.declared?).map (·.lexeme)
  | function declaration =>
    (declaration.params ++ declaration.body.filterMap Stmt.declared?).map (·.lexeme)
  | this _ _ => ["this"]
  | super _ _ => ["super"]

/-- A site and the names that have been declared in it so far. -/
structure Frame where
  site : Site
  names : StaticScope

/-- What stands around a place: the sites from the inside out, the global scope left out. -/
structure Place where
  context : Context
  frames : List Frame

namespace Place

def top : Place := ⟨.topLevel, []⟩

def scopes (place : Place) : List StaticScope := place.frames.map (·.names)

def enter (place : Place) (site : Site) (names : List String) : Place :=
  { place with frames := ⟨site, names.map fun name => (name, true)⟩ :: place.frames }

def set (place : Place) (name : Token) (finished : Bool) : Place :=
  match place.frames with
  | [] => place
  | frame :: outer =>
    { place with
      frames := { frame with names := frame.names.set name.lexeme finished } :: outer }

def setAll (place : Place) (names : List Token) : Place :=
  names.foldl (fun place name => place.set name true) place

def after (place : Place) (stmt : Stmt) : Place :=
  match stmt.declared? with
  | some name => place.set name true
  | none => place

def afterAll (place : Place) (body : List Stmt) : Place := body.foldl after place

def innermost? (place : Place) (name : String) : Option Bool :=
  match place.frames with
  | [] => none
  | frame :: _ => frame.names.find? name

def find? (place : Place) (name : String) : Option Nat :=
  place.frames.findIdx? (·.names.binds name)

def inFunction (place : Place) (context : Context) (declaration : FunctionDecl) : Place :=
  Place.enter { place with context } (.function declaration) []

def inClass (place : Place) (name : Token) (superclass : Option Token)
    (methods : List FunctionDecl) : Place :=
  let place := place.set name true
  let place := if superclass.isSome then place.enter (.super name methods) ["super"] else place
  place.enter (.this name methods) ["this"]

end Place

structure Reference where
  sort : ReferenceSort
  token : Token
  name : String
  place : Place

namespace Reference

/-- The hops of a reference.  Outside of a class there is no `this` to look for. -/
def hops? (reference : Reference) : Option Nat :=
  match reference.sort, reference.place.context.inClass with
  | .this, .outside => none
  | _, _ => reference.place.find? reference.name

def fault? (reference : Reference) : Option ResolveFault :=
  match reference.sort, reference.place.context.inClass with
  | .read, _ =>
    if reference.place.innermost? reference.name = some false then some .readInOwnInitializer
    else none
  | .this, .outside => some .thisOutside
  | .super, .outside => some .superOutside
  | .super, .plain => some .superWithoutSuperclass
  | _, _ => none

def link? (reference : Reference) : Option Link :=
  reference.hops?.map fun hops => ⟨reference.sort, reference.token, hops⟩

end Reference

inductive Event where
  | reference (reference : Reference)
  | declaration (name : Token) (place : Place)
  | returns (keyword : Token) (withValue : Bool) (context : Context)
  /-- A class and the reference to its superclass. -/
  | inherits (name : Token) (superclass : Reference)

namespace Event

def reference? : Event → Option Reference
  | reference found => some found
  | inherits _ superclass => some superclass
  | _ => none

def link? (event : Event) : Option Link := event.reference?.bind Reference.link?

def complaint? : Event → Option ResolveComplaint
  | reference found => found.fault?.map fun fault => ⟨found.token, fault⟩
  | declaration name place =>
    if (place.innermost? name.lexeme).isSome then some ⟨name, .alreadyDeclared⟩ else none
  | returns keyword withValue context =>
    match context.function, withValue with
    | .outside, _ => some ⟨keyword, .returnOutside⟩
    | .initializer, true => some ⟨keyword, .returnFromInitializer⟩
    | _, _ => none
  | inherits name superclass =>
    if superclass.name = name.lexeme then some ⟨superclass.token, .inheritFromItself⟩
    else superclass.fault?.map fun fault => ⟨superclass.token, fault⟩

end Event

def Quiet (events : List Event) : Prop := ∀ event ∈ events, event.complaint? = none

mutual

def Expr.events (place : Place) : Expr → List Event
  | .literal _ => []
  | .grouping inner => inner.events place
  | .unary _ _ right => right.events place
  | .binary _ _ left right => left.events place ++ right.events place
  | .logical _ _ left right => left.events place ++ right.events place
  | .ref name => [.reference ⟨.read, name, name.lexeme, place⟩]
  | .assign name value =>
    value.events place ++ [.reference ⟨.assign, name, name.lexeme, place⟩]
  | .call callee _ args => callee.events place ++ argEvents place args
  | .get object _ => object.events place
  | .set object _ value => value.events place ++ object.events place
  | .this keyword => [.reference ⟨.this, keyword, "this", place⟩]
  | .super keyword _ => [.reference ⟨.super, keyword, "super", place⟩]

def argEvents (place : Place) : List Expr → List Event
  | [] => []
  | arg :: args => arg.events place ++ argEvents place args

end

def paramEvents (place : Place) : List Token → List Event
  | [] => []
  | param :: params => .declaration param place :: paramEvents (place.set param true) params

def initEvents (place : Place) : Option Expr → List Event
  | none => []
  | some init => init.events place

/-- The superclass is looked for while the class itself is not yet there. -/
def superclassEvents (place : Place) (name : Token) : Option Token → List Event
  | none => []
  | some superclass =>
    [.inherits name ⟨.read, superclass, superclass.lexeme, place.set name false⟩]

def classContext (superclass : Option Token) : ClassContext :=
  if superclass.isSome then .subclass else .plain

mutual

def Stmt.events (place : Place) : Stmt → List Event
  | .expression value => value.events place
  | .print value => value.events place
  | .var name init => .declaration name place :: initEvents (place.set name false) init
  | .block body => eventsAll (place.enter (.block body) []) body
  | .ifElse condition yes no =>
    condition.events place ++ (yes.events place ++ elseEvents place no)
  | .whileLoop condition body => condition.events place ++ body.events place
  | .function declaration =>
    .declaration declaration.name place ::
      functionEvents { place.context with function := .function }
        (place.set declaration.name true) declaration
  | .returns keyword value =>
    .returns keyword value.isSome place.context :: initEvents place value
  | .classDef name superclass methods =>
    .declaration name place :: (superclassEvents place name superclass ++
      methodEvents (classContext superclass) (place.inClass name superclass methods) methods)

def elseEvents (place : Place) : Option Stmt → List Event
  | none => []
  | some no => no.events place

def eventsAll (place : Place) : List Stmt → List Event
  | [] => []
  | first :: rest => first.events place ++ eventsAll (place.after first) rest

def functionEvents (context : Context) (place : Place) : FunctionDecl → List Event
  | ⟨name, params, body⟩ =>
    paramEvents (place.inFunction context ⟨name, params, body⟩) params ++
      eventsAll ((place.inFunction context ⟨name, params, body⟩).setAll params) body

def methodEvents (inClass : ClassContext) (place : Place) : List FunctionDecl → List Event
  | [] => []
  | first :: rest =>
    functionEvents ⟨methodContext first.name, inClass⟩ place first ++
      methodEvents inClass place rest

end

end Moth
