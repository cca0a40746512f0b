import Moth.Proofs.Resolving.Events
import Moth.Proofs.Store.Bindings
/-!
# The resolver goes by the events

On a program whose branches and loop bodies declare nothing, which is so of every parsed
program, the links and the complaints of the resolver are those of the program's events, in
their order.
-/

namespace Moth

/-! ## Branches that declare nothing -/

mutual

/-- No branch of an `if` and no body of a loop is a declaration. -/
def Stmt.Branched : Stmt → Prop
  | .block body => BranchedAll body
  | .ifElse _ yes no => yes.declared? = none ∧ yes.Branched ∧ BranchedElse no
  | .whileLoop _ body => body.declared? = none ∧ body.Branched
  | .function declaration => BranchedFunction declaration
  | .classDef _ _ methods => BranchedMethods methods
  | _ => True

def BranchedElse : Option Stmt → Prop
  | none => True
  | some no => no.declared? = none ∧ no.Branched

def BranchedAll : List Stmt → Prop
  | [] => True
  | first :: rest => first.Branched ∧ BranchedAll rest

def BranchedFunction : FunctionDecl → Prop
  | ⟨_, _, body⟩ => BranchedAll body

def BranchedMethods : List FunctionDecl → Prop
  | [] => True
  | first :: rest => BranchedFunction first ∧ BranchedMethods rest

end

/-! ## Places -/

namespace Place

theorem set_set (place : Place) (name : Token) (first second : Bool) :
    (place.set name first).set name second = place.set name second := by
  obtain ⟨context, frames⟩ := place
  cases frames with
  | nil => rfl
  | cons frame outer => simp [set, Bindings.set_set]

@[simp] theorem context_set (place : Place) (name : Token) (finished : Bool) :
    (place.set name finished).context = place.context := by
  unfold set
  split <;> rfl

@[simp] theorem context_after (place : Place) (stmt : Stmt) :
    (place.after stmt).context = place.context := by
  unfold after
  split <;> simp

@[simp] theorem context_setAll (place : Place) (names : List Token) :
    (place.setAll names).context = place.context := by
  induction names generalizing place with
  | nil => rfl
  | cons name names ih => exact (ih (place.set name true)).trans (context_set place name true)

theorem after_of_declared_none {stmt : Stmt} (h : stmt.declared? = none) (place : Place) :
    place.after stmt = place := by
  rw [after, h]

/-- Declarations leave the scopes further out alone. -/
@[simp] theorem tail_set (place : Place) (name : Token) (finished : Bool) :
    (place.set name finished).frames.tail = place.frames.tail := by
  unfold set
  split <;> simp_all

@[simp] theorem tail_setAll (place : Place) (names : List Token) :
    (place.setAll names).frames.tail = place.frames.tail := by
  induction names generalizing place with
  | nil => rfl
  | cons name names ih => exact (ih (place.set name true)).trans (tail_set place name true)

@[simp] theorem tail_after (place : Place) (stmt : Stmt) :
    (place.after stmt).frames.tail = place.frames.tail := by
  unfold after
  split <;> simp

@[simp] theorem tail_afterAll (place : Place) (body : List Stmt) :
    (place.afterAll body).frames.tail = place.frames.tail := by
  induction body generalizing place with
  | nil => rfl
  | cons first rest ih => exact (ih (place.after first)).trans (tail_after place first)

theorem innermost?_set_of_ne {name : Token} {other : String} (h : name.lexeme ≠ other)
    (place : Place) (finished : Bool) :
    (place.set name finished).innermost? other = place.innermost? other := by
  obtain ⟨context, frames⟩ := place
  cases frames with
  | nil => rfl
  | cons frame outer => exact Bindings.find?_set_of_ne frame.names finished h

theorem innermost?_set_ne_false (place : Place) (name : Token) :
    (place.set name true).innermost? name.lexeme ≠ some false := by
  obtain ⟨context, frames⟩ := place
  cases frames with
  | nil => simp [set, innermost?]
  | cons frame outer => simp [set, innermost?]

theorem find?_set (place : Place) (name : Token) (first second : Bool) (other : String) :
    (place.set name first).find? other = (place.set name second).find? other := by
  obtain ⟨context, frames⟩ := place
  cases frames with
  | nil => rfl
  | cons frame outer =>
    simp only [set, find?, List.findIdx?_cons, Bindings.binds, Bindings.find?_set]
    by_cases h : name.lexeme = other <;> simp [h]

end Place

/-! ## One event at a time -/

namespace Resolver

def moveTo (r : Resolver) (place : Place) : Resolver := { r with scopes := place.scopes }

def note (r : Resolver) (event : Event) : Resolver :=
  { r with
    links := r.links ++ event.link?.toArray
    complaints := r.complaints ++ event.complaint?.toArray }

def noteAll (r : Resolver) (events : List Event) : Resolver := events.foldl note r

theorem noteAll_append (r : Resolver) (first second : List Event) :
    r.noteAll (first ++ second) = (r.noteAll first).noteAll second :=
  List.foldl_append ..

theorem noteAll_cons (r : Resolver) (event : Event) (events : List Event) :
    r.noteAll (event :: events) = (r.note event).noteAll events := rfl

theorem noteAll_eq (r : Resolver) (events : List Event) :
    r.noteAll events =
      { r with
        links := r.links ++ (events.filterMap Event.link?).toArray
        complaints := r.complaints ++ (events.filterMap Event.complaint?).toArray } := by
  induction events generalizing r with
  | nil => simp [noteAll]
  | cons event events ih =>
    rw [noteAll_cons, ih]
    cases hlink : event.link? <;> cases hcomplaint : event.complaint? <;>
      simp [note, hlink, hcomplaint]

variable (r : Resolver) (place : Place)

theorem innermost?_moveTo (name : String) :
    (r.moveTo place).innermost? name = place.innermost? name := by
  obtain ⟨context, frames⟩ := place
  cases frames <;> rfl

theorem setInnermost_moveTo (name : Token) (finished : Bool) :
    (r.moveTo place).setInnermost name.lexeme finished =
      r.moveTo (place.set name finished) := by
  obtain ⟨context, frames⟩ := place
  cases frames <;> rfl

theorem define_moveTo (name : Token) :
    (r.moveTo place).define name = r.moveTo (place.set name true) :=
  setInnermost_moveTo r place name true

theorem complain_moveTo (token : Token) (fault : ResolveFault) :
    (r.moveTo place).complain token fault = (r.complain token fault).moveTo place := rfl

theorem declare_moveTo (name : Token) :
    (r.moveTo place).declare name =
      (r.note (.declaration name place)).moveTo (place.set name false) := by
  rw [declare, innermost?_moveTo]
  by_cases h : (place.innermost? name.lexeme).isSome
  · rw [if_pos h, complain_moveTo, setInnermost_moveTo]
    simp [complain, moveTo, note, Event.link?, Event.reference?, Event.complaint?, h]
  · rw [if_neg h, setInnermost_moveTo]
    simp [moveTo, note, Event.link?, Event.reference?, Event.complaint?, h]

theorem declared_moveTo (name : Token) :
    ((r.moveTo place).declare name).define name =
      (r.note (.declaration name place)).moveTo (place.set name true) := by
  rw [declare_moveTo, define_moveTo, Place.set_set]

theorem enter_moveTo (site : Site) (names : List String) :
    (r.moveTo place).enter names = r.moveTo (place.enter site names) := rfl

theorem leave_moveTo {inner : Place} (h : inner.frames.tail = place.frames) :
    (r.moveTo inner).leave = r.moveTo place := by
  simp [leave, moveTo, Place.scopes, ← h, List.map_tail]

theorem link_moveTo (sort : ReferenceSort) (token : Token) (name : String)
    (h : sort = .this → place.context.inClass ≠ .outside) :
    (r.moveTo place).link sort token name =
      Resolver.moveTo
        { r with links := r.links ++ (Reference.link? ⟨sort, token, name, place⟩).toArray }
        place := by
  have hhops : Reference.hops? ⟨sort, token, name, place⟩ = place.find? name := by
    unfold Reference.hops?
    split
    · next hsort hclass => exact absurd hclass (h hsort)
    · rfl
  have hfind : (r.moveTo place).scopes.findIdx? (·.binds name) = place.find? name := by
    simp only [moveTo, Place.scopes, Place.find?, List.findIdx?_map, Function.comp_def]
  rw [link, hfind, Reference.link?, hhops]
  cases place.find? name <;> simp [moveTo]

theorem reads_moveTo (name : Token) :
    (r.moveTo place).reads name =
      (r.note (.reference ⟨.read, name, name.lexeme, place⟩)).moveTo place := by
  rw [reads, innermost?_moveTo]
  by_cases h : place.innermost? name.lexeme = some false
  · rw [if_pos h, complain_moveTo, link_moveTo _ place .read name name.lexeme (by simp)]
    simp [complain, moveTo, note, Event.link?, Event.reference?, Event.complaint?,
      Reference.fault?, h]
  · rw [if_neg h, link_moveTo r place .read name name.lexeme (by simp)]
    simp [moveTo, note, Event.link?, Event.reference?, Event.complaint?, Reference.fault?, h]

theorem links_moveTo (token : Token) :
    (r.moveTo place).link .assign token token.lexeme =
      (r.note (.reference ⟨.assign, token, token.lexeme, place⟩)).moveTo place := by
  rw [link_moveTo r place .assign token token.lexeme (by simp)]
  simp [moveTo, note, Event.link?, Event.reference?, Event.complaint?, Reference.fault?]

theorem inherits_moveTo (name superclass : Token) :
    resolveSuperclass name superclass (r.moveTo (place.set name true)) =
      (r.note (.inherits name ⟨.read, superclass, superclass.lexeme, place.set name false⟩)).moveTo
        (place.set name true) := by
  have hlink : Reference.link? ⟨.read, superclass, superclass.lexeme, place.set name false⟩ =
      Reference.link? ⟨.read, superclass, superclass.lexeme, place.set name true⟩ := by
    simp only [Reference.link?, Reference.hops?, Place.find?_set place name false true]
  rw [resolveSuperclass]
  by_cases h : superclass.lexeme = name.lexeme
  · have hread := Place.innermost?_set_ne_false place name
    rw [h] at hlink
    rw [if_pos h, complain_moveTo, reads_moveTo]
    simp [complain, moveTo, note, Event.link?, Event.reference?, Event.complaint?,
      Reference.fault?, h, hread, hlink]
  · have hread : (place.set name true).innermost? superclass.lexeme =
        (place.set name false).innermost? superclass.lexeme := by
      rw [Place.innermost?_set_of_ne (Ne.symm h), Place.innermost?_set_of_ne (Ne.symm h)]
    rw [if_neg h, reads_moveTo]
    simp [moveTo, note, Event.link?, Event.reference?, Event.complaint?, Reference.fault?, h,
      hread, hlink]

theorem this_moveTo (keyword : Token) :
    Expr.resolve place.context (.this keyword) (r.moveTo place) =
      (r.note (.reference ⟨.this, keyword, "this", place⟩)).moveTo place := by
  rw [Expr.resolve]
  cases h : place.context.inClass with
  | outside =>
    simp [complain, moveTo, note, Event.link?, Event.reference?, Event.complaint?,
      Reference.fault?, Reference.link?, Reference.hops?, h]
  | plain =>
    rw [link_moveTo r place .this keyword "this" (by simp [h])]
    simp [moveTo, note, Event.link?, Event.reference?, Event.complaint?, Reference.fault?, h]
  | subclass =>
    rw [link_moveTo r place .this keyword "this" (by simp [h])]
    simp [moveTo, note, Event.link?, Event.reference?, Event.complaint?, Reference.fault?, h]

theorem super_moveTo (keyword method : Token) :
    Expr.resolve place.context (.super keyword method) (r.moveTo place) =
      (r.note (.reference ⟨.super, keyword, "super", place⟩)).moveTo place := by
  rw [Expr.resolve]
  cases h : place.context.inClass <;> simp only [complain_moveTo] <;>
    rw [link_moveTo _ place .super keyword "super" (by simp)] <;>
    simp [complain, moveTo, note, Event.link?, Event.reference?, Event.complaint?,
      Reference.fault?, h]

/-- A return without its value. -/
theorem returns_moveTo (keyword : Token) (value : Option Expr) :
    resolveReturn place.context keyword value (r.moveTo place) =
      (match value with
        | none => id
        | some value => value.resolve place.context)
        ((r.note (.returns keyword value.isSome place.context)).moveTo place) := by
  cases hcontext : place.context.function <;> cases value <;>
    simp [resolveReturn, hcontext, complain, moveTo, note, Event.link?, Event.reference?,
      Event.complaint?]

end Resolver

/-! ## Whole programs -/

open Resolver

mutual

theorem Expr.resolve_moveTo (place : Place) (r : Resolver) : (expr : Expr) →
    expr.resolve place.context (r.moveTo place) =
      (r.noteAll (expr.events place)).moveTo place
  | .literal _ => rfl
  | .grouping inner => inner.resolve_moveTo place r
  | .unary _ _ right => right.resolve_moveTo place r
  | .binary _ _ left right => by
    rw [Expr.resolve, left.resolve_moveTo place, right.resolve_moveTo place, Expr.events,
      noteAll_append]
  | .logical _ _ left right => by
    rw [Expr.resolve, left.resolve_moveTo place, right.resolve_moveTo place, Expr.events,
      noteAll_append]
  | .ref name => reads_moveTo r place name
  | .assign name value => by
    rw [Expr.resolve, value.resolve_moveTo place, links_moveTo, Expr.events, noteAll_append]
    rfl
  | .call callee _ args => by
    rw [Expr.resolve, callee.resolve_moveTo place, resolveArgs_moveTo place, Expr.events,
      noteAll_append]
  | .get object _ => object.resolve_moveTo place r
  | .set object _ value => by
    rw [Expr.resolve, value.resolve_moveTo place, object.resolve_moveTo place, Expr.events,
      noteAll_append]
  | .this keyword => this_moveTo r place keyword
  | .super keyword method => super_moveTo r place keyword method

theorem resolveArgs_moveTo (place : Place) (r : Resolver) : (args : List Expr) →
    resolveArgs place.context args (r.moveTo place) =
      (r.noteAll (argEvents place args)).moveTo place
  | [] => rfl
  | arg :: args => by
    rw [resolveArgs, arg.resolve_moveTo place, resolveArgs_moveTo place, argEvents,
      noteAll_append]

end

theorem params_moveTo (params : List Token) (place : Place) (r : Resolver) :
    params.foldl (fun r param => (r.declare param).define param) (r.moveTo place) =
      (r.noteAll (paramEvents place params)).moveTo (place.setAll params) := by
  induction params generalizing place r with
  | nil => rfl
  | cons param params ih =>
    rw [List.foldl_cons, declared_moveTo, ih]
    rfl

mutual

theorem Stmt.resolve_moveTo (place : Place) (r : Resolver) : (stmt : Stmt) → stmt.Branched →
    stmt.resolve place.context (r.moveTo place) =
      (r.noteAll (stmt.events place)).moveTo (place.after stmt)
  | .expression value, _ => value.resolve_moveTo place r
  | .print value, _ => value.resolve_moveTo place r
  | .var name none, _ => declared_moveTo r place name
  | .var name (some init), _ => by
    have hinit := init.resolve_moveTo (place.set name false) (r.note (.declaration name place))
    rw [Place.context_set] at hinit
    rw [Stmt.resolve, declare_moveTo, hinit, define_moveTo, Place.set_set]
    rfl
  | .block body, hbody => by
    have hbody := resolveAll_moveTo (place.enter (.block body) []) r body hbody
    rw [Stmt.resolve, enter_moveTo r place (.block body)]
    refine (congrArg leave hbody).trans (leave_moveTo _ place ?_)
    exact Place.tail_afterAll _ body
  | .ifElse condition yes no, ⟨hnone, hyes, hno⟩ => by
    rw [Stmt.resolve, condition.resolve_moveTo place, yes.resolve_moveTo place _ hyes,
      Place.after_of_declared_none hnone, resolveElse_moveTo place _ no hno, Stmt.events,
      noteAll_append, noteAll_append]
    rfl
  | .whileLoop condition body, ⟨hnone, hbody⟩ => by
    rw [Stmt.resolve, condition.resolve_moveTo place, body.resolve_moveTo place _ hbody,
      Place.after_of_declared_none hnone, Stmt.events, noteAll_append]
    rfl
  | .function declaration, hdeclaration => by
    have hbody := resolveFunction_moveTo { place.context with function := .function }
      (place.set declaration.name true) (r.note (.declaration declaration.name place))
      declaration hdeclaration
    rw [Stmt.resolve, declared_moveTo]
    exact hbody
  | .returns keyword none, _ => returns_moveTo r place keyword none
  | .returns keyword (some value), _ => by
    rw [Stmt.resolve, returns_moveTo]
    exact value.resolve_moveTo place _
  | .classDef name none methods, hmethods => by
    have hbody := resolveMethods_moveTo .plain (place.inClass name none methods)
      (r.note (.declaration name place)) methods hmethods
    rw [Stmt.resolve, declared_moveTo]
    exact (congrArg leave hbody).trans (leave_moveTo _ (place.set name true) rfl)
  | .classDef name (some superclass) methods, hmethods => by
    have hbody := resolveMethods_moveTo .subclass (place.inClass name (some superclass) methods)
      ((r.note (.declaration name place)).note
        (.inherits name ⟨.read, superclass, superclass.lexeme, place.set name false⟩))
      methods hmethods
    rw [Stmt.resolve, declared_moveTo, inherits_moveTo]
    refine (congrArg (fun r => r.leave.leave) hbody).trans ?_
    exact congrArg leave (leave_moveTo _ ((place.set name true).enter (.super name methods)
      ["super"]) rfl)

theorem resolveElse_moveTo (place : Place) (r : Resolver) : (no : Option Stmt) → BranchedElse no →
    resolveElse place.context no (r.moveTo place) =
      (r.noteAll (elseEvents place no)).moveTo place
  | none, _ => rfl
  | some no, ⟨hnone, hno⟩ => by
    rw [resolveElse, no.resolve_moveTo place r hno, Place.after_of_declared_none hnone]
    rfl

theorem resolveAll_moveTo (place : Place) (r : Resolver) : (body : List Stmt) →
    BranchedAll body → resolveAll place.context body (r.moveTo place) =
      (r.noteAll (eventsAll place body)).moveTo (place.afterAll body)
  | [], _ => rfl
  | first :: rest, ⟨hfirst, hrest⟩ => by
    have hrest := resolveAll_moveTo (place.after first) (r.noteAll (first.events place)) rest hrest
    rw [Place.context_after] at hrest
    rw [resolveAll, first.resolve_moveTo place r hfirst, hrest, eventsAll, noteAll_append]
    rfl

theorem resolveFunction_moveTo (context : Context) (place : Place) (r : Resolver) :
    (declaration : FunctionDecl) → BranchedFunction declaration →
    resolveFunction context declaration (r.moveTo place) =
      (r.noteAll (functionEvents context place declaration)).moveTo place
  | ⟨name, params, body⟩, hbody => by
    have hparams := params_moveTo params (place.inFunction context ⟨name, params, body⟩) r
    have hbody := resolveAll_moveTo
      ((place.inFunction context ⟨name, params, body⟩).setAll params)
      (r.noteAll (paramEvents (place.inFunction context ⟨name, params, body⟩) params)) body hbody
    rw [Place.context_setAll] at hbody
    rw [resolveFunction, enter_moveTo r place (.function ⟨name, params, body⟩), functionEvents,
      noteAll_append]
    refine (congrArg (fun r => (resolveAll context body r).leave) hparams).trans ?_
    refine (congrArg leave hbody).trans (leave_moveTo _ place ?_)
    rw [Place.tail_afterAll, Place.tail_setAll]
    rfl

theorem resolveMethods_moveTo (inClass : ClassContext) (place : Place) (r : Resolver) :
    (methods : List FunctionDecl) → BranchedMethods methods →
    resolveMethods inClass methods (r.moveTo place) =
      (r.noteAll (methodEvents inClass place methods)).moveTo place
  | [], _ => rfl
  | first :: rest, ⟨hfirst, hrest⟩ => by
    rw [resolveMethods, resolveFunction_moveTo _ place r first hfirst,
      resolveMethods_moveTo inClass place _ rest hrest, methodEvents, noteAll_append]

end

def programEvents (program : List Stmt) : List Event := eventsAll .top program

/-- The resolver gives the links and the complaints of the events. -/
theorem resolveProgram_eq {program : List Stmt} (h : BranchedAll program) :
    resolveProgram program =
      ⟨⟨(programEvents program).filterMap Event.link?⟩,
        ((programEvents program).filterMap Event.complaint?).toArray⟩ := by
  have hall := resolveAll_moveTo .top .start program h
  rw [noteAll_eq] at hall
  exact (congrArg finish hall).trans (by simp [finish, moveTo, start, programEvents])

theorem resolveProgram_quiet_iff {program : List Stmt} (h : BranchedAll program) :
    (resolveProgram program).complaints = #[] ↔ Quiet (programEvents program) := by
  rw [resolveProgram_eq h]
  simp [Quiet, List.filterMap_eq_nil_iff]

end Moth
