import Mathlib.Data.List.Induction
import Moth.Proofs.Resolving.Lexical
/-!
# Well-formed programs

The rules that the grammar cannot express, said of the text alone: each looks at one statement
and the sites around it.  `WellFormed` gives the rules and `Occurrence.Violates` the ways to
break them.  The resolver keeps a stack of half-finished scopes, the nearest function and the
nearest class; `resolver_exact` says that its complaints are the violations all the same, each
one once.
-/

namespace Moth

open Scan Syntax

/-! ## The rules -/

/-- A statement and the sites around it, from the inside out. -/
structure Occurrence where
  stmt : Stmt
  sites : List Site

mutual

def Stmt.inner (sites : List Site) : Stmt → List Occurrence
  | .block body => occurrencesAll (.block body :: sites) body
  | .ifElse _ yes no => ⟨yes, sites⟩ :: (yes.inner sites ++ elseOccurrences sites no)
  | .whileLoop _ body => ⟨body, sites⟩ :: body.inner sites
  | .function declaration => functionOccurrences sites declaration
  | .classDef name superclass methods =>
    methodOccurrences (classSites sites name superclass methods) methods
  | .expression _ | .print _ | .var _ _ | .returns _ _ => []

def elseOccurrences (sites : List Site) : Option Stmt → List Occurrence
  | none => []
  | some no => ⟨no, sites⟩ :: no.inner sites

def occurrencesAll (sites : List Site) : List Stmt → List Occurrence
  | [] => []
  | first :: rest => ⟨first, sites⟩ :: (first.inner sites ++ occurrencesAll sites rest)

def functionOccurrences (sites : List Site) : FunctionDecl → List Occurrence
  | ⟨name, params, body⟩ => occurrencesAll (.function ⟨name, params, body⟩ :: sites) body

def methodOccurrences (sites : List Site) : List FunctionDecl → List Occurrence
  | [] => []
  | first :: rest => functionOccurrences sites first ++ methodOccurrences sites rest

end

def programStatements (program : List Stmt) : List Occurrence := occurrencesAll [] program

def Stmt.expressions : Stmt → List Expr
  | .expression value | .print value => [value]
  | .ifElse condition _ _ | .whileLoop condition _ => [condition]
  | .var _ value | .returns _ value => value.toList
  | .block _ | .function _ | .classDef _ _ _ => []

def Stmt.scopes : Stmt → List Site
  | .block body => [.block body]
  | .function declaration => [.function declaration]
  | .classDef _ _ methods => methods.map .function
  | _ => []

def Site.isThis : Site → Bool
  | .this _ _ => true
  | _ => false

def Site.isSuper : Site → Bool
  | .super _ _ => true
  | _ => false

/-- The nearest function, and whether it is a method. -/
def functionAround : List Site → Option (FunctionDecl × Bool)
  | [] => none
  | .function declaration :: outer => some (declaration, outer.head?.any Site.isThis)
  | _ :: outer => functionAround outer

/-- Whether the nearest class has a superclass. -/
def classAround : List Site → Option Bool
  | [] => none
  | .this _ _ :: outer => some (outer.head?.any Site.isSuper)
  | _ :: outer => classAround outer

structure WellFormed (program : List Stmt) : Prop where
  distinct : ∀ occurrence ∈ programStatements program, ∀ scope ∈ occurrence.stmt.scopes,
    (scope.declarations.map (·.lexeme)).Nodup
  initializers : ∀ name init site sites,
    ⟨.var name (some init), site :: sites⟩ ∈ programStatements program →
    ∀ mention ∈ init.mentions (site :: sites), mention.sort = .read → mention.name ≠ name.lexeme
  returns : ∀ keyword value sites, ⟨.returns keyword value, sites⟩ ∈ programStatements program →
    functionAround sites ≠ none
  initReturns : ∀ keyword value sites declaration,
    ⟨.returns keyword value, sites⟩ ∈ programStatements program →
    functionAround sites = some (declaration, true) → declaration.name.lexeme = "init" →
    value = none
  this : ∀ occurrence ∈ programStatements program, ∀ expr ∈ occurrence.stmt.expressions,
    ∀ mention ∈ expr.mentions occurrence.sites, mention.sort = .this →
    classAround occurrence.sites ≠ none
  super : ∀ occurrence ∈ programStatements program, ∀ expr ∈ occurrence.stmt.expressions,
    ∀ mention ∈ expr.mentions occurrence.sites, mention.sort = .super →
    classAround occurrence.sites = some true
  superclasses : ∀ name superclass methods sites,
    ⟨.classDef name (some superclass) methods, sites⟩ ∈ programStatements program →
    superclass.lexeme ≠ name.lexeme

/-- The token declares a name that was declared before it. -/
def DeclaresAgain (declarations : List Token) (token : Token) : Prop :=
  ∃ before after, declarations = before ++ token :: after ∧
    token.lexeme ∈ before.map (·.lexeme)

inductive Misplaced (sites : List Site) : ReferenceSort → ResolveFault → Prop where
  | this (hclass : classAround sites = none) : Misplaced sites .this .thisOutside
  | super (hclass : classAround sites = none) : Misplaced sites .super .superOutside
  | superless (hclass : classAround sites = some false) :
      Misplaced sites .super .superWithoutSuperclass

inductive Occurrence.Violates : Occurrence → Token → ResolveFault → Prop where
  | again {stmt : Stmt} {sites : List Site} {scope : Site} {token : Token}
      (hscope : scope ∈ stmt.scopes) (hagain : DeclaresAgain scope.declarations token) :
      Violates ⟨stmt, sites⟩ token .alreadyDeclared
  | ownInitializer {name : Token} {init : Expr} {site : Site} {sites : List Site}
      {mention : Mention} (hmention : mention ∈ init.mentions (site :: sites))
      (hsort : mention.sort = .read) (hname : mention.name = name.lexeme) :
      Violates ⟨.var name (some init), site :: sites⟩ mention.token .readInOwnInitializer
  | returnOutside {keyword : Token} {value : Option Expr} {sites : List Site}
      (hfunction : functionAround sites = none) :
      Violates ⟨.returns keyword value, sites⟩ keyword .returnOutside
  | returnFromInitializer {keyword : Token} {value : Expr} {sites : List Site}
      {declaration : FunctionDecl} (hfunction : functionAround sites = some (declaration, true))
      (hinit : declaration.name.lexeme = "init") :
      Violates ⟨.returns keyword (some value), sites⟩ keyword .returnFromInitializer
  | misplaced {stmt : Stmt} {sites : List Site} {expr : Expr} {mention : Mention}
      {fault : ResolveFault} (hexpr : expr ∈ stmt.expressions)
      (hmention : mention ∈ expr.mentions sites) (hplaced : Misplaced sites mention.sort fault) :
      Violates ⟨stmt, sites⟩ mention.token fault
  | inheritsItself {name superclass : Token} {methods : List FunctionDecl} {sites : List Site}
      (hname : superclass.lexeme = name.lexeme) :
      Violates ⟨.classDef name (some superclass) methods, sites⟩ superclass .inheritFromItself

def Violated (occurrences : List Occurrence) (token : Token) (fault : ResolveFault) : Prop :=
  ∃ occurrence ∈ occurrences, occurrence.Violates token fault

/-! ## Rules and violations -/

theorem nodup_iff_not_declaresAgain {declarations : List Token} :
    (declarations.map (·.lexeme)).Nodup ↔ ∀ token, ¬ DeclaresAgain declarations token := by
  constructor
  · rintro hnodup token ⟨before, after, rfl, hmem⟩
    rw [List.map_append, List.map_cons] at hnodup
    have hapart := (List.nodup_append.1 hnodup).2.2
    exact hapart _ hmem _ List.mem_cons_self rfl
  · intro h
    induction declarations using List.reverseRecOn with
    | nil => exact List.nodup_nil
    | append_singleton declarations last ih =>
      rw [List.map_append, List.map_singleton]
      have hearlier : ∀ token, ¬ DeclaresAgain declarations token := by
        rintro token ⟨before, after, rfl, hmem⟩
        exact h token ⟨before, after ++ [last], by simp, hmem⟩
      have hlast : last.lexeme ∉ declarations.map (·.lexeme) :=
        fun hmem => h last ⟨declarations, [], rfl, hmem⟩
      refine List.nodup_append.2 ⟨ih hearlier, List.pairwise_singleton _ _, ?_⟩
      rintro name hname other hother rfl
      obtain rfl := List.mem_singleton.1 hother
      exact hlast hname

theorem wellFormed_iff {program : List Stmt} :
    WellFormed program ↔ ∀ token fault, ¬ Violated (programStatements program) token fault := by
  constructor
  · rintro h token fault ⟨occurrence, hmem, hviolates⟩
    cases hviolates with
    | again hscope hagain =>
      exact nodup_iff_not_declaresAgain.1 (h.distinct _ hmem _ hscope) _ hagain
    | ownInitializer hmention hsort hname =>
      exact h.initializers _ _ _ _ hmem _ hmention hsort hname
    | returnOutside hfunction => exact h.returns _ _ _ hmem hfunction
    | returnFromInitializer hfunction hinit =>
      cases h.initReturns _ _ _ _ hmem hfunction hinit
    | misplaced hexpr hmention hplaced =>
      generalize hsort : Mention.sort _ = sort at hplaced
      cases hplaced with
      | this hclass => exact h.this _ hmem _ hexpr _ hmention hsort hclass
      | super hclass | superless hclass =>
        have hsuper := h.super _ hmem _ hexpr _ hmention hsort
        rw [hclass] at hsuper
        cases hsuper
    | inheritsItself hname => exact h.superclasses _ _ _ _ hmem hname
  · intro h
    have clean : ∀ {occurrence}, occurrence ∈ programStatements program →
        ∀ {token fault}, ¬ occurrence.Violates token fault :=
      fun hmem _ _ hviolates => h _ _ ⟨_, hmem, hviolates⟩
    refine ⟨?_, ?_, ?_, ?_, ?_, ?_, ?_⟩
    · intro occurrence hmem scope hscope
      exact nodup_iff_not_declaresAgain.2 fun token hagain => clean hmem (.again hscope hagain)
    · intro name init site sites hmem mention hmention hsort hname
      exact clean hmem (.ownInitializer hmention hsort hname)
    · intro keyword value sites hmem hfunction
      exact clean hmem (.returnOutside hfunction)
    · intro keyword value sites declaration hmem hfunction hinit
      cases value with
      | none => rfl
      | some value => exact absurd (.returnFromInitializer hfunction hinit) (clean hmem)
    · intro occurrence hmem expr hexpr mention hmention hsort hclass
      have hplaced : Misplaced occurrence.sites mention.sort .thisOutside := hsort ▸ .this hclass
      exact clean hmem (.misplaced hexpr hmention hplaced)
    · intro occurrence hmem expr hexpr mention hmention hsort
      have placed : ∀ {fault}, ¬ Misplaced occurrence.sites .super fault :=
        fun hplaced => clean hmem (.misplaced hexpr hmention (hsort.symm ▸ hplaced))
      cases hclass : classAround occurrence.sites with
      | none => exact absurd (.super hclass) placed
      | some inherits =>
        cases inherits with
        | true => rfl
        | false => exact absurd (.superless hclass) placed
    · intro name superclass methods sites hmem hname
      exact clean hmem (.inheritsItself hname)

/-! ## What the resolver knows -/

def Complains (events : List Event) (token : Token) (fault : ResolveFault) : Prop :=
  ∃ event ∈ events, event.complaint? = some ⟨token, fault⟩

section

variable {token : Token} {fault : ResolveFault}

@[simp] theorem complains_nil : ¬ Complains [] token fault := by simp [Complains]

@[simp] theorem complains_cons {event : Event} {events : List Event} :
    Complains (event :: events) token fault ↔
      event.complaint? = some ⟨token, fault⟩ ∨ Complains events token fault := by
  simp [Complains]

@[simp] theorem complains_append {first second : List Event} :
    Complains (first ++ second) token fault ↔
      Complains first token fault ∨ Complains second token fault := by
  simp only [Complains, List.mem_append]
  grind

@[simp] theorem violated_nil : ¬ Violated [] token fault := by simp [Violated]

@[simp] theorem violated_cons {occurrence : Occurrence} {occurrences : List Occurrence} :
    Violated (occurrence :: occurrences) token fault ↔
      occurrence.Violates token fault ∨ Violated occurrences token fault := by
  simp [Violated]

@[simp] theorem violated_append {first second : List Occurrence} :
    Violated (first ++ second) token fault ↔
      Violated first token fault ∨ Violated second token fault := by
  simp only [Violated, List.mem_append]
  grind

end

def contextOf (sites : List Site) : Context where
  function := match functionAround sites with
    | none => .outside
    | some (_, false) => .function
    | some (declaration, true) => methodContext declaration.name
  inClass := match classAround sites with
    | none => .outside
    | some false => .plain
    | some true => .subclass

/-- At a place between statements the resolver knows the context of the sites, and the
innermost scope has no unfinished declaration.  No statement stands right inside a class. -/
structure Place.Tracks (place : Place) : Prop where
  context : place.context = contextOf place.sites
  finished : ∀ name, place.innermost? name ≠ some false
  inside : ∀ site ∈ place.sites.head?, site.isThis = false ∧ site.isSuper = false

namespace Place

variable {place : Place}

theorem Tracks.top : Place.top.Tracks :=
  ⟨rfl, by simp [Place.top, innermost?], by simp [sites, Place.top]⟩

theorem Tracks.set (h : place.Tracks) (name : Token) : (place.set name true).Tracks := by
  refine ⟨by simpa using h.context, ?_, by simpa using h.inside⟩
  intro other
  by_cases heq : name.lexeme = other
  · exact heq ▸ innermost?_set_ne_false place name
  · rw [innermost?_set_of_ne heq]
    exact h.finished other

theorem Tracks.setAll (h : place.Tracks) (names : List Token) : (place.setAll names).Tracks := by
  induction names generalizing place with
  | nil => exact h
  | cons name names ih => exact ih (h.set name)

theorem Tracks.after (h : place.Tracks) (stmt : Stmt) : (place.after stmt).Tracks := by
  unfold Place.after
  split
  · exact h.set _
  · exact h

theorem Tracks.block (h : place.Tracks) (body : List Stmt) :
    (place.enter (.block body) []).Tracks :=
  ⟨h.context, by simp [Place.enter, innermost?], by simp [Site.isThis, Site.isSuper]⟩

theorem Tracks.inFunction (h : place.Tracks) (declaration : FunctionDecl) :
    (place.inFunction { place.context with function := .function } declaration).Tracks := by
  have hmethod : place.sites.head?.any Site.isThis = false := by
    rw [Option.any_eq_false]
    exact fun site hsite => by simp [(h.inside site hsite).1]
  refine ⟨?_, by simp [Place.inFunction, Place.enter, innermost?],
    by simp [Site.isThis, Site.isSuper]⟩
  rw [sites_inFunction, h.context]
  change Context.mk .function (contextOf place.sites).inClass = _
  simp only [contextOf, functionAround, classAround, hmethod]

theorem Tracks.inMethod (h : place.Tracks) (name : Token) (superclass : Option Token)
    (methods : List FunctionDecl) (declaration : FunctionDecl) :
    ((place.inClass name superclass methods).inFunction
      ⟨methodContext declaration.name, classContext superclass⟩ declaration).Tracks := by
  have hplain : place.sites.head?.any Site.isSuper = false := by
    rw [Option.any_eq_false]
    exact fun site hsite => by simp [(h.inside site hsite).2]
  refine ⟨?_, by simp [Place.inFunction, Place.enter, innermost?],
    by simp [Site.isThis, Site.isSuper]⟩
  rw [sites_inFunction, sites_inClass]
  cases superclass with
  | none =>
    simp [contextOf, classSites, functionAround, classAround, Site.isThis, hplain,
      classContext, Place.inFunction, Place.enter]
  | some superclass =>
    simp [contextOf, classSites, functionAround, classAround, Site.isThis, Site.isSuper,
      classContext, Place.inFunction, Place.enter]

/-- Behind the declarations before it, the token declares a name of the innermost scope. -/
def Repeats (place : Place) (declarations : List Token) (token : Token) : Prop :=
  ∃ before after, declarations = before ++ token :: after ∧
    ((place.setAll before).innermost? token.lexeme).isSome

theorem repeats_nil {token : Token} : ¬ place.Repeats [] token := by simp [Repeats]

theorem repeats_cons {declaration : Token} {declarations : List Token} {token : Token} :
    place.Repeats (declaration :: declarations) token ↔
      (declaration = token ∧ (place.innermost? token.lexeme).isSome) ∨
        (place.set declaration true).Repeats declarations token := by
  constructor
  · rintro ⟨before, after, heq, hsome⟩
    cases before with
    | nil =>
      cases heq
      exact .inl ⟨rfl, hsome⟩
    | cons first before =>
      cases heq
      exact .inr ⟨before, after, rfl, hsome⟩
  · rintro (⟨rfl, hsome⟩ | ⟨before, after, rfl, hsome⟩)
    · exact ⟨[], declarations, rfl, hsome⟩
    · exact ⟨declaration :: before, after, rfl, hsome⟩

theorem repeats_append {first second : List Token} {token : Token} :
    place.Repeats (first ++ second) token ↔
      place.Repeats first token ∨ (place.setAll first).Repeats second token := by
  induction first generalizing place with
  | nil => simp [repeats_nil, setAll]
  | cons declaration first ih =>
    rw [List.cons_append, repeats_cons, repeats_cons, ih, or_assoc]
    rfl

/-- In the global scope nothing is declared again. -/
theorem not_repeats_top (declarations : List Token) (token : Token) :
    ¬ Place.top.Repeats declarations token := by
  rintro ⟨before, after, -, hsome⟩
  have htop : Place.top.setAll before = Place.top := by
    induction before with
    | nil => rfl
    | cons first before ih => exact ih hsome
  rw [htop] at hsome
  cases hsome

theorem innermost?_setAll (site : Site) (names : StaticScope) (outer : List Frame)
    (context : Context) (before : List Token) (name : String) :
    ((setAll ⟨context, ⟨site, names⟩ :: outer⟩ before).innermost? name).isSome ↔
      names.binds name ∨ name ∈ before.map (·.lexeme) := by
  induction before generalizing names with
  | nil => simp [setAll, innermost?, Bindings.binds]
  | cons first before ih =>
    refine (ih (names.set first.lexeme true)).trans ?_
    rw [Bindings.binds_set, List.map_cons, List.mem_cons]
    grind

theorem repeats_enter {site : Site} {declarations : List Token} {token : Token} :
    (place.enter site []).Repeats declarations token ↔ DeclaresAgain declarations token := by
  have hempty : ∀ name, Bindings.binds ([] : StaticScope) name = false := fun _ => rfl
  simp only [Repeats, DeclaresAgain, Place.enter, List.map_nil, innermost?_setAll, hempty,
    Bool.false_eq_true, false_or]

end Place

/-! ## Expressions -/

def Mention.event (place : Place) (mention : Mention) : Event :=
  .reference ⟨mention.sort, mention.token, mention.name, place⟩

theorem Expr.events_eq_map (place : Place) (expr : Expr) :
    expr.events place = (expr.mentions place.sites).map (Mention.event place) := by
  rw [← expr.filterMap_mention? place, List.map_filterMap,
    List.filterMap_eq_map_iff_forall_eq_some.2, List.map_id]
  intro event hevent
  obtain ⟨sort, token, name, rfl⟩ := expr.events_eq_reference event hevent
  rfl

section

variable {place : Place} {token : Token} {fault : ResolveFault}

theorem Reference.fault?_eq_some_iff (h : place.context = contextOf place.sites)
    {sort : ReferenceSort} (token : Token) {name : String} :
    Reference.fault? ⟨sort, token, name, place⟩ = some fault ↔
      Misplaced place.sites sort fault ∨
        sort = .read ∧ place.innermost? name = some false ∧ fault = .readInOwnInitializer := by
  have hcontext : place.context.inClass = (contextOf place.sites).inClass := by rw [h]
  constructor
  · intro hfault
    cases sort with
    | read =>
      simp only [Reference.fault?] at hfault
      split at hfault
      · next hread => exact .inr ⟨rfl, hread, (Option.some.inj hfault).symm⟩
      · cases hfault
    | assign => cases hfault
    | this =>
      cases hclass : classAround place.sites with
      | none =>
        simp only [Reference.fault?, hcontext, contextOf, hclass, Option.some.injEq] at hfault
        exact .inl (hfault ▸ .this hclass)
      | some inherits =>
        cases inherits <;> simp [Reference.fault?, hcontext, contextOf, hclass] at hfault
    | super =>
      cases hclass : classAround place.sites with
      | none =>
        simp only [Reference.fault?, hcontext, contextOf, hclass, Option.some.injEq] at hfault
        exact .inl (hfault ▸ .super hclass)
      | some inherits =>
        cases inherits with
        | true => simp [Reference.fault?, hcontext, contextOf, hclass] at hfault
        | false =>
          simp only [Reference.fault?, hcontext, contextOf, hclass, Option.some.injEq] at hfault
          exact .inl (hfault ▸ .superless hclass)
  · rintro (hplaced | ⟨rfl, hread, rfl⟩)
    · cases hplaced <;> next hclass => simp [Reference.fault?, hcontext, contextOf, hclass]
    · simp [Reference.fault?, hread]

/-- In an expression, whose place may be behind the beginning of a declaration. -/
theorem Expr.complains_iff (h : place.context = contextOf place.sites) (expr : Expr) :
    Complains (expr.events place) token fault ↔
      ∃ mention ∈ expr.mentions place.sites, mention.token = token ∧
        (Misplaced place.sites mention.sort fault ∨ mention.sort = .read ∧
          place.innermost? mention.name = some false ∧ fault = .readInOwnInitializer) := by
  have hevent (mention : Mention) : (mention.event place).complaint? = some ⟨token, fault⟩ ↔
      mention.token = token ∧ (Misplaced place.sites mention.sort fault ∨ mention.sort = .read ∧
        place.innermost? mention.name = some false ∧ fault = .readInOwnInitializer) := by
    rw [← Reference.fault?_eq_some_iff h mention.token]
    simp only [Mention.event, Event.complaint?, Option.map_eq_some_iff, ResolveComplaint.mk.injEq]
    grind
  simp only [Complains, expr.events_eq_map place, List.mem_map, exists_exists_and_eq_and, hevent]

theorem Expr.complains_iff_misplaced (h : place.Tracks) (expr : Expr) :
    Complains (expr.events place) token fault ↔ ∃ mention ∈ expr.mentions place.sites,
      mention.token = token ∧ Misplaced place.sites mention.sort fault := by
  simp only [expr.complains_iff h.context, h.finished, false_and, and_false, or_false]

/-- Inside the initializer of a name, the one unfinished name is that name, if it is local. -/
theorem Place.Tracks.unfinished (h : place.Tracks) (name : Token) (other : String) :
    (place.set name false).innermost? other = some false ↔
      place.sites ≠ [] ∧ other = name.lexeme := by
  by_cases heq : name.lexeme = other
  · subst heq
    obtain ⟨context, frames⟩ := place
    cases frames with
    | nil => simp [Place.set, Place.innermost?, Place.sites]
    | cons frame outer => simp [Place.set, Place.innermost?, Place.sites]
  · rw [Place.innermost?_set_of_ne heq]
    constructor
    · exact fun hread => absurd hread (h.finished other)
    · rintro ⟨-, rfl⟩
      exact absurd rfl heq

/-! ## Statements -/

/-- What can be wrong with a statement apart from its scopes, `this` and `super`. -/
def Stmt.Fails (sites : List Site) : Stmt → Token → ResolveFault → Prop
  | .var name (some init), token, fault => ∃ mention ∈ init.mentions sites,
      mention.token = token ∧ mention.sort = .read ∧ (sites ≠ [] ∧ mention.name = name.lexeme) ∧
        fault = .readInOwnInitializer
  | .returns keyword value, token, fault => keyword = token ∧
      (functionAround sites = none ∧ fault = .returnOutside ∨
        value.isSome ∧ fault = .returnFromInitializer ∧ ∃ declaration,
          functionAround sites = some (declaration, true) ∧ declaration.name.lexeme = "init")
  | .classDef name (some superclass) _, token, fault =>
      superclass = token ∧ superclass.lexeme = name.lexeme ∧ fault = .inheritFromItself
  | _, _, _ => False

theorem Occurrence.violates_iff {stmt : Stmt} {sites : List Site} :
    Occurrence.Violates ⟨stmt, sites⟩ token fault ↔
      (fault = .alreadyDeclared ∧ ∃ scope ∈ stmt.scopes, DeclaresAgain scope.declarations token) ∨
      (∃ expr ∈ stmt.expressions, ∃ mention ∈ expr.mentions sites,
        mention.token = token ∧ Misplaced sites mention.sort fault) ∨
      stmt.Fails sites token fault := by
  constructor
  · rintro (⟨hscope, hagain⟩ | ⟨hmention, hsort, hname⟩ | hfunction | ⟨hfunction, hinit⟩ |
      ⟨hexpr, hmention, hplaced⟩ | hname)
    · exact .inl ⟨rfl, _, hscope, hagain⟩
    · exact .inr (.inr ⟨_, hmention, rfl, hsort, ⟨by simp, hname⟩, rfl⟩)
    · exact .inr (.inr ⟨rfl, .inl ⟨hfunction, rfl⟩⟩)
    · exact .inr (.inr ⟨rfl, .inr ⟨rfl, rfl, _, hfunction, hinit⟩⟩)
    · exact .inr (.inl ⟨_, hexpr, _, hmention, rfl, hplaced⟩)
    · exact .inr (.inr ⟨rfl, hname, rfl⟩)
  · rintro (⟨rfl, scope, hscope, hagain⟩ | ⟨expr, hexpr, mention, hmention, rfl, hplaced⟩ | hfails)
    · exact .again hscope hagain
    · exact .misplaced hexpr hmention hplaced
    · unfold Stmt.Fails at hfails
      split at hfails
      · obtain ⟨mention, hmention, rfl, hsort, ⟨hlocal, hname⟩, rfl⟩ := hfails
        obtain ⟨site, outer, rfl⟩ := List.exists_cons_of_ne_nil hlocal
        exact .ownInitializer hmention hsort hname
      · obtain ⟨rfl, ⟨hfunction, rfl⟩ | ⟨hvalue, rfl, declaration, hfunction, hinit⟩⟩ := hfails
        · exact .returnOutside hfunction
        · obtain ⟨value, rfl⟩ := Option.isSome_iff_exists.1 hvalue
          exact .returnFromInitializer hfunction hinit
      · obtain ⟨rfl, hname, rfl⟩ := hfails
        exact .inheritsItself hname
      · exact absurd hfails id

theorem Event.complaint?_declaration {name : Token} :
    (Event.declaration name place).complaint? = some ⟨token, fault⟩ ↔
      fault = .alreadyDeclared ∧ name = token ∧ (place.innermost? token.lexeme).isSome := by
  rw [Event.complaint?]
  split
  · simp only [Option.some.injEq, ResolveComplaint.mk.injEq]
    grind
  · simp only [reduceCtorEq, false_iff]
    grind

theorem Event.complaint?_returns (h : place.Tracks) (keyword : Token) (value : Option Expr) :
    (Event.returns keyword value.isSome place.context).complaint? = some ⟨token, fault⟩ ↔
      Stmt.Fails place.sites (.returns keyword value) token fault := by
  have hcontext : place.context.function = (contextOf place.sites).function := by rw [h.context]
  simp only [Event.complaint?, Stmt.Fails, hcontext, contextOf]
  cases hfunction : functionAround place.sites with
  | none =>
    simp only [Option.some.injEq, ResolveComplaint.mk.injEq, true_and, reduceCtorEq, false_and,
      exists_false, and_false, or_false, and_congr_right_iff]
    grind
  | some found =>
    obtain ⟨declaration, isMethod⟩ := found
    cases isMethod with
    | false => simp
    | true =>
      by_cases hinit : declaration.name.lexeme = "init"
      · cases value with
        | none => simp [methodContext, hinit]
        | some value =>
          simp only [methodContext, hinit, if_true, Option.isSome_some, Option.some.injEq,
            ResolveComplaint.mk.injEq, reduceCtorEq, false_and, Prod.mk.injEq, and_true,
            exists_eq_left', true_and, false_or, and_congr_right_iff]
          grind
      · simp [methodContext, hinit]

theorem Event.complaint?_inherits (h : place.Tracks) (name superclass : Token)
    (methods : List FunctionDecl) :
    (Event.inherits name ⟨.read, superclass, superclass.lexeme, place.set name false⟩).complaint? =
        some ⟨token, fault⟩ ↔
      Stmt.Fails place.sites (.classDef name (some superclass) methods) token fault := by
  by_cases hname : superclass.lexeme = name.lexeme
  · simp only [Event.complaint?, Stmt.Fails, hname, if_true, Option.some.injEq,
      ResolveComplaint.mk.injEq]
    grind
  · have hread : Reference.fault?
        ⟨.read, superclass, superclass.lexeme, place.set name false⟩ = none := by
      simp [Reference.fault?, h.unfinished, hname]
    simp [Event.complaint?, Stmt.Fails, hname, hread]

theorem paramEvents_complains_iff (params : List Token) :
    Complains (paramEvents place params) token fault ↔
      fault = .alreadyDeclared ∧ place.Repeats params token := by
  induction params generalizing place with
  | nil => simp [paramEvents, Place.repeats_nil]
  | cons param params ih =>
    rw [paramEvents, complains_cons, ih, Event.complaint?_declaration, Place.repeats_cons,
      and_or_left]

/-- In the initializer of a variable. -/
theorem initEvents_complains_iff (h : place.Tracks) (name : Token) (init : Option Expr) :
    Complains (initEvents (place.set name false) init) token fault ↔
      Occurrence.Violates ⟨.var name init, place.sites⟩ token fault := by
  rw [Occurrence.violates_iff]
  cases init with
  | none => simp [initEvents, Stmt.scopes, Stmt.expressions, Stmt.Fails]
  | some init =>
    have hcontext : (place.set name false).context = contextOf (place.set name false).sites := by
      simpa using h.context
    rw [initEvents, init.complains_iff hcontext]
    simp only [Place.sites_set, h.unfinished, Stmt.scopes, Stmt.expressions, Stmt.Fails,
      List.not_mem_nil, false_and, exists_false, and_false, Option.toList_some,
      List.mem_singleton, exists_eq_left, false_or]
    grind

/-- A statement whose only fault can be in its one expression. -/
theorem Occurrence.violates_iff_complains (h : place.Tracks) (stmt : Stmt)
    {value : Expr} (hscopes : stmt.scopes = []) (hexpressions : stmt.expressions = [value])
    (hfails : stmt.Fails place.sites = fun _ _ => False) :
    Occurrence.Violates ⟨stmt, place.sites⟩ token fault ↔
      Complains (value.events place) token fault := by
  rw [value.complains_iff_misplaced h, Occurrence.violates_iff, hscopes, hexpressions, hfails]
  simp

mutual

/-- At a statement the resolver complains about its own name, if the innermost scope has it
already, and about the violations in it. -/
theorem Stmt.complains_iff {place : Place} (h : place.Tracks) : (stmt : Stmt) → stmt.Branched →
    (Complains (stmt.events place) token fault ↔
      (fault = .alreadyDeclared ∧ stmt.declared? = some token ∧
        (place.innermost? token.lexeme).isSome) ∨
      Occurrence.Violates ⟨stmt, place.sites⟩ token fault ∨
      Violated (stmt.inner place.sites) token fault)
  | .expression value, _ | .print value, _ => by
    rw [Stmt.events, Occurrence.violates_iff_complains h _ rfl rfl rfl]
    simp [Stmt.declared?, Stmt.inner]
  | .var name init, _ => by
    rw [Stmt.events, complains_cons, Event.complaint?_declaration, initEvents_complains_iff h]
    simp [Stmt.declared?, Stmt.inner]
  | .block body, hbody => by
    rw [Stmt.events, eventsAll_complains_iff (h.block body) body hbody, Place.repeats_enter,
      Occurrence.violates_iff]
    simp [Stmt.declared?, Stmt.scopes, Stmt.expressions, Stmt.Fails, Stmt.inner, Site.declarations]
  | .ifElse condition yes no, ⟨hnone, hyes, hno⟩ => by
    have hdeclared : (Stmt.ifElse condition yes no).declared? = none := rfl
    rw [Stmt.events, complains_append, complains_append, yes.complains_iff h hyes,
      elseEvents_complains_iff h no hno, Stmt.inner, violated_cons, violated_append,
      Occurrence.violates_iff_complains h (.ifElse condition yes no) rfl rfl rfl]
    simp only [hdeclared, hnone, reduceCtorEq, false_and, and_false, false_or, or_assoc]
  | .whileLoop condition body, ⟨hnone, hbody⟩ => by
    have hdeclared : (Stmt.whileLoop condition body).declared? = none := rfl
    rw [Stmt.events, complains_append, body.complains_iff h hbody, Stmt.inner, violated_cons,
      Occurrence.violates_iff_complains h (.whileLoop condition body) rfl rfl rfl]
    simp only [hdeclared, hnone, reduceCtorEq, false_and, and_false, false_or]
  | .function declaration, hdeclaration => by
    have htracks := (h.set declaration.name).inFunction declaration
    rw [Place.context_set] at htracks
    rw [Stmt.events, complains_cons, Event.complaint?_declaration,
      functionEvents_complains_iff declaration htracks hdeclaration, Occurrence.violates_iff]
    simp [Stmt.declared?, Stmt.scopes, Stmt.expressions, Stmt.Fails, Stmt.inner]
  | .returns keyword value, _ => by
    rw [Stmt.events, complains_cons, Event.complaint?_returns h, Occurrence.violates_iff]
    cases value with
    | none => simp [initEvents, Stmt.declared?, Stmt.scopes, Stmt.expressions, Stmt.inner]
    | some value =>
      rw [initEvents, value.complains_iff_misplaced h]
      simp [Stmt.declared?, Stmt.scopes, Stmt.expressions, Stmt.inner, or_comm]
  | .classDef name superclass methods, hmethods => by
    rw [Stmt.events, complains_cons, complains_append, Event.complaint?_declaration,
      methodEvents_complains_iff (h.inMethod name superclass methods) methods hmethods,
      Occurrence.violates_iff, Stmt.inner, Place.sites_inClass]
    cases superclass with
    | none =>
      simp [superclassEvents, Stmt.declared?, Stmt.scopes, Stmt.expressions, Stmt.Fails]
    | some superclass =>
      rw [superclassEvents, complains_cons, Event.complaint?_inherits h name superclass methods]
      simp only [complains_nil, or_false, Stmt.declared?, Option.some.injEq, Stmt.scopes,
        Stmt.expressions, List.not_mem_nil, false_and, exists_false, false_or]
      grind

theorem elseEvents_complains_iff {place : Place} (h : place.Tracks) :
    (no : Option Stmt) → BranchedElse no →
    (Complains (elseEvents place no) token fault ↔
      Violated (elseOccurrences place.sites no) token fault)
  | none, _ => by simp [elseEvents, elseOccurrences]
  | some no, ⟨hnone, hno⟩ => by
    rw [elseEvents, no.complains_iff h hno, elseOccurrences, violated_cons]
    simp [hnone]

theorem eventsAll_complains_iff {place : Place} (h : place.Tracks) :
    (body : List Stmt) → BranchedAll body →
    (Complains (eventsAll place body) token fault ↔
      (fault = .alreadyDeclared ∧ place.Repeats (body.filterMap Stmt.declared?) token) ∨
      Violated (occurrencesAll place.sites body) token fault)
  | [], _ => by simp [eventsAll, occurrencesAll, Place.repeats_nil]
  | first :: rest, ⟨hfirst, hrest⟩ => by
    rw [eventsAll, complains_append, first.complains_iff h hfirst,
      eventsAll_complains_iff (h.after first) rest hrest, Place.sites_after, occurrencesAll,
      violated_cons, violated_append]
    cases hdeclared : first.declared? with
    | none =>
      rw [List.filterMap_cons_none hdeclared, Place.after_of_declared_none hdeclared]
      grind
    | some name =>
      rw [List.filterMap_cons_some hdeclared, Place.repeats_cons, Place.after, hdeclared]
      grind

theorem functionEvents_complains_iff {context : Context} {place : Place} :
    (declaration : FunctionDecl) →
    (place.inFunction context declaration).Tracks → BranchedFunction declaration →
    (Complains (functionEvents context place declaration) token fault ↔
      (fault = .alreadyDeclared ∧
        DeclaresAgain (Site.function declaration).declarations token) ∨
      Violated (functionOccurrences place.sites declaration) token fault)
  | ⟨name, params, body⟩, h, hbody => by
    rw [functionEvents, complains_append, paramEvents_complains_iff,
      eventsAll_complains_iff (h.setAll params) body hbody, ← or_assoc, ← and_or_left,
      ← Place.repeats_append, Place.inFunction, Place.repeats_enter, Place.sites_setAll,
      Place.sites_enter]
    rfl

theorem methodEvents_complains_iff {inClass : ClassContext} {place : Place}
    (h : ∀ declaration : FunctionDecl, (place.inFunction
      ⟨methodContext declaration.name, inClass⟩ declaration).Tracks) :
    (methods : List FunctionDecl) → BranchedMethods methods →
    (Complains (methodEvents inClass place methods) token fault ↔
      (fault = .alreadyDeclared ∧ ∃ scope ∈ methods.map Site.function,
        DeclaresAgain scope.declarations token) ∨
      Violated (methodOccurrences place.sites methods) token fault)
  | [], _ => by simp [methodEvents, methodOccurrences]
  | first :: rest, ⟨hfirst, hrest⟩ => by
    rw [methodEvents, complains_append, functionEvents_complains_iff first (h first) hfirst,
      methodEvents_complains_iff h rest hrest, methodOccurrences, violated_append, List.map_cons]
    simp only [List.mem_cons, exists_eq_or_imp]
    grind

end

end

/-! ## Whole programs -/

theorem mem_complaints_iff {program : List Stmt} (h : BranchedAll program) {token : Token}
    {fault : ResolveFault} : ⟨token, fault⟩ ∈ (resolveProgram program).complaints ↔
      Violated (programStatements program) token fault := by
  have hcomplains : ⟨token, fault⟩ ∈ (resolveProgram program).complaints ↔
      Complains (programEvents program) token fault := by
    rw [resolveProgram_eq h]
    simp [Complains]
  have hviolated : Complains (programEvents program) token fault ↔
      (fault = .alreadyDeclared ∧ Place.top.Repeats (program.filterMap Stmt.declared?) token) ∨
        Violated (programStatements program) token fault :=
    eventsAll_complains_iff .top program h
  rw [hcomplains, hviolated]
  simp [Place.not_repeats_top]

theorem complaintSpots_sublist (events : List Event) :
    ((events.filterMap Event.complaint?).map (·.token.spot)).Sublist (eventSpots events) :=
  picked_sublist (fun _ _ hcomplaint => congrArg Token.spot (Event.token_of_complaint? hcomplaint))
    events

/-- The resolver rejects exactly the ill-formed programs.  Of a program that was parsed without
complaints, it has no complaint if and only if the program is well formed.  It complains of
every violation at the offending token, whatever others there are, of nothing else, and of no
two at the same token. -/
theorem resolver_exact (unit levels : Nat) (text : List Char) (stop : Token)
    (h : (parseProgram (scan unit text).tokens.toList stop levels).complaints = #[]) :
    let program := (parseProgram (scan unit text).tokens.toList stop levels).tree
    ((resolveProgram program).complaints = #[] ↔ WellFormed program) ∧
    (∀ token fault, ⟨token, fault⟩ ∈ (resolveProgram program).complaints ↔
      ∃ occurrence ∈ programStatements program, occurrence.Violates token fault) ∧
    ((resolveProgram program).complaints.toList.map (·.token.spot)).Nodup := by
  intro program
  have hlaid := laid_scan unit text
  obtain ⟨hbranched, hmentions⟩ := (derives_of_parseProgram h).told hlaid.spelt
  have hmem : ∀ token fault, ⟨token, fault⟩ ∈ (resolveProgram program).complaints ↔
      Violated (programStatements program) token fault :=
    fun token fault => mem_complaints_iff hbranched
  refine ⟨?_, hmem, ?_⟩
  · rw [wellFormed_iff, Array.eq_empty_iff_forall_not_mem]
    constructor
    · intro hquiet token fault hviolated
      exact hquiet _ ((hmem token fault).2 hviolated)
    · rintro hkept ⟨token, fault⟩ hcomplaint
      exact hkept token fault ((hmem token fault).1 hcomplaint)
  · rw [resolveProgram_eq hbranched]
    exact ((hmentions .top).nodup (nodup_spots unit text)).sublist (complaintSpots_sublist _)

/-- A program that breaks every rule.  What is nested in the initializer and in the subclass
has its own function and class around it. -/
def brokenText : List Char :=
  ("\x7bvar a=a;var a;\x7d fun f(x)\x7bvar x; return 1;\x7d " ++
  "class A<A\x7binit()\x7bfun g()\x7breturn 3;\x7d return 2;\x7d " ++
  "m()\x7bclass B\x7bn()\x7bsuper.n();\x7d\x7d super.m();\x7d\x7d " ++
  "return; this; super.x;").toList

theorem brokenText_rejected :
    let parsed := parseProgram (scan 1 brokenText).tokens.toList (scan 1 brokenText).stop
    (parsed.complaints = #[] ∧ (resolveProgram parsed.tree).complaints.toList.map
        (fun complaint => (complaint.token.lexeme, complaint.fault)) =
      [("a", .readInOwnInitializer), ("a", .alreadyDeclared), ("x", .alreadyDeclared),
        ("A", .inheritFromItself), ("return", .returnFromInitializer),
        ("super", .superWithoutSuperclass), ("return", .returnOutside),
        ("this", .thisOutside), ("super", .superOutside)]) ∧
    ¬ WellFormed parsed.tree := by
  intro parsed
  refine (and_iff_left_of_imp fun hfacts hkept => ?_).2 (by decide +kernel)
  obtain ⟨hparsed, hfaults⟩ := hfacts
  have hquiet := (resolver_exact 1 _ brokenText _ hparsed).1.2 hkept
  rw [hquiet] at hfaults
  cases hfaults

end Moth
