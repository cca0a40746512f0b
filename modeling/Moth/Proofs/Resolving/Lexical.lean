import Moth.Proofs.Resolving.Accepted
/-!
# Lexical scoping

Which declaration a reference means is a matter of the text alone: the nearest scope around it
that declares the name further up in the text.  `programMentions` finds the references of a
program with the scopes around them, and knows nothing of a stack of scopes, of an order of
visits, or of unfinished declarations.

`resolution_lexical` compares the resolution with this rule, for every program that was parsed
without complaints.
-/

namespace Moth

open Scan Syntax

/-! ## The rule -/

def Site.declarations : Site → List Token
  | block body => body.filterMap Stmt.declared?
  | function declaration => declaration.params ++ declaration.body.filterMap Stmt.declared?
  | this _ _ | super _ _ => []

def declaredBefore (name : String) (token : Token) (declarations : List Token) : Bool :=
  declarations.any fun declaration =>
    declaration.lexeme = name && declaration.offset < token.offset

/-- The site declares the name before `token`.  The scopes of a class hold their one name for
everything inside. -/
def Site.declaresBefore (name : String) (token : Token) : Site → Bool
  | this _ _ => name = "this"
  | super _ _ => name = "super"
  | block body => declaredBefore name token (Site.block body).declarations
  | function declaration => declaredBefore name token (Site.function declaration).declarations

/-- A node that refers to a variable, `this` or `super`, and the sites around it from the
inside out. -/
structure Mention where
  sort : ReferenceSort
  token : Token
  name : String
  sites : List Site

/-- The distance to the nearest site that declares the name before the node. -/
def Mention.hops? (mention : Mention) : Option Nat :=
  mention.sites.findIdx? (·.declaresBefore mention.name mention.token)

mutual

def Expr.mentions (sites : List Site) : Expr → List Mention
  | .literal _ => []
  | .grouping inner => inner.mentions sites
  | .unary _ _ right => right.mentions sites
  | .binary _ _ left right => left.mentions sites ++ right.mentions sites
  | .logical _ _ left right => left.mentions sites ++ right.mentions sites
  | .ref name => [⟨.read, name, name.lexeme, sites⟩]
  | .assign name value => value.mentions sites ++ [⟨.assign, name, name.lexeme, sites⟩]
  | .call callee _ args => callee.mentions sites ++ argMentions sites args
  | .get object _ => object.mentions sites
  | .set object _ value => value.mentions sites ++ object.mentions sites
  | .this keyword => [⟨.this, keyword, "this", sites⟩]
  | .super keyword _ => [⟨.super, keyword, "super", sites⟩]

def argMentions (sites : List Site) : List Expr → List Mention
  | [] => []
  | arg :: args => arg.mentions sites ++ argMentions sites args

end

def initMentions (sites : List Site) : Option Expr → List Mention
  | none => []
  | some init => init.mentions sites

def superclassMentions (sites : List Site) : Option Token → List Mention
  | none => []
  | some superclass => [⟨.read, superclass, superclass.lexeme, sites⟩]

def classSites (sites : List Site) (name : Token) (superclass : Option Token)
    (methods : List FunctionDecl) : List Site :=
  .this name methods :: if superclass.isSome then .super name methods :: sites else sites

mutual

def Stmt.mentions (sites : List Site) : Stmt → List Mention
  | .expression value => value.mentions sites
  | .print value => value.mentions sites
  | .var _ init => initMentions sites init
  | .block body => mentionsAll (.block body :: sites) body
  | .ifElse condition yes no =>
    condition.mentions sites ++ (yes.mentions sites ++ elseMentions sites no)
  | .whileLoop condition body => condition.mentions sites ++ body.mentions sites
  | .function declaration => functionMentions sites declaration
  | .returns _ value => initMentions sites value
  | .classDef name superclass methods =>
    superclassMentions sites superclass ++
      methodMentions (classSites sites name superclass methods) methods

def elseMentions (sites : List Site) : Option Stmt → List Mention
  | none => []
  | some no => no.mentions sites

def mentionsAll (sites : List Site) : List Stmt → List Mention
  | [] => []
  | first :: rest => first.mentions sites ++ mentionsAll sites rest

def functionMentions (sites : List Site) : FunctionDecl → List Mention
  | ⟨name, params, body⟩ => mentionsAll (.function ⟨name, params, body⟩ :: sites) body

def methodMentions (sites : List Site) : List FunctionDecl → List Mention
  | [] => []
  | first :: rest => functionMentions sites first ++ methodMentions sites rest

end

/-- The references of a program; the global scope is no site. -/
def programMentions (program : List Stmt) : List Mention := mentionsAll [] program

/-! ## The references that the resolver comes to -/

def Place.sites (place : Place) : List Site := place.frames.map (·.site)

namespace Place

@[simp] theorem sites_enter (place : Place) (site : Site) (names : List String) :
    (place.enter site names).sites = site :: place.sites := rfl

@[simp] theorem sites_set (place : Place) (name : Token) (finished : Bool) :
    (place.set name finished).sites = place.sites := by
  obtain ⟨context, frames⟩ := place
  cases frames with
  | nil => rfl
  | cons frame outer => rfl

@[simp] theorem sites_setAll (place : Place) (names : List Token) :
    (place.setAll names).sites = place.sites := by
  induction names generalizing place with
  | nil => rfl
  | cons name names ih => exact (ih (place.set name true)).trans (place.sites_set name true)

@[simp] theorem sites_after (place : Place) (stmt : Stmt) :
    (place.after stmt).sites = place.sites := by
  unfold after
  split
  · exact place.sites_set _ true
  · rfl

@[simp] theorem sites_inFunction (place : Place) (context : Context) (declaration : FunctionDecl) :
    (place.inFunction context declaration).sites = .function declaration :: place.sites := rfl

@[simp] theorem sites_inClass (place : Place) (name : Token) (superclass : Option Token)
    (methods : List FunctionDecl) :
    (place.inClass name superclass methods).sites =
      classSites place.sites name superclass methods := by
  unfold inClass classSites
  split <;> simp

end Place

/-- The reference without what the resolver knew when it came to it. -/
def Reference.mention (reference : Reference) : Mention :=
  ⟨reference.sort, reference.token, reference.name, reference.place.sites⟩

def Event.mention? (event : Event) : Option Mention := event.reference?.map Reference.mention

mutual

theorem Expr.filterMap_mention? (place : Place) : (expr : Expr) →
    (expr.events place).filterMap Event.mention? = expr.mentions place.sites
  | .literal _ => rfl
  | .grouping inner => inner.filterMap_mention? place
  | .unary _ _ right => right.filterMap_mention? place
  | .binary _ _ left right | .logical _ _ left right => by
    simp only [Expr.events, Expr.mentions, List.filterMap_append,
      left.filterMap_mention? place, right.filterMap_mention? place]
  | .ref _ => rfl
  | .assign name value => by
    simp only [Expr.events, Expr.mentions, List.filterMap_append,
      value.filterMap_mention? place]
    rfl
  | .call callee _ args => by
    simp only [Expr.events, Expr.mentions, List.filterMap_append,
      callee.filterMap_mention? place, argEvents_mention? place args]
  | .get object _ => object.filterMap_mention? place
  | .set object _ value => by
    simp only [Expr.events, Expr.mentions, List.filterMap_append,
      value.filterMap_mention? place, object.filterMap_mention? place]
  | .this _ => rfl
  | .super _ _ => rfl

theorem argEvents_mention? (place : Place) : (args : List Expr) →
    (argEvents place args).filterMap Event.mention? = argMentions place.sites args
  | [] => rfl
  | arg :: args => by
    simp only [argEvents, argMentions, List.filterMap_append, arg.filterMap_mention? place,
      argEvents_mention? place args]

end

theorem initEvents_mention? (place : Place) (init : Option Expr) :
    (initEvents place init).filterMap Event.mention? = initMentions place.sites init := by
  cases init with
  | none => rfl
  | some init => exact init.filterMap_mention? place

theorem paramEvents_mention? (place : Place) (params : List Token) :
    (paramEvents place params).filterMap Event.mention? = [] := by
  induction params generalizing place with
  | nil => rfl
  | cons param params ih => exact ih (place.set param true)

theorem superclassEvents_mention? (place : Place) (name : Token) (superclass : Option Token) :
    (superclassEvents place name superclass).filterMap Event.mention? =
      superclassMentions place.sites superclass := by
  cases superclass with
  | none => rfl
  | some superclass =>
    simp [superclassEvents, superclassMentions, Event.mention?, Event.reference?,
      Reference.mention]

theorem Event.filterMap_mention?_cons {event : Event} (h : event.reference? = none)
    (events : List Event) :
    (event :: events).filterMap Event.mention? = events.filterMap Event.mention? :=
  List.filterMap_cons_none (by rw [Event.mention?, h]; rfl)

mutual

theorem Stmt.filterMap_mention? (place : Place) : (stmt : Stmt) →
    (stmt.events place).filterMap Event.mention? = stmt.mentions place.sites
  | .expression value | .print value => value.filterMap_mention? place
  | .var name init => by
    rw [Stmt.events, Event.filterMap_mention?_cons rfl, initEvents_mention?, Place.sites_set]
    rfl
  | .block body => eventsAll_mention? (place.enter (.block body) []) body
  | .ifElse condition yes no => by
    simp only [Stmt.events, Stmt.mentions, List.filterMap_append,
      condition.filterMap_mention? place, yes.filterMap_mention? place,
      elseEvents_mention? place no]
  | .whileLoop condition body => by
    simp only [Stmt.events, Stmt.mentions, List.filterMap_append,
      condition.filterMap_mention? place, body.filterMap_mention? place]
  | .function declaration => by
    rw [Stmt.events, Event.filterMap_mention?_cons rfl, functionEvents_mention?, Place.sites_set]
    rfl
  | .returns keyword value => by
    rw [Stmt.events, Event.filterMap_mention?_cons rfl, initEvents_mention?]
    rfl
  | .classDef name superclass methods => by
    rw [Stmt.events, Event.filterMap_mention?_cons rfl, List.filterMap_append,
      superclassEvents_mention?, methodEvents_mention?, Place.sites_inClass]
    rfl

theorem elseEvents_mention? (place : Place) : (no : Option Stmt) →
    (elseEvents place no).filterMap Event.mention? = elseMentions place.sites no
  | none => rfl
  | some no => no.filterMap_mention? place

theorem eventsAll_mention? (place : Place) : (body : List Stmt) →
    (eventsAll place body).filterMap Event.mention? = mentionsAll place.sites body
  | [] => rfl
  | first :: rest => by
    rw [eventsAll, List.filterMap_append, first.filterMap_mention? place,
      eventsAll_mention? (place.after first) rest, Place.sites_after]
    rfl

theorem functionEvents_mention? (context : Context) (place : Place) :
    (declaration : FunctionDecl) →
    (functionEvents context place declaration).filterMap Event.mention? =
      functionMentions place.sites declaration
  | ⟨name, params, body⟩ => by
    rw [functionEvents, List.filterMap_append, paramEvents_mention?, List.nil_append,
      eventsAll_mention? _ body, Place.sites_setAll, Place.sites_inFunction]
    rfl

theorem methodEvents_mention? (inClass : ClassContext) (place : Place) :
    (methods : List FunctionDecl) →
    (methodEvents inClass place methods).filterMap Event.mention? =
      methodMentions place.sites methods
  | [] => rfl
  | first :: rest => by
    rw [methodEvents, List.filterMap_append, functionEvents_mention? _ place first,
      methodEvents_mention? inClass place rest]
    rfl

end

/-! ## Declarations in the order of the text -/

structure Laid (ts : List Token) : Prop where
  spelt : ∀ token ∈ ts, Spelt token
  ordered : ts.Pairwise fun first second => first.offset < second.offset

theorem Laid.sublist {ts us : List Token} (h : Laid ts) (hsub : us.Sublist ts) : Laid us :=
  ⟨fun token htoken => h.spelt token (hsub.subset htoken), h.ordered.sublist hsub⟩

theorem Laid.before {ts us : List Token} (h : Laid (ts ++ us)) {first second : Token}
    (hfirst : first ∈ ts) (hsecond : second ∈ us) : first.offset < second.offset :=
  (List.pairwise_append.1 h.ordered).2.2 first hfirst second hsecond

theorem laid_scan (unit : Nat) (text : List Char) : Laid (scan unit text).tokens.toList :=
  ⟨fun _ htoken => spells_of_scan (by simpa using htoken), (ordered_scan unit text).increasing⟩

/-- Seen from the tokens `ts`, the frame will hold the names that its site declares before
them, once the names `ds` are declared too. -/
def Frame.Fits (frame : Frame) (ts ds : List Token) : Prop :=
  ∀ token ∈ ts, ∀ name, frame.site.declaresBefore name token =
    (frame.names.binds name || declaredBefore name token ds)

/-- The frames around the phrase `ts` fit, where the phrase itself declares the names `ds` in
the innermost scope. -/
structure Place.Fits (place : Place) (ts ds : List Token) : Prop where
  laid : Laid ts
  inner : ∀ frame ∈ place.frames.head?, frame.Fits ts ds
  outer : ∀ frame ∈ place.frames.tail, frame.Fits ts []
  classless : place.context.inClass = .outside →
    ∀ frame ∈ place.frames, frame.names.binds "this" = false

theorem declaredBefore_eq_false {name : String} {token : Token} {ds : List Token}
    (h : ∀ d ∈ ds, token.offset ≤ d.offset) : declaredBefore name token ds = false := by
  rw [declaredBefore, List.any_eq_false]
  intro d hd
  have hle := h d hd
  simp only [Bool.and_eq_true, decide_eq_true_eq]
  omega

theorem declaredBefore_append (name : String) (token : Token) (ds es : List Token) :
    declaredBefore name token (ds ++ es) =
      (declaredBefore name token ds || declaredBefore name token es) := List.any_append

/-- All declarations that stand before a token count. -/
theorem declaredBefore_cons {name : String} {token d : Token} (h : d.offset < token.offset)
    (ds : List Token) : declaredBefore name token (d :: ds) =
      (decide (d.lexeme = name) || declaredBefore name token ds) := by
  simp [declaredBefore, h]

namespace Place.Fits

variable {place : Place} {ts us ds es : List Token}

theorem sublist (h : place.Fits ts ds) (hsub : us.Sublist ts) : place.Fits us ds :=
  ⟨h.laid.sublist hsub,
    fun frame hframe token htoken => h.inner frame hframe token (hsub.subset htoken),
    fun frame hframe token htoken => h.outer frame hframe token (hsub.subset htoken),
    h.classless⟩

/-- Declarations behind a phrase are nothing to it. -/
theorem early (h : place.Fits ts (ds ++ es))
    (hlate : ∀ d ∈ es, ∀ token ∈ ts, token.offset ≤ d.offset) : place.Fits ts ds := by
  refine ⟨h.laid, fun frame hframe token htoken name => ?_, h.outer, h.classless⟩
  rw [h.inner frame hframe token htoken name, declaredBefore_append,
    declaredBefore_eq_false fun d hd => hlate d hd token htoken, Bool.or_false]

theorem frames (h : place.Fits ts []) : ∀ frame ∈ place.frames, frame.Fits ts [] := by
  obtain ⟨context, frames⟩ := place
  cases frames with
  | nil => simp
  | cons frame outer => exact List.forall_mem_cons.2 ⟨h.inner frame rfl, h.outer⟩

theorem of_frames {place : Place} (hlaid : Laid ts)
    (h : ∀ frame ∈ place.frames, frame.Fits ts [])
    (hclassless : place.context.inClass = .outside →
      ∀ frame ∈ place.frames, frame.names.binds "this" = false) : place.Fits ts [] :=
  ⟨hlaid, fun frame hframe => h frame (List.mem_of_mem_head? hframe),
    fun frame hframe => h frame (List.mem_of_mem_tail hframe), hclassless⟩

theorem set {d : Token} (h : place.Fits ts (d :: ds)) (hplain : IsPlain d.lexeme)
    (hbefore : ∀ token ∈ ts, d.offset < token.offset) (finished : Bool) :
    (place.set d finished).Fits ts ds := by
  obtain ⟨context, frames⟩ := place
  cases frames with
  | nil => exact ⟨h.laid, by simp [Place.set], by simp [Place.set], by simp [Place.set]⟩
  | cons frame outer =>
    refine ⟨h.laid, ?_, h.outer, fun hclass => ?_⟩
    · rintro _ ⟨⟩ token htoken name
      have hinner := h.inner frame rfl token htoken name
      have hset : (frame.names.set d.lexeme finished).binds name =
          (decide (d.lexeme = name) || frame.names.binds name) := by
        rw [Bool.eq_iff_iff, Bindings.binds_set, Bool.or_eq_true, decide_eq_true_eq]
      rw [declaredBefore_cons (hbefore token htoken), ← Bool.or_assoc,
        Bool.or_comm (frame.names.binds name)] at hinner
      rw [hset]
      exact hinner
    · obtain ⟨hframe, houter⟩ := List.forall_mem_cons.1 (h.classless hclass)
      refine List.forall_mem_cons.2 ⟨Bool.eq_false_iff.2 fun hbinds => ?_, houter⟩
      rcases (Bindings.binds_set frame.names d.lexeme "this" finished).1 hbinds with heq | hold
      · exact hplain.1 heq
      · exact absurd hold (by simp [hframe])

theorem setAll (h : place.Fits ts (es ++ ds)) (hplain : ∀ d ∈ es, IsPlain d.lexeme)
    (hbefore : ∀ d ∈ es, ∀ token ∈ ts, d.offset < token.offset) :
    (place.setAll es).Fits ts ds := by
  induction es generalizing place with
  | nil => exact h
  | cons d es ih =>
    obtain ⟨hd, hes⟩ := List.forall_mem_cons.1 hplain
    obtain ⟨hbeforeD, hbeforeEs⟩ := List.forall_mem_cons.1 hbefore
    exact ih (h.set hd hbeforeD true) hes hbeforeEs

/-- In a scope that begins empty. -/
theorem enter (h : place.Fits ts []) {site : Site}
    (hsite : ∀ name token, site.declaresBefore name token = declaredBefore name token ds) :
    (place.enter site []).Fits ts ds := by
  refine ⟨h.laid, ?_, h.frames, fun hclass => ?_⟩
  · rintro _ ⟨⟩ token htoken name
    exact hsite name token
  · exact List.forall_mem_cons.2 ⟨rfl, h.classless hclass⟩

theorem block (h : place.Fits ts []) (body : List Stmt) :
    (place.enter (.block body) []).Fits ts (body.filterMap Stmt.declared?) :=
  h.enter fun _ _ => rfl

theorem inFunction {context : Context} (h : Place.Fits { place with context } ts [])
    (declaration : FunctionDecl) : (place.inFunction context declaration).Fits ts
      (declaration.params ++ declaration.body.filterMap Stmt.declared?) :=
  h.enter fun _ _ => rfl

/-- The class around a function may change. -/
theorem within {context : Context} (h : place.Fits ts ds)
    (hclass : context.inClass = .outside → place.context.inClass = .outside) :
    Place.Fits { place with context } ts ds :=
  ⟨h.laid, h.inner, h.outer, fun houtside => h.classless (hclass houtside)⟩

/-- The scopes of a class hold their one name everywhere. -/
theorem inClass {name : Token} {superclass : Option Token} (h : (place.set name true).Fits ts [])
    (methods : List FunctionDecl) (sort : FunctionContext) :
    Place.Fits { place.inClass name superclass methods with
      context := ⟨sort, classContext superclass⟩ } ts [] := by
  have hthis : Frame.Fits (.this name methods) ts [] := by
    intro token htoken other
    rw [Frame.binds_single]
    simp [Frame.single, Site.declaresBefore, declaredBefore, eq_comm]
  have hsuper : Frame.Fits (.super name methods) ts [] := by
    intro token htoken other
    rw [Frame.binds_single]
    simp [Frame.single, Site.declaresBefore, declaredBefore, eq_comm]
  refine of_frames h.laid ?_ ?_
  · cases superclass with
    | none => exact List.forall_mem_cons.2 ⟨hthis, h.frames⟩
    | some superclass =>
      exact List.forall_mem_cons.2 ⟨hthis, List.forall_mem_cons.2 ⟨hsuper, h.frames⟩⟩
  · cases superclass <;> simp [classContext]

/-- Behind a statement, seen from the tokens that follow. -/
theorem after {stmt : Stmt} (h : place.Fits ts (stmt.declared?.toList ++ ds))
    (hplain : ∀ d ∈ stmt.declared?, IsPlain d.lexeme)
    (hbefore : ∀ d ∈ stmt.declared?, ∀ token ∈ ts, d.offset < token.offset) :
    (place.after stmt).Fits ts ds := by
  unfold Place.after
  cases hdeclared : stmt.declared? with
  | none => simpa [hdeclared] using h
  | some d =>
    rw [hdeclared] at h hplain hbefore
    exact h.set (hplain d rfl) (hbefore d rfl) true

/-- What a reference finds is what the text says. -/
theorem hops?_eq {token : Token} (h : place.Fits ts []) (htoken : token ∈ ts)
    {sort : ReferenceSort} {name : String} (hthis : sort = .this → name = "this") :
    Reference.hops? ⟨sort, token, name, place⟩ =
      place.sites.findIdx? (·.declaresBefore name token) := by
  have hfind : place.find? name = place.sites.findIdx? (·.declaresBefore name token) := by
    have hmap : place.frames.map (·.names.binds name) =
        place.frames.map (·.site.declaresBefore name token) :=
      List.map_congr_left fun frame hframe => by
        simpa [declaredBefore] using (h.frames frame hframe token htoken name).symm
    simpa [Place.find?, Place.sites, List.findIdx?_map, Function.comp_def] using
      congrArg (List.findIdx? id) hmap
  rw [← hfind, Reference.hops?]
  split
  · next hsort hclass =>
    obtain rfl := hthis hsort
    refine (List.findIdx?_eq_none_iff.2 fun frame hframe => ?_).symm
    exact h.classless hclass frame hframe
  · rfl

end Place.Fits

/-! ## The phrases of the grammar -/

/-- The references in the events have the hops that the text says. -/
def Lexical (events : List Event) : Prop :=
  ∀ event ∈ events, ∀ reference, event.reference? = some reference →
    reference.hops? = reference.mention.hops?

namespace Lexical

variable {events more : List Event}

theorem nil : Lexical [] := by simp [Lexical]

theorem append (h : Lexical events) (hmore : Lexical more) : Lexical (events ++ more) :=
  List.forall_mem_append.2 ⟨h, hmore⟩

theorem also {event : Event} (href : event.reference? = none) (h : Lexical events) :
    Lexical (event :: events) :=
  List.forall_mem_cons.2 ⟨fun reference hsome => by simp [href] at hsome, h⟩

theorem reference {place : Place} {token : Token} (h : place.Fits [token] [])
    {sort : ReferenceSort} {name : String} (hthis : sort = .this → name = "this") :
    Lexical [.reference ⟨sort, token, name, place⟩] := by
  refine List.forall_mem_singleton.2 fun reference href => ?_
  cases href
  exact h.hops?_eq (List.mem_singleton.2 rfl) hthis

theorem params (place : Place) (params : List Token) : Lexical (paramEvents place params) := by
  induction params generalizing place with
  | nil => exact .nil
  | cons param params ih => exact .also rfl (ih (place.set param true))

end Lexical

def Stmt.LexicalIn (ts : List Token) (stmt : Stmt) : Prop :=
  (∀ d ∈ stmt.declared?, d ∈ ts ∧ d.kind = .identifier) ∧
    ∀ place : Place, place.Fits ts stmt.declared?.toList → Lexical (stmt.events place)

theorem Stmt.lexicalIn_of_none {ts : List Token} {stmt : Stmt} (hnone : stmt.declared? = none)
    (h : ∀ place : Place, place.Fits ts [] → Lexical (stmt.events place)) : stmt.LexicalIn ts :=
  ⟨by simp [hnone], fun place hfits => h place (by rwa [hnone] at hfits)⟩

/-- What is so of a phrase in every place that its tokens fit into. -/
def Timely (sort : Nonterminal) (ts : List Token) (tree : sort.Tree) : Prop :=
  match sort, tree with
  | .phrase _, expr => ∀ place : Place, place.Fits ts [] → Lexical (Expr.events place expr)
  | .arguments, args | .argumentList, args =>
    ∀ place : Place, place.Fits ts [] → Lexical (argEvents place args)
  | .optional, expr => ∀ place : Place, place.Fits ts [] → Lexical (initEvents place expr)
  | .expressionStatement, stmt | .statement _, stmt =>
    Stmt.declared? stmt = none ∧
      ∀ place : Place, place.Fits ts [] → Lexical (Stmt.events place stmt)
  | .varDeclaration, stmt | .declaration, stmt => Stmt.LexicalIn ts stmt
  | .initializer, init => ∀ stmt, init = some stmt → Stmt.LexicalIn ts stmt
  | .declarations, body =>
    (∀ d ∈ body.filterMap Stmt.declared?, d ∈ ts ∧ d.kind = .identifier) ∧
      ∀ place : Place, place.Fits ts (body.filterMap Stmt.declared?) →
        Lexical (eventsAll place body)
  | .parameters, params | .parameterList, params =>
    ∀ param ∈ params, param ∈ ts ∧ param.kind = .identifier
  | .function, decl =>
    (FunctionOf.name decl).kind = .identifier ∧
      ∃ us, ts = FunctionOf.name decl :: us ∧ ∀ context (place : Place),
        Place.Fits { place with context } us [] → Lexical (functionEvents context place decl)
  | .methods, decls => ∀ sort inClass (place : Place), inClass ≠ .outside →
      Place.Fits { place with context := ⟨sort, inClass⟩ } ts [] →
        Lexical (methodEvents inClass place decls)

theorem Lexical.joined {level : Level} {kind : Kind} {join : Token → Expr → Expr → Expr}
    (h : Joins level kind join) {mark : Token} {left right : Expr} {place : Place}
    (hleft : Lexical (left.events place)) (hright : Lexical (right.events place)) :
    Lexical ((join mark left right).events place) := by
  cases h <;> exact hleft.append hright

/-- A block in which only the first of two statements declares something. -/
theorem Lexical.pair {ts us : List Token} {first second : Stmt} (hfirst : first.LexicalIn ts)
    (hnone : second.declared? = none)
    (hsecond : ∀ place : Place, place.Fits us [] → Lexical (second.events place)) {place : Place}
    (hts : place.Fits ts []) (hus : place.Fits us [])
    (hbefore : ∀ d ∈ first.declared?, ∀ token ∈ us, d.offset < token.offset) :
    Lexical (Stmt.events place (.block [first, second])) := by
  have hdeclared : [first, second].filterMap Stmt.declared? = first.declared?.toList := by
    cases h : first.declared? <;> simp [h, hnone]
  have htsBlock := hdeclared ▸ hts.block [first, second]
  have husBlock := hdeclared ▸ hus.block [first, second]
  have hafter : ((place.enter (.block [first, second]) []).after first).Fits us [] := by
    refine Place.Fits.after ?_ (fun d hd => ?_) hbefore
    · rwa [List.append_nil]
    · obtain ⟨hmem, hkind⟩ := hfirst.1 d hd
      exact (hts.laid.spelt d hmem).isPlain hkind
  exact Lexical.append (hfirst.2 _ htsBlock) (Lexical.append (hsecond _ hafter) .nil)

theorem lexical_loopBody {body : Stmt} {increment : Option Expr} {bs ns : List Token}
    (hnone : body.declared? = none)
    (hbody : ∀ place : Place, place.Fits bs [] → Lexical (body.events place))
    (hincrement : ∀ place : Place, place.Fits ns [] → Lexical (initEvents place increment))
    {place : Place} (hbs : place.Fits bs []) (hns : place.Fits ns []) :
    Lexical ((loopBody body increment).events place) := by
  cases increment with
  | none => exact hbody place hbs
  | some increment =>
    exact Lexical.pair (Stmt.lexicalIn_of_none hnone hbody) rfl hincrement hbs hns
      (by simp [hnone])

theorem declared?_loop (condition increment : Option Expr) (body : Stmt) (init : Option Stmt) :
    (loop condition increment body init).declared? = none := by
  cases init <;> rfl

theorem lexical_loop {init : Option Stmt} {condition increment : Option Expr} {body : Stmt}
    {is cs ns bs : List Token} (hinit : Timely .initializer is init)
    (hcondition : ∀ place : Place, place.Fits cs [] → Lexical (initEvents place condition))
    (hincrement : ∀ place : Place, place.Fits ns [] → Lexical (initEvents place increment))
    (hnone : body.declared? = none)
    (hbody : ∀ place : Place, place.Fits bs [] → Lexical (body.events place))
    {place : Place} (hfits : place.Fits (is ++ (cs ++ (ns ++ bs))) []) :
    Lexical ((loop condition increment body init).events place) := by
  have hwhile : ∀ place : Place, place.Fits (cs ++ (ns ++ bs)) [] → Lexical
      (Stmt.events place (.whileLoop (loopCondition condition) (loopBody body increment))) := by
    intro place hfits
    refine Lexical.append ?_ (lexical_loopBody hnone hbody hincrement
      (hfits.sublist (by grind)) (hfits.sublist (by grind)))
    cases condition with
    | none => exact .nil
    | some condition => exact hcondition place (hfits.sublist (by grind))
  have hrest := hfits.sublist (List.sublist_append_right is (cs ++ (ns ++ bs)))
  cases init with
  | none => exact hwhile place hrest
  | some init =>
    have hfirst := hinit init rfl
    exact Lexical.pair hfirst rfl hwhile (hfits.sublist (List.sublist_append_left _ _)) hrest
      fun d hd token htoken => hfits.laid.before (hfirst.1 d hd).1 htoken

/-- Behind the declaration of a name, seen from tokens that follow it. -/
theorem Place.Fits.behind {place : Place} {ts us ds : List Token} {keyword name : Token}
    (h : place.Fits (keyword :: name :: ts) (name :: ds)) (hname : name.kind = .identifier)
    (hsub : us.Sublist ts) (finished : Bool) : (place.set name finished).Fits us ds := by
  have hlaid := h.laid
  refine (h.sublist ?_).set ((hlaid.spelt name (by simp)).isPlain hname) ?_ finished
  · exact (hsub.trans (List.sublist_cons_self name ts)).trans (List.sublist_cons_self keyword _)
  · have hordered := (List.pairwise_cons.1 hlaid.ordered).2
    exact fun token htoken => (List.pairwise_cons.1 hordered).1 token (hsub.subset htoken)

theorem Lexical.cons {ts us : List Token} {first : Stmt} {rest : List Stmt}
    (hfirst : Timely .declaration ts first) (hrest : Timely .declarations us rest) :
    Timely .declarations (ts ++ us) (first :: rest) := by
  obtain ⟨hdeclaredFirst, heventsFirst⟩ := hfirst
  obtain ⟨hdeclaredRest, heventsRest⟩ := hrest
  have hdeclared : (first :: rest).filterMap Stmt.declared? =
      first.declared?.toList ++ rest.filterMap Stmt.declared? := by
    cases h : first.declared? <;> simp [h]
  refine ⟨?_, fun place hfits => ?_⟩
  · rw [hdeclared]
    intro d hd
    rcases List.mem_append.1 hd with hd | hd
    · obtain ⟨hmem, hkind⟩ := hdeclaredFirst d (by simpa using hd)
      exact ⟨List.mem_append_left us hmem, hkind⟩
    · obtain ⟨hmem, hkind⟩ := hdeclaredRest d hd
      exact ⟨List.mem_append_right ts hmem, hkind⟩
  · rw [hdeclared] at hfits
    have hlaid := hfits.laid
    refine Lexical.append (heventsFirst place ?_) (heventsRest _ ?_)
    · refine (hfits.sublist (List.sublist_append_left ts us)).early fun d hd token htoken => ?_
      exact Nat.le_of_lt (hlaid.before htoken (hdeclaredRest d hd).1)
    · refine (hfits.sublist (List.sublist_append_right ts us)).after (fun d hd => ?_) ?_
      · obtain ⟨hmem, hkind⟩ := hdeclaredFirst d hd
        exact (hlaid.spelt d (List.mem_append_left us hmem)).isPlain hkind
      · exact fun d hd token htoken => hlaid.before (hdeclaredFirst d hd).1 htoken

theorem Syntax.Derives.timely {sort : Nonterminal} {ts : List Token} {tree : sort.Tree}
    (h : Derives sort ts tree) : Timely sort ts tree := by
  induction h with
  | literal writes => exact fun place hfits => .nil
  | this hthis => exact fun place hfits => .reference hfits fun _ => rfl
  | ref hname => exact fun place hfits => .reference hfits (by rintro ⟨⟩)
  | super hsuper hdot hmethod =>
    exact fun place hfits => .reference (hfits.sublist (by grind)) (by rintro ⟨⟩)
  | grouping hleft hinner hright ih =>
    exact fun place hfits => ih place (hfits.sublist (by grind))
  | call hcallee hleft hargs hright ihcallee ihargs =>
    exact fun place hfits => (ihcallee place (hfits.sublist (by grind))).append
      (ihargs place (hfits.sublist (by grind)))
  | get hobject hdot hname ih => exact fun place hfits => ih place (hfits.sublist (by grind))
  | unary hmark hright ih => exact fun place hfits => ih place (hfits.sublist (by grind))
  | joined hmark hleft hright ihleft ihright =>
    exact fun place hfits => .joined hmark (ihleft place (hfits.sublist (by grind)))
      (ihright place (hfits.sublist (by grind)))
  | assign hname hmark hvalue ih =>
    exact fun place hfits => (ih place (hfits.sublist (by grind))).append
      (.reference (hfits.sublist (by grind)) (by rintro ⟨⟩))
  | set hobject hdot hname hmark hvalue ihobject ihvalue =>
    exact fun place hfits => (ihvalue place (hfits.sublist (by grind))).append
      (ihobject place (hfits.sublist (by grind)))
  | looser hexpr ih => exact ih
  | argument harg ih => exact fun place hfits => (ih place hfits).append .nil
  | moreArguments harg hcomma hargs iharg ihargs =>
    exact fun place hfits => (iharg place (hfits.sublist (by grind))).append
      (ihargs place (hfits.sublist (by grind)))
  | noArguments => exact fun place hfits => .nil
  | someArguments hargs hcount ih => exact ih
  | absent => exact fun place hfits => .nil
  | present hexpr ih => exact ih
  | expressionStatement hvalue hstop ih =>
    exact ⟨rfl, fun place hfits => ih place (hfits.sublist (by grind))⟩
  | plainVariable hvar hname hstop =>
    refine ⟨?_, fun place hfits => .also rfl .nil⟩
    rintro d ⟨⟩
    exact ⟨by simp, hname⟩
  | @initialVariable keyword name mark stop ts init hvar hname hmark hinit hstop ih =>
    refine ⟨?_, fun place hfits => .also rfl (ih _ ?_)⟩
    · rintro d ⟨⟩
      exact ⟨by simp, hname⟩
    · exact hfits.behind hname (by grind) false
  | noInitializer hstop => exact fun stmt heq => by cases heq
  | variableInitializer hinit ih =>
    rintro stmt ⟨⟩
    exact ih
  | expressionInitializer hinit ih =>
    rintro stmt ⟨⟩
    exact Stmt.lexicalIn_of_none ih.1 ih.2
  | expression hstmt ih => exact ih
  | print hprint hvalue hstop ih =>
    exact ⟨rfl, fun place hfits => ih place (hfits.sublist (by grind))⟩
  | returns hreturn hvalue hstop ih =>
    exact ⟨rfl, fun place hfits => .also rfl (ih place (hfits.sublist (by grind)))⟩
  | @block left right ts body hleft hbody hright ih =>
    exact ⟨rfl, fun place hfits => ih.2 _ (Place.Fits.block (hfits.sublist (by grind)) body)⟩
  | whileLoop hwhile hleft hcondition hright hbody ihcondition ihbody =>
    exact ⟨rfl, fun place hfits => (ihcondition place (hfits.sublist (by grind))).append
      (ihbody.2 place (hfits.sublist (by grind)))⟩
  | forLoop hfor hleft hinit hcondition hmiddle hincrement hright hbody ihinit ihcondition
      ihincrement ihbody =>
    refine ⟨declared?_loop _ _ _ _, fun place hfits => ?_⟩
    exact lexical_loop ihinit ihcondition ihincrement ihbody.1 ihbody.2 (hfits.sublist (by grind))
  | ifThen hif hleft hcondition hright hyes ihcondition ihyes =>
    exact ⟨rfl, fun place hfits => (ihcondition place (hfits.sublist (by grind))).append
      ((ihyes.2 place (hfits.sublist (by grind))).append .nil)⟩
  | ifElse hif hleft hcondition hright hyes helse hno ihcondition ihyes ihno =>
    exact ⟨rfl, fun place hfits => (ihcondition place (hfits.sublist (by grind))).append
      ((ihyes.2 place (hfits.sublist (by grind))).append
        (ihno.2 place (hfits.sublist (by grind))))⟩
  | @classDef keyword name left right ts methods hclass hname hleft hmethods hright ih =>
    refine ⟨?_, fun place hfits => .also rfl (ih .method _ _ (by simp [classContext]) ?_)⟩
    · rintro d ⟨⟩
      exact ⟨by simp, hname⟩
    · exact (hfits.behind hname (by grind) true).inClass methods .method
  | @subclassDef keyword name less superclass left right ts methods hclass hname hless hsuperclass
      hleft hmethods hright ih =>
    refine ⟨?_, fun place hfits => .also rfl ?_⟩
    · rintro d ⟨⟩
      exact ⟨by simp, hname⟩
    · refine Lexical.append ?_ (ih .method _ _ (by simp [classContext])
        ((hfits.behind hname (by grind) true).inClass methods .method))
      refine List.forall_mem_singleton.2 fun reference href => ?_
      cases href
      have hbehind : (place.set name false).Fits [superclass] [] :=
        hfits.behind hname (by grind) false
      exact hbehind.hops?_eq (List.mem_singleton.2 rfl) (by rintro ⟨⟩)
  | functionDef hfun hfunction ih =>
    obtain ⟨hkind, us, rfl, hevents⟩ := ih
    refine ⟨?_, fun place hfits => .also rfl (hevents _ _ ?_)⟩
    · rintro d ⟨⟩
      exact ⟨by simp, hkind⟩
    · exact (hfits.behind hkind (List.Sublist.refl us) true).within
        fun hclass => by simpa using hclass
  | variableDef hvariable ih => exact ih
  | statement hstmt ih => exact Stmt.lexicalIn_of_none ih.1 ih.2
  | noDeclarations => exact ⟨by simp, fun place hfits => .nil⟩
  | moreDeclarations hfirst hrest ihfirst ihrest => exact Lexical.cons ihfirst ihrest
  | parameter hparam => simpa [Timely] using hparam
  | moreParameters hparam hcomma hparams ih =>
    refine List.forall_mem_cons.2 ⟨⟨List.mem_cons_self, hparam⟩, fun param hmem => ?_⟩
    obtain ⟨htoken, hkind⟩ := ih param hmem
    exact ⟨by simp [htoken], hkind⟩
  | noParameters => simp [Timely]
  | someParameters hparams hcount ih => exact ih
  | @function name left right open_ close ts us params body hname hleft hparams hright hopen hbody
      hclose ihparams ihbody =>
    refine ⟨hname, _, rfl, fun context place hfits => ?_⟩
    have hboth : (ts ++ us).Sublist (left :: (ts ++ right :: open_ :: (us ++ [close]))) := by grind
    have hbehind := hfits.laid.sublist hboth
    have hinside := (hfits.sublist ((List.sublist_append_right ts us).trans hboth)).inFunction
      ⟨name, params, body⟩
    refine (Lexical.params _ params).append (ihbody.2 _ (hinside.setAll ?_ ?_))
    · intro param hparam
      obtain ⟨hmem, hkind⟩ := ihparams param hparam
      exact (hbehind.spelt param (List.mem_append_left us hmem)).isPlain hkind
    · exact fun param hparam token htoken => hbehind.before (ihparams param hparam).1 htoken
  | noMethods => exact fun sort inClass place hclass hfits => .nil
  | moreMethods hfirst hrest ihfirst ihrest =>
    obtain ⟨-, us, rfl, heventsFirst⟩ := ihfirst
    intro sort inClass place hclass hfits
    refine Lexical.append (heventsFirst _ _ ?_) (ihrest sort inClass place hclass ?_)
    · exact (hfits.sublist (by grind)).within fun houtside => absurd houtside hclass
    · exact hfits.sublist (by grind)

/-! ## Whole programs -/

theorem Place.top_fits {ts : List Token} (h : Laid ts) (ds : List Token) : Place.top.Fits ts ds :=
  ⟨h, by simp [Place.top], by simp [Place.top], by simp [Place.top]⟩

theorem programEvents_mention? (program : List Stmt) :
    (programEvents program).filterMap Event.mention? = programMentions program :=
  eventsAll_mention? .top program

theorem mem_programMentions {program : List Stmt} {mention : Mention} :
    mention ∈ programMentions program ↔ ∃ event ∈ programEvents program, ∃ reference,
      event.reference? = some reference ∧ reference.mention = mention := by
  simp only [← programEvents_mention?, List.mem_filterMap, Event.mention?, Option.map_eq_some_iff]

/-- In a program that was parsed without complaints, whatever the resolver then complains
about, a reference has as many hops as there are scopes between it and the nearest one that
declares its name before it; without such a scope it has none.  There are no links besides. -/
theorem resolution_lexical (unit levels : Nat) (text : List Char) (stop : Token)
    (h : (parseProgram (scan unit text).tokens.toList stop levels).complaints = #[]) :
    let program := (parseProgram (scan unit text).tokens.toList stop levels).tree
    (∀ mention ∈ programMentions program,
      (resolveProgram program).resolution.hops? mention.token = mention.hops?) ∧
    ∀ link ∈ (resolveProgram program).resolution.links, ∃ mention ∈ programMentions program,
      mention.sort = link.sort ∧ mention.token = link.token ∧
        mention.hops? = some link.hops := by
  intro program
  have hderives := derives_of_parseProgram h
  have hlaid := laid_scan unit text
  have hlexical : Lexical (programEvents program) :=
    hderives.timely.2 .top (Place.top_fits hlaid _)
  obtain ⟨hbranched, hmentions⟩ := hderives.told hlaid.spelt
  constructor
  · intro mention hmention
    obtain ⟨event, hevent, reference, href, rfl⟩ := mem_programMentions.1 hmention
    exact (resolveProgram_hops? hbranched (hmentions .top) (nodup_spots unit text) hevent
      href).trans (hlexical event hevent reference href)
  · intro link hlink
    rw [resolveProgram_eq hbranched] at hlink
    obtain ⟨event, hevent, hsome⟩ := List.mem_filterMap.1 hlink
    obtain ⟨reference, href, hsome⟩ := Option.bind_eq_some_iff.1 hsome
    obtain ⟨hops, hhops, rfl⟩ := Option.map_eq_some_iff.1 hsome
    refine ⟨reference.mention, mem_programMentions.2 ⟨event, hevent, reference, href, rfl⟩,
      rfl, rfl, ?_⟩
    exact (hlexical event hevent reference href).symm.trans hhops

/-- A function that reads a name before its block declares it, a class that inherits and reads
the name behind the declaration, and a second declaration, which the resolver rejects. -/
def shadowText : List Char :=
  "\x7bfun f()\x7breturn a;\x7d var a;
  class A<B\x7bm(x)\x7bsuper.m(a); this.x=x;\x7d\x7d var a;\x7d".toList

theorem shadowText_lexical :
    let program := (parseProgram (scan 1 shadowText).tokens.toList (scan 1 shadowText).stop).tree
    (resolveProgram program).complaints.size = 1 ∧
    (programMentions program).map (fun mention => (mention.token.lexeme, mention.hops?)) =
      [("a", none), ("B", none), ("super", some 2), ("a", some 3), ("x", some 0),
        ("this", some 1)] ∧
    ∀ mention ∈ programMentions program,
      (resolveProgram program).resolution.hops? mention.token = mention.hops? := by
  refine ⟨by decide +kernel, by decide +kernel, ?_⟩
  exact (resolution_lexical 1 _ shadowText _ (by decide +kernel)).1

end Moth
