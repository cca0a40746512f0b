import Moth.Proofs.Resolving.Pass
/-!
# Where references stand

In a program whose names are plain, every reference stands in scopes that hold only names
their sites declare.  Only the innermost scope may hold an unfinished declaration, and the
scopes of `this` and `super` stand as the class around the reference says.
-/

namespace Moth

def IsPlain (name : String) : Prop := name ≠ "this" ∧ name ≠ "super"

def Reference.Formed (reference : Reference) : Prop :=
  match reference.sort with
  | .read | .assign => IsPlain reference.name ∧ reference.token.lexeme = reference.name
  | .this => reference.name = "this" ∧ reference.token.lexeme = "this"
  | .super => reference.name = "super"

def Event.Formed : Event → Prop
  | .reference found => found.Formed
  | .declaration name _ => IsPlain name.lexeme
  | .returns .. => True
  | .inherits name superclass => IsPlain name.lexeme ∧ superclass.Formed

namespace Frame

def Finished (frame : Frame) : Prop := ∀ name, frame.names.find? name ≠ some false

def Declared (frame : Frame) : Prop :=
  ∀ name, frame.names.binds name → name ∈ frame.site.declares

def Tidy (frame : Frame) : Prop := frame.Finished ∧ frame.Declared

def Plain (frame : Frame) : Prop := ∀ name, frame.names.binds name → IsPlain name

def single (site : Site) (name : String) : Frame := ⟨site, [(name, true)]⟩

abbrev this (name : Token) (methods : List FunctionDecl) : Frame :=
  single (.this name methods) "this"

abbrev super (name : Token) (methods : List FunctionDecl) : Frame :=
  single (.super name methods) "super"

theorem find?_single (site : Site) (name other : String) :
    (single site name).names.find? other = if name = other then some true else none := rfl

theorem binds_single (site : Site) (name other : String) :
    (single site name).names.binds other = decide (name = other) := by
  rw [Bindings.binds, find?_single]
  split <;> simp_all

theorem tidy_single {site : Site} {name : String} (h : name ∈ site.declares) :
    (single site name).Tidy := by
  constructor
  · intro other
    rw [find?_single]
    split <;> simp
  · intro other hbinds
    rw [binds_single, decide_eq_true_eq] at hbinds
    exact hbinds ▸ h

theorem tidy_empty (site : Site) : Tidy ⟨site, []⟩ :=
  ⟨by simp [Finished], by simp [Declared, Bindings.binds]⟩

theorem plain_empty (site : Site) : Plain ⟨site, []⟩ := by simp [Plain, Bindings.binds]

def set (frame : Frame) (name : String) (finished : Bool) : Frame :=
  { frame with names := frame.names.set name finished }

variable {frame : Frame} {name : String}

theorem Finished.set (h : frame.Finished) : (frame.set name true).Finished := by
  intro other
  by_cases heq : name = other
  · simp [Frame.set, ← heq]
  · simpa [Frame.set, Bindings.find?_set_of_ne frame.names true heq] using h other

theorem Declared.set (h : frame.Declared) (hname : name ∈ frame.site.declares)
    (finished : Bool) : (frame.set name finished).Declared := by
  intro other hbinds
  rcases (Bindings.binds_set frame.names name other finished).1 hbinds with heq | hold
  · exact heq ▸ hname
  · exact h other hold

theorem Plain.set (h : frame.Plain) (hname : IsPlain name) (finished : Bool) :
    (frame.set name finished).Plain := by
  intro other hbinds
  rcases (Bindings.binds_set frame.names name other finished).1 hbinds with heq | hold
  · exact heq ▸ hname
  · exact h other hold

end Frame

/-- The frames are as the nearest class says: its own frames, a method of it right inside them,
and nothing further in that binds `this` or `super`. -/
inductive Enclosed : ClassContext → List Frame → Prop where
  | outside {frames : List Frame} : Enclosed .outside frames
  | plain {frame : Frame} {method : FunctionDecl} {name : Token} {methods : List FunctionDecl}
      {outer : List Frame} : frame.Plain → frame.site = .function method → method ∈ methods →
      Enclosed .plain (frame :: .this name methods :: outer)
  | subclass {frame : Frame} {method : FunctionDecl} {name : Token} {methods : List FunctionDecl}
      {outer : List Frame} : frame.Plain → frame.site = .function method → method ∈ methods →
      Enclosed .subclass (frame :: .this name methods :: .super name methods :: outer)
  | inner {frame : Frame} {inClass : ClassContext} {frames : List Frame} :
      frame.Plain → (∀ name methods, frame.site ≠ .this name methods) →
      Enclosed inClass frames → Enclosed inClass (frame :: frames)

theorem Enclosed.set {inClass : ClassContext} {frame : Frame} {outer : List Frame}
    (h : Enclosed inClass (frame :: outer)) {name : String} (hname : IsPlain name)
    (finished : Bool) : Enclosed inClass (frame.set name finished :: outer) := by
  cases h with
  | outside => exact .outside
  | plain hframe hsite hmethod => exact .plain (hframe.set hname finished) hsite hmethod
  | subclass hframe hsite hmethod => exact .subclass (hframe.set hname finished) hsite hmethod
  | inner hframe hsite houter => exact .inner (hframe.set hname finished) hsite houter

namespace Place

/-- A place between statements. -/
structure Tidy (place : Place) : Prop where
  frames : ∀ frame ∈ place.frames, frame.Tidy
  enclosed : Enclosed place.context.inClass place.frames

/-- A place in an expression, which may be the initializer of an unfinished declaration. -/
structure Sound (place : Place) : Prop where
  finished : ∀ frame ∈ place.frames.tail, frame.Finished
  declared : ∀ frame ∈ place.frames, frame.Declared
  enclosed : Enclosed place.context.inClass place.frames

/-- The innermost site declares the name; the global scope may have any name. -/
def Declares (place : Place) (name : Token) : Prop :=
  ∀ frame outer, place.frames = frame :: outer → name.lexeme ∈ frame.site.declares

variable {place : Place} {name : Token}

theorem Tidy.sound (h : place.Tidy) : place.Sound :=
  ⟨fun frame hframe => (h.frames frame (List.mem_of_mem_tail hframe)).1,
    fun frame hframe => (h.frames frame hframe).2, h.enclosed⟩

theorem Sound.set (h : place.Sound) (hdeclares : place.Declares name)
    (hplain : IsPlain name.lexeme) (finished : Bool) : (place.set name finished).Sound := by
  obtain ⟨context, frames⟩ := place
  cases frames with
  | nil => exact h
  | cons frame outer =>
    obtain ⟨hframe, houter⟩ := List.forall_mem_cons.1 h.declared
    exact ⟨h.finished, List.forall_mem_cons.2 ⟨hframe.set (hdeclares frame outer rfl) finished,
      houter⟩, h.enclosed.set hplain finished⟩

theorem Tidy.set (h : place.Tidy) (hdeclares : place.Declares name)
    (hplain : IsPlain name.lexeme) : (place.set name true).Tidy := by
  obtain ⟨context, frames⟩ := place
  cases frames with
  | nil => exact h
  | cons frame outer =>
    obtain ⟨⟨hfinished, hdeclared⟩, houter⟩ := List.forall_mem_cons.1 h.frames
    exact ⟨List.forall_mem_cons.2 ⟨⟨hfinished.set, hdeclared.set (hdeclares frame outer rfl) true⟩,
      houter⟩, h.enclosed.set hplain true⟩

theorem declares_set {other : Token} (h : place.Declares other) (finished : Bool) :
    (place.set name finished).Declares other := by
  obtain ⟨context, frames⟩ := place
  cases frames with
  | nil => exact h
  | cons frame outer =>
    intro found rest heq
    obtain ⟨rfl, -⟩ := List.cons.inj heq
    exact h frame outer rfl

theorem declares_enter {site : Site} {names : List String} (h : name.lexeme ∈ site.declares) :
    (place.enter site names).Declares name := by
  intro frame outer heq
  obtain ⟨rfl, -⟩ := List.cons.inj heq
  exact h

theorem Tidy.block (h : place.Tidy) (body : List Stmt) : (place.enter (.block body) []).Tidy :=
  ⟨List.forall_mem_cons.2 ⟨Frame.tidy_empty (.block body), h.frames⟩,
    .inner (Frame.plain_empty (.block body)) nofun h.enclosed⟩

theorem declares_after {stmt : Stmt} (h : place.Declares name) :
    (place.after stmt).Declares name := by
  unfold Place.after
  split
  · exact declares_set h true
  · exact h

/-- In the body of a function, before its parameters. -/
theorem Tidy.inFunction (h : place.Tidy) (sort : FunctionContext) (declaration : FunctionDecl) :
    (place.inFunction { place.context with function := sort } declaration).Tidy :=
  ⟨List.forall_mem_cons.2 ⟨Frame.tidy_empty _, h.frames⟩,
    .inner (Frame.plain_empty _) nofun h.enclosed⟩

/-- In the body of a method, before its parameters. -/
theorem Tidy.inMethod (h : place.Tidy) (hdeclares : place.Declares name)
    (hplain : IsPlain name.lexeme) (superclass : Option Token) {methods : List FunctionDecl}
    (sort : FunctionContext) {declaration : FunctionDecl} (hmethod : declaration ∈ methods) :
    ((place.inClass name superclass methods).inFunction ⟨sort, classContext superclass⟩
      declaration).Tidy := by
  have hset := (h.set hdeclares hplain).frames
  have hthis : (Frame.this name methods).Tidy := Frame.tidy_single (by simp [Site.declares])
  have hsuper : (Frame.super name methods).Tidy := Frame.tidy_single (by simp [Site.declares])
  have hbody := Frame.tidy_empty (.function declaration)
  have hplainBody := Frame.plain_empty (.function declaration)
  cases superclass with
  | none =>
    exact ⟨List.forall_mem_cons.2 ⟨hbody, List.forall_mem_cons.2 ⟨hthis, hset⟩⟩,
      .plain hplainBody rfl hmethod⟩
  | some superclass =>
    exact ⟨List.forall_mem_cons.2 ⟨hbody, List.forall_mem_cons.2 ⟨hthis,
      List.forall_mem_cons.2 ⟨hsuper, hset⟩⟩⟩, .subclass hplainBody rfl hmethod⟩

end Place

/-! ## The references of a program -/

mutual

/-- In an expression there are only references, and all of them stand where it does. -/
theorem Expr.events_eq_reference {place : Place} : (expr : Expr) → ∀ event ∈ expr.events place,
    ∃ sort token name, event = .reference ⟨sort, token, name, place⟩
  | .literal _ => List.forall_mem_nil _
  | .grouping inner => inner.events_eq_reference
  | .unary _ _ right => right.events_eq_reference
  | .binary _ _ left right | .logical _ _ left right =>
    List.forall_mem_append.2 ⟨left.events_eq_reference, right.events_eq_reference⟩
  | .ref _ | .this _ | .super _ _ => List.forall_mem_singleton.2 ⟨_, _, _, rfl⟩
  | .assign _ value => List.forall_mem_append.2
      ⟨value.events_eq_reference, List.forall_mem_singleton.2 ⟨_, _, _, rfl⟩⟩
  | .call callee _ args =>
    List.forall_mem_append.2 ⟨callee.events_eq_reference, argEvents_eq_reference args⟩
  | .get object _ => object.events_eq_reference
  | .set object _ value =>
    List.forall_mem_append.2 ⟨value.events_eq_reference, object.events_eq_reference⟩

theorem argEvents_eq_reference {place : Place} : (args : List Expr) →
    ∀ event ∈ argEvents place args, ∃ sort token name, event = .reference ⟨sort, token, name, place⟩
  | [] => List.forall_mem_nil _
  | arg :: args => List.forall_mem_append.2 ⟨arg.events_eq_reference, argEvents_eq_reference args⟩

end

/-- What is so of the places between statements and of those in expressions, if the names that
are declared are such as they should be. -/
structure Standing where
  named : Token → Prop
  between : Place → Prop
  within : Place → Prop
  here : ∀ {place}, between place → within place
  set : ∀ {place name}, between place → place.Declares name → named name →
    between (place.set name true)
  unfinished : ∀ {place name}, between place → place.Declares name → named name →
    within (place.set name false)
  block : ∀ {place}, between place → ∀ body, between (place.enter (.block body) [])
  inFunction : ∀ {place}, between place → ∀ sort declaration,
    between (place.inFunction { place.context with function := sort } declaration)
  inMethod : ∀ {place name}, between place → place.Declares name → named name →
    ∀ superclass {methods} sort {declaration}, declaration ∈ methods →
    between ((place.inClass name superclass methods).inFunction ⟨sort, classContext superclass⟩
      declaration)

def Event.Named (S : Standing) : Event → Prop
  | .declaration name _ => S.named name
  | _ => True

def Event.Stands (S : Standing) (event : Event) : Prop :=
  ∀ reference, event.reference? = some reference → S.within reference.place

section

variable {S : Standing}

theorem Expr.stands {place : Place} (h : S.within place) (expr : Expr) :
    ∀ event ∈ expr.events place, event.Stands S := by
  intro event hevent reference href
  obtain ⟨sort, token, name, rfl⟩ := expr.events_eq_reference event hevent
  cases href
  exact h

theorem initEvents_stand {place : Place} (h : S.within place) (init : Option Expr) :
    ∀ event ∈ initEvents place init, event.Stands S := by
  cases init with
  | none => simp [initEvents]
  | some init => exact init.stands h

theorem Event.stands_declaration (name : Token) (place : Place) :
    (Event.declaration name place).Stands S := by
  intro reference href
  cases href

theorem paramEvents_stand (params : List Token) (place : Place) :
    ∀ event ∈ paramEvents place params, event.Stands S := by
  induction params generalizing place with
  | nil => simp [paramEvents]
  | cons param params ih =>
    exact List.forall_mem_cons.2 ⟨Event.stands_declaration param place, ih _⟩

/-- Behind the parameters, which the function declares. -/
theorem Standing.setAll {params : List Token} {place : Place} (h : S.between place)
    (hdeclares : ∀ param ∈ params, place.Declares param)
    (hnamed : ∀ event ∈ paramEvents place params, event.Named S) :
    S.between (place.setAll params) := by
  induction params generalizing place with
  | nil => exact h
  | cons param params ih =>
    obtain ⟨hparam, hparams⟩ := List.forall_mem_cons.1 hnamed
    obtain ⟨hfirst, hrest⟩ := List.forall_mem_cons.1 hdeclares
    exact ih (S.set h hfirst hparam)
      (fun other hother => Place.declares_set (hrest other hother) true) hparams

theorem Standing.after {place : Place} (h : S.between place) {stmt : Stmt}
    (hdeclares : ∀ name, stmt.declared? = some name → place.Declares name ∧ S.named name) :
    S.between (place.after stmt) := by
  unfold Place.after
  split
  · next name hname => exact S.set h (hdeclares name hname).1 (hdeclares name hname).2
  · exact h

theorem Place.declares_setAll {name : Token} (params : List Token) {place : Place}
    (h : place.Declares name) : (place.setAll params).Declares name := by
  induction params generalizing place with
  | nil => exact h
  | cons param params ih => exact ih (Place.declares_set h true)

theorem Stmt.named_of_declared {stmt : Stmt} {place : Place} {name : Token}
    (hnamed : ∀ event ∈ stmt.events place, event.Named S) (h : stmt.declared? = some name) :
    S.named name := by
  cases stmt <;> cases h <;> exact (List.forall_mem_cons.1 hnamed).1

mutual

/-- All references of a statement stand in such places if the statement does. -/
theorem Stmt.stands {place : Place} (h : S.between place) : (stmt : Stmt) → stmt.Branched →
    (∀ name, stmt.declared? = some name → place.Declares name) →
    (∀ event ∈ stmt.events place, event.Named S) → ∀ event ∈ stmt.events place, event.Stands S
  | .expression value, _, _, _ => value.stands (S.here h)
  | .print value, _, _, _ => value.stands (S.here h)
  | .var name init, _, hdeclares, hnamed => by
    have hname : S.named name := (List.forall_mem_cons.1 hnamed).1
    exact List.forall_mem_cons.2 ⟨Event.stands_declaration name place,
      initEvents_stand (S.unfinished h (hdeclares name rfl) hname) init⟩
  | .block body, hbody, _, hnamed => by
    refine eventsAll_stand (S.block h body) body hbody ?_ hnamed
    intro stmt hstmt name hname
    refine Place.declares_enter ?_
    simp only [Site.declares, List.mem_map, List.mem_filterMap]
    exact ⟨name, ⟨stmt, hstmt, hname⟩, rfl⟩
  | .ifElse condition yes no, ⟨hnone, hyes, hno⟩, _, hnamed => by
    obtain ⟨-, hbranches⟩ := List.forall_mem_append.1 hnamed
    obtain ⟨hnamedYes, hnamedNo⟩ := List.forall_mem_append.1 hbranches
    refine List.forall_mem_append.2 ⟨condition.stands (S.here h),
      List.forall_mem_append.2 ⟨?_, ?_⟩⟩
    · exact yes.stands h hyes (by simp [hnone]) hnamedYes
    · exact elseEvents_stand h no hno hnamedNo
  | .whileLoop condition body, ⟨hnone, hbody⟩, _, hnamed => by
    obtain ⟨-, hnamedBody⟩ := List.forall_mem_append.1 hnamed
    exact List.forall_mem_append.2 ⟨condition.stands (S.here h),
      body.stands h hbody (by simp [hnone]) hnamedBody⟩
  | .function declaration, hbody, hdeclares, hnamed => by
    obtain ⟨hname, hnamedBody⟩ := List.forall_mem_cons.1 hnamed
    have hinside := S.inFunction (S.set h (hdeclares _ rfl) hname) .function declaration
    rw [Place.context_set] at hinside
    exact List.forall_mem_cons.2 ⟨Event.stands_declaration _ place,
      functionEvents_stand hinside hbody hnamedBody⟩
  | .returns keyword value, _, _, _ => by
    refine List.forall_mem_cons.2 ⟨?_, initEvents_stand (S.here h) value⟩
    intro reference href
    cases href
  | .classDef name superclass methods, hmethods, hdeclares, hnamed => by
    obtain ⟨hname, hrest⟩ := List.forall_mem_cons.1 hnamed
    obtain ⟨-, hnamedMethods⟩ := List.forall_mem_append.1 hrest
    refine List.forall_mem_cons.2 ⟨Event.stands_declaration name place,
      List.forall_mem_append.2 ⟨?_, ?_⟩⟩
    · cases superclass with
      | none => simp [superclassEvents]
      | some superclass =>
        intro event hmem reference href
        obtain rfl := List.mem_singleton.1 hmem
        cases href
        exact S.unfinished h (hdeclares name rfl) hname
    · exact methodEvents_stand (fun sort declaration hmethod =>
        S.inMethod h (hdeclares name rfl) hname superclass sort hmethod) hmethods hnamedMethods

theorem elseEvents_stand {place : Place} (h : S.between place) : (no : Option Stmt) →
    BranchedElse no → (∀ event ∈ elseEvents place no, event.Named S) →
    ∀ event ∈ elseEvents place no, event.Stands S
  | none, _, _ => by simp [elseEvents]
  | some no, ⟨hnone, hno⟩, hnamed => no.stands h hno (by simp [hnone]) hnamed

theorem eventsAll_stand {place : Place} (h : S.between place) : (body : List Stmt) →
    BranchedAll body →
    (∀ stmt ∈ body, ∀ name, stmt.declared? = some name → place.Declares name) →
    (∀ event ∈ eventsAll place body, event.Named S) →
    ∀ event ∈ eventsAll place body, event.Stands S
  | [], _, _, _ => by simp [eventsAll]
  | first :: rest, ⟨hfirst, hrest⟩, hdeclares, hnamed => by
    obtain ⟨hdeclaresFirst, hdeclaresRest⟩ := List.forall_mem_cons.1 hdeclares
    obtain ⟨hnamedFirst, hnamedRest⟩ := List.forall_mem_append.1 hnamed
    have hafter : S.between (place.after first) := S.after h fun name hname =>
      ⟨hdeclaresFirst name hname, first.named_of_declared hnamedFirst hname⟩
    exact List.forall_mem_append.2 ⟨first.stands h hfirst hdeclaresFirst hnamedFirst,
      eventsAll_stand hafter rest hrest (fun stmt hstmt name hname =>
        Place.declares_after (hdeclaresRest stmt hstmt name hname)) hnamedRest⟩

theorem functionEvents_stand {context : Context} {place : Place} : {declaration : FunctionDecl} →
    (h : S.between (place.inFunction context declaration)) → BranchedFunction declaration →
    (∀ event ∈ functionEvents context place declaration, event.Named S) →
    ∀ event ∈ functionEvents context place declaration, event.Stands S
  | ⟨name, params, body⟩, h, hbody, hnamed => by
    obtain ⟨hnamedParams, hnamedBody⟩ := List.forall_mem_append.1 hnamed
    refine List.forall_mem_append.2 ⟨paramEvents_stand params _, ?_⟩
    refine eventsAll_stand (S.setAll h ?_ hnamedParams) body hbody ?_ hnamedBody
    · intro param hparam
      refine Place.declares_enter ?_
      simp only [Site.declares, List.map_append, List.mem_append, List.mem_map]
      exact .inl ⟨param, hparam, rfl⟩
    · intro stmt hstmt name hname
      refine Place.declares_setAll params (Place.declares_enter ?_)
      simp only [Site.declares, List.map_append, List.mem_append, List.mem_map, List.mem_filterMap]
      exact .inr ⟨name, ⟨stmt, hstmt, hname⟩, rfl⟩

theorem methodEvents_stand {inClass : ClassContext} {place : Place} :
    {methods : List FunctionDecl} → (∀ sort, ∀ declaration ∈ methods,
      S.between (place.inFunction ⟨sort, inClass⟩ declaration)) → BranchedMethods methods →
    (∀ event ∈ methodEvents inClass place methods, event.Named S) →
    ∀ event ∈ methodEvents inClass place methods, event.Stands S
  | [], _, _, _ => by simp [methodEvents]
  | first :: rest, h, ⟨hfirst, hrest⟩, hnamed => by
    obtain ⟨hnamedFirst, hnamedRest⟩ := List.forall_mem_append.1 hnamed
    exact List.forall_mem_append.2
      ⟨functionEvents_stand (h _ first List.mem_cons_self) hfirst hnamedFirst,
        methodEvents_stand (fun sort declaration hmem =>
          h sort declaration (List.mem_cons_of_mem _ hmem)) hrest hnamedRest⟩

end

/-- The global scope may have any name, so nothing is asked of the statements of a program. -/
theorem programEvents_stand (h : S.between .top) {program : List Stmt}
    (hbranched : BranchedAll program) (hnamed : ∀ event ∈ programEvents program, event.Named S) :
    ∀ event ∈ programEvents program, event.Stands S :=
  eventsAll_stand h program hbranched (fun _ _ _ _ _ _ heq => by cases heq) hnamed

end

/-- Between statements places are tidy, and in expressions they are sound. -/
def Place.soundly : Standing where
  named name := IsPlain name.lexeme
  between := Place.Tidy
  within := Place.Sound
  here := Place.Tidy.sound
  set := Place.Tidy.set
  unfinished h hdeclares hplain := h.sound.set hdeclares hplain false
  block := Place.Tidy.block
  inFunction := Place.Tidy.inFunction
  inMethod h hdeclares hplain superclass _ sort _ hmethod :=
    h.inMethod hdeclares hplain superclass sort hmethod

def Event.Placed (event : Event) : Prop := event.Stands Place.soundly

theorem programEvents_placed {program : List Stmt} (hbranched : BranchedAll program)
    (hformed : ∀ event ∈ programEvents program, event.Formed) :
    ∀ event ∈ programEvents program, event.Placed := by
  have htidy : Place.top.Tidy := ⟨List.forall_mem_nil _, .outside⟩
  refine programEvents_stand htidy hbranched fun event hevent => ?_
  cases event with
  | declaration name place => exact hformed _ hevent
  | _ => trivial

end Moth
