import Moth.Proofs.Desugaring.Layers
import Moth.Proofs.Resolving.Accepted
import Moth.Proofs.Resolving.Tokens
import Moth.Proofs.Twins.Resolved
/-!
# Trees that fit between layers

A tree and a copy of it fit between the layers around them if every reference has hops that meet
those of its copy.  The resolver gives such hops where the frames around the tree and around the
copy differ by frames without names (`Stmt.fits`).
-/

namespace Moth

/-- The same token, but for the unit it is in. -/
def Token.Alike (token other : Token) : Prop := other = { token with unit := other.unit }

theorem Token.Alike.lexeme {token other : Token} (h : token.Alike other) :
    other.lexeme = token.lexeme := by rw [h]

structure Joint where
  links : Resolution
  others : Resolution

structure Joint.Refers (J : Joint) (layers : List Layer) (token other : Token) : Prop where
  alike : token.Alike other
  meet : Option.Rel (Meet layers) (J.links.hops? token) (J.others.hops? other)

/-- The hops to `super` meet, and so do those to `this`, which is one further in. -/
structure Joint.RefersSuper (J : Joint) (layers : List Layer) (token other : Token) : Prop where
  alike : token.Alike other
  meet : ∃ hops hops', J.links.hops? token = some (hops + 1) ∧
    J.others.hops? other = some (hops' + 1) ∧ Meet layers (hops + 1) (hops' + 1) ∧
    Meet layers hops hops'

inductive Expr.Fits (J : Joint) (layers : List Layer) : Expr → Expr → Prop where
  | literal (value : Literal) : Fits J layers (.literal value) (.literal value)
  | grouping {inner inner' : Expr} : Fits J layers inner inner' →
      Fits J layers (.grouping inner) (.grouping inner')
  | unary (op : UnaryOp) {mark mark' : Token} {right right' : Expr} : mark.Alike mark' →
      Fits J layers right right' → Fits J layers (.unary op mark right) (.unary op mark' right')
  | binary (op : BinaryOp) {mark mark' : Token} {left left' right right' : Expr} :
      mark.Alike mark' → Fits J layers left left' → Fits J layers right right' →
      Fits J layers (.binary op mark left right) (.binary op mark' left' right')
  | logical (op : LogicalOp) {mark mark' : Token} {left left' right right' : Expr} :
      mark.Alike mark' → Fits J layers left left' → Fits J layers right right' →
      Fits J layers (.logical op mark left right) (.logical op mark' left' right')
  | ref {name name' : Token} : J.Refers layers name name' →
      Fits J layers (.ref name) (.ref name')
  | assign {name name' : Token} {value value' : Expr} : J.Refers layers name name' →
      Fits J layers value value' → Fits J layers (.assign name value) (.assign name' value')
  | call {callee callee' : Expr} {paren paren' : Token} {args args' : List Expr} :
      Fits J layers callee callee' → paren.Alike paren' →
      List.Forall₂ (Fits J layers) args args' →
      Fits J layers (.call callee paren args) (.call callee' paren' args')
  | get {object object' : Expr} {name name' : Token} : Fits J layers object object' →
      name.Alike name' → Fits J layers (.get object name) (.get object' name')
  | set {object object' value value' : Expr} {name name' : Token} :
      Fits J layers object object' → name.Alike name' → Fits J layers value value' →
      Fits J layers (.set object name value) (.set object' name' value')
  | this {keyword keyword' : Token} : J.Refers layers keyword keyword' →
      Fits J layers (.this keyword) (.this keyword')
  | super {keyword keyword' method method' : Token} : J.RefersSuper layers keyword keyword' →
      method.Alike method' → Fits J layers (.super keyword method) (.super keyword' method')

def classLayers (superclass : Option Token) (layers : List Layer) : List Layer :=
  .both :: if superclass.isSome then .both :: layers else layers

mutual

/-- A declaration binds a name in the innermost scope, which has to be paired. -/
inductive Stmt.Fits (J : Joint) : List Layer → Stmt → Stmt → Prop where
  | expression {layers : List Layer} {value value' : Expr} : value.Fits J layers value' →
      Stmt.Fits J layers (.expression value) (.expression value')
  | print {layers : List Layer} {value value' : Expr} : value.Fits J layers value' →
      Stmt.Fits J layers (.print value) (.print value')
  | var {layers : List Layer} {name name' : Token} {init init' : Option Expr} : SharedHere layers →
      name.Alike name' → Option.Rel (Expr.Fits J layers) init init' →
      Stmt.Fits J layers (.var name init) (.var name' init')
  | block {layers : List Layer} {body body' : List Stmt} : StmtsFit J (.both :: layers) body body' →
      Stmt.Fits J layers (.block body) (.block body')
  | ifElse {layers : List Layer} {condition condition' : Expr} {yes yes' : Stmt}
      {no no' : Option Stmt} : condition.Fits J layers condition' → Stmt.Fits J layers yes yes' →
      ElseFits J layers no no' →
      Stmt.Fits J layers (.ifElse condition yes no) (.ifElse condition' yes' no')
  | whileLoop {layers : List Layer} {condition condition' : Expr} {body body' : Stmt} :
      condition.Fits J layers condition' → Stmt.Fits J layers body body' →
      Stmt.Fits J layers (.whileLoop condition body) (.whileLoop condition' body')
  | function {layers : List Layer} {declaration declaration' : FunctionDecl} : SharedHere layers →
      FunctionFits J layers declaration declaration' →
      Stmt.Fits J layers (.function declaration) (.function declaration')
  | returns {layers : List Layer} {keyword keyword' : Token} {value value' : Option Expr} :
      Option.Rel (Expr.Fits J layers) value value' →
      Stmt.Fits J layers (.returns keyword value) (.returns keyword' value')
  | classDef {layers : List Layer} {name name' : Token} {superclass superclass' : Option Token}
      {methods methods' : List FunctionDecl} : SharedHere layers → name.Alike name' →
      Option.Rel (J.Refers layers) superclass superclass' →
      MethodsFit J (classLayers superclass layers) methods methods' →
      Stmt.Fits J layers (.classDef name superclass methods) (.classDef name' superclass' methods')

inductive ElseFits (J : Joint) : List Layer → Option Stmt → Option Stmt → Prop where
  | none {layers : List Layer} : ElseFits J layers none none
  | some {layers : List Layer} {no no' : Stmt} : Stmt.Fits J layers no no' →
      ElseFits J layers (some no) (some no')

inductive StmtsFit (J : Joint) : List Layer → List Stmt → List Stmt → Prop where
  | nil {layers : List Layer} : StmtsFit J layers [] []
  | cons {layers : List Layer} {first first' : Stmt} {rest rest' : List Stmt} :
      Stmt.Fits J layers first first' → StmtsFit J layers rest rest' →
      StmtsFit J layers (first :: rest) (first' :: rest')

/-- The body of a function has a paired scope, with the parameters in it. -/
inductive FunctionFits (J : Joint) : List Layer → FunctionDecl → FunctionDecl → Prop where
  | mk {layers : List Layer} {name name' : Token} {params params' : List Token}
      {body body' : List Stmt} : name.Alike name' →
      params'.map (·.lexeme) = params.map (·.lexeme) →
      StmtsFit J (.both :: layers) body body' →
      FunctionFits J layers ⟨name, params, body⟩ ⟨name', params', body'⟩

inductive MethodsFit (J : Joint) : List Layer → List FunctionDecl → List FunctionDecl → Prop where
  | nil {layers : List Layer} : MethodsFit J layers [] []
  | cons {layers : List Layer} {first first' : FunctionDecl} {rest rest' : List FunctionDecl} :
      FunctionFits J layers first first' → MethodsFit J layers rest rest' →
      MethodsFit J layers (first :: rest) (first' :: rest')

end

/-! ## Frames without names -/

/-- The frames of two places, layer by layer: paired frames have the same names, and the others
have none.  The scope of `this` stands right inside the next one on the second side. -/
inductive FramesMatch : List Layer → List Frame → List Frame → Prop where
  | nil : FramesMatch [] [] []
  | both {layers : List Layer} {frame frame' : Frame} {frames frames' : List Frame} :
      frame'.names = frame.names →
      (∀ name methods, frame.site = .this name methods → layers.head? ≠ some .right) →
      FramesMatch layers frames frames' →
      FramesMatch (.both :: layers) (frame :: frames) (frame' :: frames')
  | left {layers : List Layer} {frame : Frame} {frames frames' : List Frame} :
      frame.names = [] → FramesMatch layers frames frames' →
      FramesMatch (.left :: layers) (frame :: frames) frames'
  | right {layers : List Layer} {frame' : Frame} {frames frames' : List Frame} :
      frame'.names = [] → FramesMatch layers frames frames' →
      FramesMatch (.right :: layers) frames (frame' :: frames')

namespace FramesMatch

variable {layers : List Layer} {frames frames' : List Frame}

theorem refl : ∀ frames : List Frame, FramesMatch (frames.map fun _ => .both) frames frames
  | [] => .nil
  | _ :: frames => .both rfl (fun _ _ _ => by cases frames <;> nofun) (refl frames)

/-- A name is found on both sides, in frames that are paired, or on neither. -/
theorem findIdx? (h : FramesMatch layers frames frames') (name : String) :
    Option.Rel (Meet layers) (frames.findIdx? (·.names.binds name))
      (frames'.findIdx? (·.names.binds name)) := by
  induction h with
  | nil => exact .none
  | @both layers frame frame' frames frames' hnames _ _ ih =>
    rw [List.findIdx?_cons, List.findIdx?_cons, hnames]
    split
    · exact .some .here
    · revert ih
      cases frames.findIdx? _ <;> cases frames'.findIdx? _ <;> intro ih <;> cases ih
      case none.none => exact .none
      case some.some hmeet => exact .some hmeet.both
  | @left layers frame frames frames' hnames _ ih =>
    rw [List.findIdx?_cons, hnames]
    revert ih
    cases frames.findIdx? _ <;> cases frames'.findIdx? _ <;> intro ih <;> cases ih
    case none.none => exact .none
    case some.some hmeet => exact .some hmeet.left
  | @right layers frame' frames frames' hnames _ ih =>
    rw [List.findIdx?_cons, hnames]
    revert ih
    cases frames.findIdx? _ <;> cases frames'.findIdx? _ <;> intro ih <;> cases ih
    case none.none => exact .none
    case some.some hmeet => exact .some hmeet.right

/-- One step in from where the hops meet, in the scope of `this`, they meet as well. -/
theorem meet_this (h : FramesMatch layers frames frames') {hops hops' : Nat} {name : Token}
    {methods : List FunctionDecl} (hthis : frames[hops]? = some (.this name methods))
    (hmeet : Meet layers (hops + 1) hops') :
    ∃ inner, hops' = inner + 1 ∧ Meet layers hops inner := by
  induction h generalizing hops hops' with
  | nil => cases hmeet
  | @both layers frame frame' frames frames' _ hsite _ ih =>
    cases hmeet with
    | @both _ _ hops' hmeet =>
      refine ⟨hops', rfl, ?_⟩
      cases hops with
      | succ hops =>
        obtain ⟨inner, rfl, hinner⟩ := ih hthis hmeet
        exact hinner.both
      | zero =>
        obtain rfl : frame = .this name methods := Option.some.inj hthis
        have hhead := hsite name methods rfl
        cases hmeet with
        | here => exact .here
        | right => exact absurd rfl hhead
  | left hnames _ ih =>
    cases hmeet with
    | left hmeet =>
      cases hops with
      | succ hops =>
        obtain ⟨inner, rfl, hinner⟩ := ih hthis hmeet
        exact ⟨inner, rfl, hinner.left⟩
      | zero =>
        rw [Option.some.inj hthis] at hnames
        cases hnames
  | right _ _ ih =>
    cases hmeet with
    | right hmeet =>
      obtain ⟨inner, rfl, hinner⟩ := ih hthis hmeet
      exact ⟨inner + 1, rfl, hinner.right⟩

end FramesMatch

structure Place.Matched (layers : List Layer) (place other : Place) : Prop where
  context : other.context = place.context
  frames : FramesMatch layers place.frames other.frames

namespace Place.Matched

variable {layers : List Layer} {place other : Place}

theorem refl (place : Place) : place.Matched (place.frames.map fun _ => .both) place :=
  ⟨rfl, .refl place.frames⟩

theorem enter (h : place.Matched layers other) {site site' : Site}
    (hsite : ∀ name methods, site = .this name methods → layers.head? ≠ some .right)
    (names : List String) :
    (place.enter site names).Matched (.both :: layers) (other.enter site' names) :=
  ⟨h.context, .both rfl hsite h.frames⟩

theorem block (h : place.Matched layers other) (body body' : List Stmt) :
    (place.enter (.block body) []).Matched (.both :: layers) (other.enter (.block body') []) :=
  h.enter (fun _ _ hsite => by cases hsite) []

theorem enterLeft (h : place.Matched layers other) (site : Site) :
    (place.enter site []).Matched (.left :: layers) other :=
  ⟨h.context, .left rfl h.frames⟩

theorem enterRight (h : place.Matched layers other) (site : Site) :
    place.Matched (.right :: layers) (other.enter site []) :=
  ⟨h.context, .right rfl h.frames⟩

theorem inFunction (h : place.Matched layers other) (context : Context)
    (declaration declaration' : FunctionDecl) :
    (place.inFunction context declaration).Matched (.both :: layers)
      (other.inFunction context declaration') :=
  ⟨rfl, .both rfl (fun _ _ hsite => by cases hsite) h.frames⟩

theorem set (h : place.Matched layers other) (hshared : SharedHere layers) {name name' : Token}
    (hname : name'.lexeme = name.lexeme) (finished : Bool) :
    (place.set name finished).Matched layers (other.set name' finished) := by
  obtain ⟨context, frames⟩ := place
  obtain ⟨context', frames'⟩ := other
  obtain ⟨hcontext, hframes⟩ := h
  cases hframes with
  | nil => exact ⟨hcontext, .nil⟩
  | both hnames hsite houter => exact ⟨hcontext, .both (by rw [hnames, hname]) hsite houter⟩
  | left | right => exact hshared.elim

theorem setAll {names names' : List Token} (hnames : names'.map (·.lexeme) = names.map (·.lexeme))
    (hshared : SharedHere layers) {place other : Place} (h : place.Matched layers other) :
    (place.setAll names).Matched layers (other.setAll names') := by
  induction names generalizing names' place other with
  | nil =>
    obtain rfl : names' = [] := List.map_eq_nil_iff.1 hnames
    exact h
  | cons name names ih =>
    cases names' with
    | nil => cases hnames
    | cons name' names' =>
      obtain ⟨hname, hrest⟩ := List.cons.inj hnames
      exact ih hrest (h.set hshared hname true)

theorem inClass (h : place.Matched layers other) (hshared : SharedHere layers) {name name' : Token}
    (hname : name'.lexeme = name.lexeme) {superclass superclass' : Option Token}
    (hsuper : superclass'.isSome = superclass.isSome) (methods methods' : List FunctionDecl) :
    (place.inClass name superclass methods).Matched (classLayers superclass layers)
      (other.inClass name' superclass' methods') := by
  have hset := h.set hshared hname true
  unfold Place.inClass classLayers
  dsimp only
  rw [hsuper]
  split
  · exact (hset.enter (fun _ _ hsite => by cases hsite) _).enter (fun _ _ _ => nofun) _
  · refine hset.enter (fun _ _ _ hhead => ?_) _
    match layers, hshared with
    | [], _ | .both :: _, _ => cases hhead

/-- Behind a statement that declares what its copy declares. -/
theorem after (h : place.Matched layers other) {stmt stmt' : Stmt}
    (hshared : stmt.declared? = none ∨ SharedHere layers)
    (hdeclared : stmt'.declared?.map (·.lexeme) = stmt.declared?.map (·.lexeme)) :
    (place.after stmt).Matched layers (other.after stmt') := by
  unfold Place.after
  cases hleft : stmt.declared? with
  | none =>
    rw [hleft, Option.map_none, Option.map_eq_none_iff] at hdeclared
    rwa [hdeclared]
  | some name =>
    rw [hleft, Option.map_some, Option.map_eq_some_iff] at hdeclared
    obtain ⟨name', hright, hname⟩ := hdeclared
    rw [hright]
    exact h.set (hshared.resolve_left (by simp [hleft])) hname true

end Place.Matched

/-! ## What the resolver gives a copy -/

section

variable {J : Joint} {layers : List Layer} {place other : Place} {sort : ReferenceSort}
  {token token' : Token} {name : String}

/-- A name is as far from its variable as the layers say. -/
theorem Place.Matched.hops? (h : place.Matched layers other) :
    Option.Rel (Meet layers) (Reference.hops? ⟨sort, token, name, place⟩)
      (Reference.hops? ⟨sort, token', name, other⟩) := by
  unfold Reference.hops?
  simp only [h.context]
  split
  · exact .none
  · exact h.frames.findIdx? name

theorem Place.Matched.refers (h : place.Matched layers other) (halike : token.Alike token')
    {event event' : Event} (hevent : event.reference? = some ⟨sort, token, name, place⟩)
    (hevent' : event'.reference? = some ⟨sort, token', name, other⟩)
    (hsettled : event.Settled J.links) (hlinked : Linked J.others [event']) :
    J.Refers layers token token' := by
  refine ⟨halike, ?_⟩
  rw [hsettled.hops _ hevent, hlinked event' List.mem_cons_self _ hevent']
  exact h.hops?

theorem Place.Matched.refersSuper (h : place.Matched layers other) (halike : token.Alike token')
    (hsettled : Event.Settled J.links (.reference ⟨.super, token, name, place⟩))
    (hlinked : Linked J.others [.reference ⟨.super, token', name, other⟩]) :
    J.RefersSuper layers token token' := by
  obtain ⟨inner, body, method, className, methods, outer, hframes, -, -, -, hhops⟩ :=
    (hsettled.settled _ rfl).super rfl
  have hmeet : Option.Rel (Meet layers) (Reference.hops? ⟨.super, token, name, place⟩)
      (Reference.hops? ⟨.super, token', name, other⟩) := h.hops?
  rw [hhops] at hmeet
  have hleft := (hsettled.hops _ rfl).trans hhops
  have hright := hlinked _ List.mem_cons_self _ rfl
  have hthis : place.frames[inner.length + 1]? = some (.this className methods) := by
    rw [show place.frames = _ from hframes]
    simp
  generalize Reference.hops? ⟨.super, token', name, other⟩ = hops' at hmeet hright
  cases hmeet with
  | some hmeet =>
    obtain ⟨hops', rfl, hinner⟩ := h.frames.meet_this hthis hmeet
    exact ⟨halike, inner.length + 1, hops', hleft, hright, hmeet, hinner⟩

end

/-- A change of nothing but the units of tokens. -/
def Relabelling.Moves (r : Relabelling) : Prop := ∀ token : Token, token.Alike (r.label token)

def Relabelling.toUnit (unit : Nat) : Relabelling :=
  ⟨fun token => { token with unit }, fun _ => rfl⟩

theorem Relabelling.moves_toUnit (unit : Nat) : (toUnit unit).Moves := fun _ => rfl

theorem Relabelling.moves_same : same.Moves := fun _ => rfl

section

variable {J : Joint} {r : Relabelling}

mutual

theorem Expr.fits (hr : r.Moves) {layers : List Layer} {place other : Place}
    (h : place.Matched layers other) :
    ∀ expr : Expr, (∀ event ∈ expr.events place, event.Settled J.links) →
    Linked J.others ((expr.relabel r).events other) → expr.Fits J layers (expr.relabel r)
  | .literal value, _, _ => .literal value
  | .grouping inner, hsettled, hlinked => .grouping (Expr.fits hr h inner hsettled hlinked)
  | .unary op mark right, hsettled, hlinked =>
    .unary op (hr mark) (Expr.fits hr h right hsettled hlinked)
  | .binary op mark left right, hsettled, hlinked =>
    have ⟨hleft, hright⟩ := List.forall_mem_append.1 hsettled
    .binary op (hr mark) (Expr.fits hr h left hleft hlinked.left)
      (Expr.fits hr h right hright hlinked.right)
  | .logical op mark left right, hsettled, hlinked =>
    have ⟨hleft, hright⟩ := List.forall_mem_append.1 hsettled
    .logical op (hr mark) (Expr.fits hr h left hleft hlinked.left)
      (Expr.fits hr h right hright hlinked.right)
  | .ref name, hsettled, hlinked => .ref <| by
    have hevent := List.forall_mem_singleton.1 hsettled
    rw [Expr.relabel, Expr.events, (hr name).lexeme] at hlinked
    exact h.refers (hr name) rfl rfl hevent hlinked
  | .assign name value, hsettled, hlinked =>
    have ⟨hvalue, hname⟩ := List.forall_mem_append.1 hsettled
    .assign (by
      have hevent := List.forall_mem_singleton.1 hname
      have hlink := hlinked.right
      rw [(hr name).lexeme] at hlink
      exact h.refers (hr name) rfl rfl hevent hlink) (Expr.fits hr h value hvalue hlinked.left)
  | .call callee paren args, hsettled, hlinked =>
    have ⟨hcallee, hargs⟩ := List.forall_mem_append.1 hsettled
    .call (Expr.fits hr h callee hcallee hlinked.left) (hr paren)
      (argsFit hr h args hargs hlinked.right)
  | .get object name, hsettled, hlinked =>
    .get (Expr.fits hr h object hsettled hlinked) (hr name)
  | .set object name value, hsettled, hlinked =>
    have ⟨hvalue, hobject⟩ := List.forall_mem_append.1 hsettled
    .set (Expr.fits hr h object hobject hlinked.right) (hr name)
      (Expr.fits hr h value hvalue hlinked.left)
  | .this keyword, hsettled, hlinked =>
    .this (h.refers (hr keyword) rfl rfl (List.forall_mem_singleton.1 hsettled) hlinked)
  | .super keyword method, hsettled, hlinked =>
    .super (h.refersSuper (hr keyword) (List.forall_mem_singleton.1 hsettled) hlinked) (hr method)

theorem argsFit (hr : r.Moves) {layers : List Layer} {place other : Place}
    (h : place.Matched layers other) :
    ∀ args : List Expr, (∀ event ∈ argEvents place args, event.Settled J.links) →
    Linked J.others (argEvents other (relabelArgs r args)) →
    List.Forall₂ (Expr.Fits J layers) args (relabelArgs r args)
  | [], _, _ => .nil
  | arg :: args, hsettled, hlinked =>
    have ⟨harg, hargs⟩ := List.forall_mem_append.1 hsettled
    .cons (Expr.fits hr h arg harg hlinked.left) (argsFit hr h args hargs hlinked.right)

end

theorem initFits (hr : r.Moves) {layers : List Layer} {place other : Place}
    (h : place.Matched layers other) :
    ∀ init : Option Expr, (∀ event ∈ initEvents place init, event.Settled J.links) →
    Linked J.others (initEvents other (init.map (Expr.relabel r))) →
    Option.Rel (Expr.Fits J layers) init (init.map (Expr.relabel r))
  | none, _, _ => .none
  | some init, hsettled, hlinked => .some (Expr.fits hr h init hsettled hlinked)

theorem map_lexeme_relabel (hr : r.Moves) (names : List Token) :
    (names.map r.label).map (·.lexeme) = names.map (·.lexeme) := by
  rw [List.map_map]
  exact List.map_congr_left fun name _ => (hr name).lexeme

theorem Stmt.declared?_relabel (hr : r.Moves) (stmt : Stmt) :
    (stmt.relabel r).declared?.map (·.lexeme) = stmt.declared?.map (·.lexeme) := by
  cases stmt with
  | var name init => simp [Stmt.declared?, (hr name).lexeme]
  | function declaration =>
    obtain ⟨name, params, body⟩ := declaration
    simp [Stmt.declared?, (hr name).lexeme]
  | classDef name superclass methods => simp [Stmt.declared?, (hr name).lexeme]
  | _ => rfl

theorem methodContext_relabel (hr : r.Moves) (method : FunctionDecl) :
    methodContext (relabelFunction r method).name = methodContext method.name := by
  obtain ⟨name, params, body⟩ := method
  simp only [relabelFunction, methodContext, (hr name).lexeme]

theorem classContext_relabel (superclass : Option Token) :
    classContext (superclass.map r.label) = classContext superclass := by
  rw [classContext, Option.isSome_map, classContext]

theorem superclassFits (hr : r.Moves) {layers : List Layer} {place other : Place}
    (h : place.Matched layers other) (hshared : SharedHere layers) (name : Token) :
    ∀ superclass : Option Token,
    (∀ event ∈ superclassEvents place name superclass, event.Settled J.links) →
    Linked J.others (superclassEvents other (r.label name) (superclass.map r.label)) →
    Option.Rel (J.Refers layers) superclass (superclass.map r.label)
  | none, _, _ => .none
  | some superclass, hsettled, hlinked => .some <| by
    have hevent := List.forall_mem_singleton.1 hsettled
    rw [Option.map_some, superclassEvents, (hr superclass).lexeme] at hlinked
    exact (h.set hshared (hr name).lexeme false).refers (hr superclass) rfl rfl hevent hlinked

mutual

theorem Stmt.fits (hr : r.Moves) {layers : List Layer} {place other : Place}
    (h : place.Matched layers other) :
    ∀ stmt : Stmt, stmt.Branched → (stmt.declared? = none ∨ SharedHere layers) →
    (∀ event ∈ stmt.events place, event.Settled J.links) →
    Linked J.others ((stmt.relabel r).events other) → stmt.Fits J layers (stmt.relabel r)
  | .expression value, _, _, hsettled, hlinked =>
    .expression (Expr.fits hr h value hsettled hlinked)
  | .print value, _, _, hsettled, hlinked => .print (Expr.fits hr h value hsettled hlinked)
  | .var name init, _, hshared, hsettled, hlinked =>
    have hshared := hshared.resolve_left nofun
    .var hshared (hr name) (initFits hr (h.set hshared (hr name).lexeme false) init
      (List.forall_mem_cons.1 hsettled).2 hlinked.tail)
  | .block body, hbranched, _, hsettled, hlinked =>
    .block (stmtsFit hr (h.block body (relabelAll r body)) body hbranched trivial hsettled hlinked)
  | .ifElse condition yes no, ⟨hyesNone, hyes, hno⟩, _, hsettled, hlinked =>
    have ⟨hcondition, hrest⟩ := List.forall_mem_append.1 hsettled
    have ⟨hyesSettled, hnoSettled⟩ := List.forall_mem_append.1 hrest
    .ifElse (Expr.fits hr h condition hcondition hlinked.left)
      (Stmt.fits hr h yes hyes (.inl hyesNone) hyesSettled hlinked.right.left)
      (elseFits hr h no hno hnoSettled hlinked.right.right)
  | .whileLoop condition body, ⟨hnone, hbody⟩, _, hsettled, hlinked =>
    have ⟨hcondition, hbodySettled⟩ := List.forall_mem_append.1 hsettled
    .whileLoop (Expr.fits hr h condition hcondition hlinked.left)
      (Stmt.fits hr h body hbody (.inl hnone) hbodySettled hlinked.right)
  | .function ⟨name, params, body⟩, hbranched, hshared, hsettled, hlinked =>
    have hshared := hshared.resolve_left nofun
    .function hshared (functionFits hr _ (h.set hshared (hr name).lexeme true)
      ⟨name, params, body⟩ hbranched (List.forall_mem_cons.1 hsettled).2
      (h.context ▸ hlinked.tail))
  | .returns _ value, _, _, hsettled, hlinked =>
    .returns (initFits hr h value (List.forall_mem_cons.1 hsettled).2 hlinked.tail)
  | .classDef name superclass methods, hbranched, hshared, hsettled, hlinked =>
    have hshared := hshared.resolve_left nofun
    have ⟨hsuper, hmethods⟩ := List.forall_mem_append.1 (List.forall_mem_cons.1 hsettled).2
    .classDef hshared (hr name) (superclassFits hr h hshared name superclass hsuper
      hlinked.tail.left) (methodsFit hr _ (h.inClass hshared (hr name).lexeme
      Option.isSome_map methods _)
      methods hbranched hmethods
      (classContext_relabel superclass ▸ hlinked.tail.right))

theorem elseFits (hr : r.Moves) {layers : List Layer} {place other : Place}
    (h : place.Matched layers other) :
    ∀ no : Option Stmt, BranchedElse no →
    (∀ event ∈ elseEvents place no, event.Settled J.links) →
    Linked J.others (elseEvents other (relabelElse r no)) →
    ElseFits J layers no (relabelElse r no)
  | none, _, _, _ => .none
  | some no, ⟨hnone, hno⟩, hsettled, hlinked =>
    .some (Stmt.fits hr h no hno (.inl hnone) hsettled hlinked)

theorem stmtsFit (hr : r.Moves) {layers : List Layer} {place other : Place}
    (h : place.Matched layers other) :
    ∀ body : List Stmt, BranchedAll body → SharedHere layers →
    (∀ event ∈ eventsAll place body, event.Settled J.links) →
    Linked J.others (eventsAll other (relabelAll r body)) →
    StmtsFit J layers body (relabelAll r body)
  | [], _, _, _, _ => .nil
  | first :: rest, ⟨hfirst, hrest⟩, hshared, hsettled, hlinked =>
    have ⟨hfirstSettled, hrestSettled⟩ := List.forall_mem_append.1 hsettled
    .cons (Stmt.fits hr h first hfirst (.inr hshared) hfirstSettled hlinked.left)
      (stmtsFit hr (h.after (.inr hshared) (Stmt.declared?_relabel hr first)) rest hrest hshared
        hrestSettled hlinked.right)

theorem functionFits (hr : r.Moves) (context : Context) {layers : List Layer} {place other : Place}
    (h : place.Matched layers other) : ∀ declaration : FunctionDecl,
    BranchedFunction declaration →
    (∀ event ∈ functionEvents context place declaration, event.Settled J.links) →
    Linked J.others (functionEvents context other (relabelFunction r declaration)) →
    FunctionFits J layers declaration (relabelFunction r declaration)
  | ⟨name, params, body⟩, hbranched, hsettled, hlinked =>
    have hshared : SharedHere (.both :: layers) := trivial
    have hinside := (h.inFunction context ⟨name, params, body⟩
      (relabelFunction r ⟨name, params, body⟩)).setAll (map_lexeme_relabel hr params) hshared
    .mk (hr name) (map_lexeme_relabel hr params) (stmtsFit hr hinside body hbranched trivial
      (List.forall_mem_append.1 hsettled).2 hlinked.right)

theorem methodsFit (hr : r.Moves) (inClass : ClassContext) {layers : List Layer}
    {place other : Place} (h : place.Matched layers other) : ∀ methods : List FunctionDecl,
    BranchedMethods methods →
    (∀ event ∈ methodEvents inClass place methods, event.Settled J.links) →
    Linked J.others (methodEvents inClass other (relabelMethods r methods)) →
    MethodsFit J layers methods (relabelMethods r methods)
  | [], _, _, _ => .nil
  | first :: rest, ⟨hfirst, hrest⟩, hsettled, hlinked =>
    have ⟨hfirstSettled, hrestSettled⟩ := List.forall_mem_append.1 hsettled
    .cons (functionFits hr _ h first hfirst hfirstSettled
      (methodContext_relabel hr first ▸ hlinked.left))
      (methodsFit hr inClass h rest hrest hrestSettled hlinked.right)

end

end

end Moth
