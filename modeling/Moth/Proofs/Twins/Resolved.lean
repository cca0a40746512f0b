import Mathlib.Data.List.Forall2
import Moth.Proofs.Twins.Tree
/-!
# Resolving twins

The resolver does not see groupings, nor where tokens are, and it follows a renaming of variables
as long as no name gets in the way of another.  Of twins it complains about the same faults, and
it gives their references the same hops, so with links of their own paired references meet.
-/

namespace Moth

/-! ## Places under other names -/

/-- The other frames bind the names that the renamings say. -/
inductive FramesTwin (allows : Renaming → Prop) :
    List Renaming → List Frame → List Frame → Prop where
  | nil : FramesTwin allows [] [] []
  | cons {ρ : Renaming} {ρs : List Renaming} {frame frame' : Frame} {outer outer' : List Frame} :
      allows ρ → frame'.names = frame.names.rename ρ → FramesTwin allows ρs outer outer' →
      FramesTwin allows (ρ :: ρs) (frame :: outer) (frame' :: outer')

structure Place.Twin (allows : Renaming → Prop) (ρs : List Renaming) (place other : Place) :
    Prop where
  context : other.context = place.context
  frames : FramesTwin allows ρs place.frames other.frames

/-- Under every renaming of the scopes around a reference, the name that it then has leads as far
as its own does here. -/
def Clear (allows : Renaming → Prop) (events : List Event) : Prop :=
  ∀ event ∈ events, ∀ reference, event.reference? = some reference →
    ∀ ρs other, reference.place.Twin allows ρs other →
      other.find? (Renaming.through ρs (reference.place.find? reference.name) reference.name) =
        reference.place.find? reference.name

def Linked (resolution : Resolution) (events : List Event) : Prop :=
  ∀ event ∈ events, ∀ reference, event.reference? = some reference →
    resolution.hops? reference.token = reference.hops?

section

variable {allows : Renaming → Prop} {resolution : Resolution} {events more : List Event}
  {event : Event}

theorem Clear.left (h : Clear allows (events ++ more)) : Clear allows events :=
  fun event hevent => h event (List.mem_append_left _ hevent)

theorem Clear.right (h : Clear allows (events ++ more)) : Clear allows more :=
  fun event hevent => h event (List.mem_append_right _ hevent)

theorem Clear.tail (h : Clear allows (event :: events)) : Clear allows events :=
  fun event hevent => h event (List.mem_cons_of_mem _ hevent)

theorem Linked.left (h : Linked resolution (events ++ more)) : Linked resolution events :=
  fun event hevent => h event (List.mem_append_left _ hevent)

theorem Linked.right (h : Linked resolution (events ++ more)) : Linked resolution more :=
  fun event hevent => h event (List.mem_append_right _ hevent)

theorem Linked.tail (h : Linked resolution (event :: events)) : Linked resolution events :=
  fun event hevent => h event (List.mem_cons_of_mem _ hevent)

end

namespace Place.Twin

variable {allows : Renaming → Prop} {ρ : Renaming} {ρs : List Renaming} {place other : Place}

theorem top : Place.Twin allows [] .top .top := ⟨rfl, .nil⟩

/-- In a scope that begins with names that stay. -/
theorem enter (h : place.Twin allows ρs other) (hρ : allows ρ) (site site' : Site)
    {names : List String} (hnames : ∀ name ∈ names, ρ name = name) :
    (place.enter site names).Twin allows (ρ :: ρs) (other.enter site' names) := by
  refine ⟨h.context, .cons hρ ?_ h.frames⟩
  simp only [Bindings.rename, List.map_map]
  exact List.map_congr_left fun name hname => by simp [hnames name hname]

theorem block (h : place.Twin allows ρs other) (hρ : allows ρ) (body body' : List Stmt) :
    (place.enter (.block body) []).Twin allows (ρ :: ρs) (other.enter (.block body') []) :=
  h.enter hρ _ _ nofun

theorem set (h : place.Twin allows ρs other) {name name' : Token}
    (hname : name'.lexeme = Renaming.along ρs 0 name.lexeme) (finished : Bool) :
    (place.set name finished).Twin allows ρs (other.set name' finished) := by
  obtain ⟨context, frames⟩ := place
  obtain ⟨context', frames'⟩ := other
  obtain ⟨hcontext, hframes⟩ := h
  refine ⟨?_, ?_⟩
  · unfold Place.set
    cases hframes <;> exact hcontext
  · unfold Place.set
    cases hframes with
    | nil => exact .nil
    | cons hρ hnames houter =>
      rw [Renaming.along_zero] at hname
      exact .cons hρ (by rw [hnames, hname, Bindings.set_rename]) houter

theorem setAll {names names' : List Token}
    (hnames : names'.map (·.lexeme) = names.map (fun name => Renaming.along ρs 0 name.lexeme))
    {place other : Place} (h : place.Twin allows ρs other) :
    (place.setAll names).Twin allows ρs (other.setAll names') := by
  induction names generalizing names' place other with
  | nil =>
    obtain rfl : names' = [] := List.map_eq_nil_iff.1 hnames
    exact h
  | cons name names ih =>
    cases names' with
    | nil => cases hnames
    | cons name' names' =>
      obtain ⟨hname, hrest⟩ := List.cons.inj hnames
      exact ih hrest (h.set hname true)

theorem inFunction (h : place.Twin allows ρs other) (hρ : allows ρ) (context : Context)
    (declaration declaration' : FunctionDecl) :
    (place.inFunction context declaration).Twin allows (ρ :: ρs)
      (other.inFunction context declaration') :=
  ⟨rfl, .cons hρ rfl h.frames⟩

theorem inClass (h : place.Twin allows ρs other) (hsame : allows .same) {name name' : Token}
    (hname : NameStays ρs name name') {superclass superclass' : Option Token}
    (hsuper : superclass'.isSome = superclass.isSome) (methods methods' : List FunctionDecl) :
    (place.inClass name superclass methods).Twin allows (classRenamings ρs superclass)
      (other.inClass name' superclass' methods') := by
  have hset := h.set (hname.1.trans hname.2.symm) true
  unfold Place.inClass classRenamings
  dsimp only
  rw [hsuper]
  split
  · exact (hset.enter hsame _ _ fun _ _ => rfl).enter hsame _ _ fun _ _ => rfl
  · exact hset.enter hsame _ _ fun _ _ => rfl

/-- Behind statements that declare corresponding names. -/
theorem after (h : place.Twin allows ρs other) {stmt stmt' : Stmt}
    (hdeclared : stmt'.declared?.map (·.lexeme) =
      stmt.declared?.map fun name => Renaming.along ρs 0 name.lexeme) :
    (place.after stmt).Twin allows ρs (other.after stmt') := by
  unfold Place.after
  cases hleft : stmt.declared? with
  | none =>
    rw [hleft, Option.map_none, Option.map_eq_none_iff] at hdeclared
    rwa [hdeclared]
  | some name =>
    rw [hleft, Option.map_some, Option.map_eq_some_iff] at hdeclared
    obtain ⟨name', hright, hname⟩ := hdeclared
    rw [hright]
    exact h.set hname true

theorem innermost? (h : place.Twin allows ρs other) (name : String) :
    other.innermost? (Renaming.along ρs 0 name) = place.innermost? name := by
  obtain ⟨context, frames⟩ := place
  obtain ⟨context', frames'⟩ := other
  obtain ⟨-, hframes⟩ := h
  cases hframes with
  | nil => rfl
  | cons hρ hnames houter =>
    simp only [Place.innermost?, Renaming.along_zero, hnames, Bindings.find?_rename]

end Place.Twin

/-- A name is found in the innermost scope if that binds it. -/
theorem Place.innermost?_eq_none (place : Place) (name : String) :
    place.innermost? name = none ↔ place.find? name ≠ some 0 := by
  obtain ⟨context, frames⟩ := place
  cases frames with
  | nil => simp [Place.innermost?, Place.find?]
  | cons frame outer =>
    simp only [Place.innermost?, Place.find?, List.findIdx?_cons, Bindings.binds]
    cases frame.names.find? name <;> simp

section

variable {allows : Renaming → Prop} {ρs : List Renaming} {place other : Place}

/-- Under its new name a reference is as far from its variable, and it has the same fault. -/
theorem Place.Twin.reference (h : place.Twin allows ρs other) {event : Event} {sort : ReferenceSort}
    {token : Token} {name : String}
    (href : event.reference? = some ⟨sort, token, name, place⟩) (hclear : Clear allows [event])
    {name' : String} (hname : name' = Renaming.through ρs (place.find? name) name)
    (token' : Token) :
    Reference.hops? ⟨sort, token', name', other⟩ = Reference.hops? ⟨sort, token, name, place⟩ ∧
      Reference.fault? ⟨sort, token', name', other⟩ =
        Reference.fault? ⟨sort, token, name, place⟩ := by
  have hfind : other.find? name' = place.find? name :=
    hname ▸ hclear event List.mem_cons_self _ href ρs other h
  have hinnermost : other.innermost? name' = place.innermost? name := by
    by_cases hzero : place.find? name = some 0
    · rw [hname, hzero]
      exact h.innermost? name
    · rw [(Place.innermost?_eq_none place name).2 hzero,
        (Place.innermost?_eq_none other name').2 (hfind ▸ hzero)]
  constructor
  · simp only [Reference.hops?, h.context, hfind]
  · simp only [Reference.fault?, h.context, hinnermost]

end

/-! ## The events of twins -/

structure Event.Twin (M : Matching) (event other : Event) : Prop where
  fault : other.complaint?.map (·.fault) = event.complaint?.map (·.fault)
  reference : Option.Rel (fun reference reference' => reference'.hops? = reference.hops? ∧
    reference'.sort = reference.sort ∧ ∃ ρs name name',
      M.pairs ρs reference.token name reference'.token name') event.reference? other.reference?

def EventTwins (M : Matching) (events others : List Event) : Prop :=
  List.Forall₂ (Event.Twin M) events others

theorem EventTwins.append {M : Matching} {events more others more' : List Event}
    (h : EventTwins M events others) (hmore : EventTwins M more more') :
    EventTwins M (events ++ more) (others ++ more') := List.rel_append h hmore

theorem EventTwins.quiet {M : Matching} {events others : List Event}
    (h : EventTwins M events others) (hquiet : Quiet events) : Quiet others := by
  induction h with
  | nil => exact hquiet
  | cons hevent _ ih =>
    obtain ⟨hfirst, hrest⟩ := List.forall_mem_cons.1 hquiet
    have hfault := hevent.fault
    rw [hfirst] at hfault
    exact List.forall_mem_cons.2 ⟨Option.map_eq_none_iff.1 hfault, ih hrest⟩

def Matching.Named (M : Matching) (links : Resolution) : Prop :=
  ∀ {ρs token name token' name'}, M.pairs ρs token name token' name' →
    name' = Renaming.through ρs (links.hops? token) name

section

variable {M : Matching} {links : Resolution} {ρs : List Renaming} {place other : Place}

def Matching.meeting (M : Matching) (links others : Resolution) : Matching where
  allows := M.allows
  pairs ρs token name token' name' :=
    M.pairs ρs token name token' name' ∧ others.hops? token' = links.hops? token

/-- The resolver does the same at the events.  In links of their own the others that are paired
have the same hops, so what is twin is twin with references that meet. -/
structure Together (M : Matching) (links : Resolution) (events others : List Event)
    (twin : Matching → Prop) : Prop where
  events : EventTwins M events others
  meet : ∀ resolution, Linked resolution others → twin (M.meeting links resolution)

namespace Together

variable {events more others more' : List Event} {P Q : Matching → Prop}

theorem nil (h : ∀ M, P M) : Together M links [] [] P := ⟨.nil, fun _ _ => h _⟩

theorem imp (h : Together M links events others P)
    (himp : ∀ resolution, P (M.meeting links resolution) → Q (M.meeting links resolution)) :
    Together M links events others Q :=
  ⟨h.events, fun resolution hlinks => himp resolution (h.meet resolution hlinks)⟩

theorem cons {event event' : Event} (hevent : event.Twin M event')
    (h : Together M links events others P) :
    Together M links (event :: events) (event' :: others) P :=
  ⟨.cons hevent h.events, fun resolution hlinks => h.meet resolution hlinks.tail⟩

theorem append (h : Together M links events others P) (hmore : Together M links more more' Q) :
    Together M links (events ++ more) (others ++ more') fun M => P M ∧ Q M :=
  ⟨h.events.append hmore.events, fun resolution hlinks =>
    ⟨h.meet resolution hlinks.left, hmore.meet resolution hlinks.right⟩⟩

/-- It is enough to look inside the groupings. -/
theorem of_core {expr core : Expr} (hcore : expr.core = core)
    (h : Together M links events (core.events other) P) :
    Together M links events (expr.events other) P := by
  rwa [← Expr.events_core, hcore]

end Together

/-- Under its new name a reference has the same hops in the links of its own program. -/
theorem Place.Twin.meets (h : place.Twin M.allows ρs other) {event event' : Event}
    {sort : ReferenceSort} {token token' : Token} {name name' : String}
    (href : event.reference? = some ⟨sort, token, name, place⟩)
    (href' : event'.reference? = some ⟨sort, token', name', other⟩)
    (hlinks : Linked links [event]) {others : Resolution} (hothers : Linked others [event'])
    (hclear : Clear M.allows [event])
    (hname : name' = Renaming.through ρs (place.find? name) name) :
    others.hops? token' = links.hops? token := by
  have hleft : links.hops? token = _ := hlinks event List.mem_cons_self _ href
  have hright : others.hops? token' = _ := hothers event' List.mem_cons_self _ href'
  rw [hleft, hright, (h.reference href hclear hname token').1]

theorem Place.Twin.together (h : place.Twin M.allows ρs other) {sort : ReferenceSort}
    {token token' : Token} {name name' n n' : String}
    (hlinks : Linked links [.reference ⟨sort, token, name, place⟩])
    (hclear : Clear M.allows [.reference ⟨sort, token, name, place⟩])
    (hname : name' = Renaming.through ρs (place.find? name) name)
    (hpair : M.pairs ρs token n token' n') :
    Together M links [.reference ⟨sort, token, name, place⟩]
      [.reference ⟨sort, token', name', other⟩] fun M => M.pairs ρs token n token' n' := by
  obtain ⟨hhops, hfault⟩ := h.reference rfl hclear hname token'
  refine ⟨.cons ⟨?_, .some ⟨hhops, rfl, ρs, n, n', hpair⟩⟩ .nil, fun resolution hothers =>
    ⟨hpair, h.meets rfl rfl hlinks hothers hclear hname⟩⟩
  simp only [Event.complaint?, hfault, Option.map_map, Function.comp_def]

theorem Place.Twin.declarationEvent (h : place.Twin M.allows ρs other) {name name' : Token}
    (hname : name'.lexeme = Renaming.along ρs 0 name.lexeme) :
    Event.Twin M (.declaration name place) (.declaration name' other) := by
  refine ⟨?_, .none⟩
  simp only [Event.complaint?, hname, h.innermost?]
  split <;> rfl

/-- The name of a reference that is read or assigned is as its hops say. -/
theorem Matching.Named.find? (hM : M.Named links) (sort : ReferenceSort) {token token' : Token}
    {event : Event} (href : event.reference? = some ⟨sort, token, token.lexeme, place⟩)
    (hsort : sort ≠ .this) (hlinks : Linked links [event])
    (hpair : M.pairs ρs token token.lexeme token' token'.lexeme) :
    token'.lexeme = Renaming.through ρs (place.find? token.lexeme) token.lexeme := by
  have hhops : links.hops? token = Reference.hops? ⟨sort, token, token.lexeme, place⟩ :=
    hlinks event List.mem_cons_self _ href
  rw [hM hpair, hhops]
  cases sort with
  | this => exact absurd rfl hsort
  | read | assign | super => rfl

mutual

theorem Expr.Twin.together (hM : M.Named links) (h : place.Twin M.allows ρs other) :
    ∀ (expr : Expr) {expr' : Expr}, expr.Twin M ρs expr' → Linked links (expr.events place) →
    Clear M.allows (expr.events place) →
    Together M links (expr.events place) (expr'.events other) fun M => expr.Twin M ρs expr'
  | .grouping inner, _, htwin, hlinks, hclear => Expr.Twin.together hM h inner htwin hlinks hclear
  | .literal _, _, hcore, _, _ => .of_core hcore (.nil fun _ => hcore)
  | .unary _ _ right, _, ⟨mark', right', hcore, hright⟩, hlinks, hclear =>
    .of_core hcore ((Expr.Twin.together hM h right hright hlinks hclear).imp
      fun _ hright => ⟨mark', right', hcore, hright⟩)
  | .binary _ _ left right, _, ⟨mark', left', right', hcore, hleft, hright⟩, hlinks, hclear =>
    .of_core hcore (((Expr.Twin.together hM h left hleft hlinks.left hclear.left).append
      (Expr.Twin.together hM h right hright hlinks.right hclear.right)).imp
        fun _ hboth => ⟨mark', left', right', hcore, hboth⟩)
  | .logical _ _ left right, _, ⟨mark', left', right', hcore, hleft, hright⟩, hlinks, hclear =>
    .of_core hcore (((Expr.Twin.together hM h left hleft hlinks.left hclear.left).append
      (Expr.Twin.together hM h right hright hlinks.right hclear.right)).imp
        fun _ hboth => ⟨mark', left', right', hcore, hboth⟩)
  | .ref _, _, ⟨name', hcore, hname⟩, hlinks, hclear =>
    .of_core hcore ((h.together hlinks hclear (hM.find? .read rfl nofun hlinks hname) hname).imp
      fun _ hname => ⟨name', hcore, hname⟩)
  | .assign _ value, _, ⟨name', value', hcore, hname, hvalue⟩, hlinks, hclear =>
    .of_core hcore (((Expr.Twin.together hM h value hvalue hlinks.left hclear.left).append
      (h.together hlinks.right hclear.right (hM.find? .assign rfl nofun hlinks.right hname)
        hname)).imp fun _ hboth => ⟨name', value', hcore, hboth.2, hboth.1⟩)
  | .call callee _ args, _, ⟨callee', paren', args', hcore, hcallee, hargs⟩, hlinks, hclear =>
    .of_core hcore (((Expr.Twin.together hM h callee hcallee hlinks.left hclear.left).append
      (argTwins_together hM h args hargs hlinks.right hclear.right)).imp
        fun _ hboth => ⟨callee', paren', args', hcore, hboth⟩)
  | .get object _, _, ⟨object', name', hcore, hobject, hname⟩, hlinks, hclear =>
    .of_core hcore ((Expr.Twin.together hM h object hobject hlinks hclear).imp
      fun _ hobject => ⟨object', name', hcore, hobject, hname⟩)
  | .set object _ value, _, ⟨object', name', value', hcore, hobject, hname, hvalue⟩, hlinks,
      hclear =>
    .of_core hcore (((Expr.Twin.together hM h value hvalue hlinks.left hclear.left).append
      (Expr.Twin.together hM h object hobject hlinks.right hclear.right)).imp
        fun _ hboth => ⟨object', name', value', hcore, hboth.2, hname, hboth.1⟩)
  | .this _, _, ⟨keyword', hcore, hkeyword⟩, hlinks, hclear =>
    .of_core hcore ((h.together hlinks hclear (Renaming.through_this ρs _).symm hkeyword).imp
      fun _ hkeyword => ⟨keyword', hcore, hkeyword⟩)
  | .super _ _, _, ⟨keyword', method', hcore, hkeyword, hmethod⟩, hlinks, hclear =>
    .of_core hcore ((h.together hlinks hclear (Renaming.through_super ρs _).symm hkeyword).imp
      fun _ hkeyword => ⟨keyword', method', hcore, hkeyword, hmethod⟩)

theorem argTwins_together (hM : M.Named links) (h : place.Twin M.allows ρs other) :
    ∀ (args : List Expr) {args' : List Expr}, argTwins M ρs args args' →
    Linked links (argEvents place args) → Clear M.allows (argEvents place args) →
    Together M links (argEvents place args) (argEvents other args') fun M =>
      argTwins M ρs args args'
  | [], _, rfl, _, _ => .nil fun _ => rfl
  | arg :: args, _, ⟨arg', args', rfl, harg, hargs⟩, hlinks, hclear =>
    ((Expr.Twin.together hM h arg harg hlinks.left hclear.left).append
      (argTwins_together hM h args hargs hlinks.right hclear.right)).imp
        fun _ hboth => ⟨arg', args', rfl, hboth⟩

end

theorem initTwin_together (hM : M.Named links) (h : place.Twin M.allows ρs other) :
    ∀ {init init' : Option Expr}, initTwin M ρs init init' →
    Linked links (initEvents place init) → Clear M.allows (initEvents place init) →
    Together M links (initEvents place init) (initEvents other init') fun M =>
      initTwin M ρs init init'
  | none, _, rfl, _, _ => .nil fun _ => rfl
  | some init, _, ⟨init', rfl, hinit⟩, hlinks, hclear =>
    (Expr.Twin.together hM h init hinit hlinks hclear).imp fun _ hinit => ⟨init', rfl, hinit⟩

theorem Place.find?_set_self (place : Place) (name : Token) (finished : Bool)
    (h : place.frames ≠ []) : (place.set name finished).find? name.lexeme = some 0 := by
  obtain ⟨context, frames⟩ := place
  cases frames with
  | nil => exact absurd rfl h
  | cons frame outer => simp [Place.set, Place.find?, List.findIdx?_cons, Bindings.binds]

/-- A class inherits from itself under the one names exactly if it does under the others. -/
theorem Place.Twin.inherits (h : place.Twin M.allows ρs other) {name name' : Token}
    (hname : NameStays ρs name name') {above above' : String}
    (habove : above' = Renaming.through ρs ((place.set name false).find? above) above)
    (hfind : (other.set name' false).find? above' = (place.set name false).find? above) :
    above' = name'.lexeme ↔ above = name.lexeme := by
  obtain ⟨context, frames⟩ := place
  obtain ⟨context', frames'⟩ := other
  obtain ⟨hcontext, hframes⟩ := h
  cases hframes with
  | nil => rw [habove, hname.1]; rfl
  | @cons ρ ρs frame frame' outer outer' hρ hnames houter =>
    have hself := Place.find?_set_self ⟨context, frame :: outer⟩ name false (List.cons_ne_nil _ _)
    have hself' :=
      Place.find?_set_self ⟨context', frame' :: outer'⟩ name' false (List.cons_ne_nil _ _)
    constructor
    · intro heq
      rw [heq, hself'] at hfind
      rw [← hfind, Renaming.through, heq, hname.1] at habove
      exact (Renaming.injective _ (hname.2.trans habove)).symm
    · intro heq
      subst heq
      rw [habove, hself, Renaming.through, hname.2, hname.1]

theorem superclassTwin_together (hM : M.Named links) (h : place.Twin M.allows ρs other)
    {name name' : Token} (hname : NameStays ρs name name') :
    ∀ {superclass superclass' : Option Token}, superclassTwin M ρs superclass superclass' →
    Linked links (superclassEvents place name superclass) →
    Clear M.allows (superclassEvents place name superclass) →
    Together M links (superclassEvents place name superclass)
      (superclassEvents other name' superclass') fun M => superclassTwin M ρs superclass superclass'
  | none, _, rfl, _, _ => .nil fun _ => rfl
  | some superclass, _, ⟨superclass', rfl, hsuper⟩, hlinks, hclear => by
    have hset := h.set (hname.1.trans hname.2.symm) false
    have habove := hM.find? .read rfl nofun hlinks hsuper
    have hfind := hclear _ List.mem_cons_self _ rfl ρs _ hset
    rw [← habove] at hfind
    obtain ⟨hhops, hfault⟩ := hset.reference rfl hclear habove superclass'
    have hself := h.inherits hname habove hfind
    refine ⟨.cons ⟨?_, .some ⟨hhops, rfl, ρs, _, _, hsuper⟩⟩ .nil, fun resolution hothers =>
      ⟨superclass', rfl, hsuper, hset.meets rfl rfl hlinks hothers hclear habove⟩⟩
    simp only [Event.complaint?, hself]
    split
    · rfl
    · simp only [hfault, Option.map_map, Function.comp_def]

theorem superclassTwin_isSome : ∀ {superclass superclass' : Option Token},
    superclassTwin M ρs superclass superclass' → superclass'.isSome = superclass.isSome
  | none, _, rfl => rfl
  | some _, _, ⟨_, rfl, _⟩ => rfl

theorem initTwin_isSome : ∀ {init init' : Option Expr}, initTwin M ρs init init' →
    init'.isSome = init.isSome
  | none, _, rfl => rfl
  | some _, _, ⟨_, rfl, _⟩ => rfl

/-- Twins declare corresponding names. -/
theorem Stmt.Twin.declared? {stmt stmt' : Stmt} (h : stmt.Twin M ρs stmt') :
    stmt'.declared?.map (·.lexeme) =
      stmt.declared?.map fun name => Renaming.along ρs 0 name.lexeme := by
  cases stmt with
  | var name init =>
    obtain ⟨name', init', rfl, hname, -⟩ := h
    exact congrArg some hname
  | function declaration =>
    obtain ⟨declaration', rfl, hname, -⟩ := h
    exact congrArg some (hname.1.trans hname.2.symm)
  | classDef name superclass methods =>
    obtain ⟨name', superclass', methods', rfl, hname, -⟩ := h
    exact congrArg some (hname.1.trans hname.2.symm)
  | expression value | print value =>
    obtain ⟨value', rfl, -⟩ := h
    rfl
  | block body =>
    obtain ⟨body', ρ, rfl, -⟩ := h
    rfl
  | ifElse condition yes no =>
    obtain ⟨condition', yes', no', rfl, -⟩ := h
    rfl
  | whileLoop condition body =>
    obtain ⟨condition', body', rfl, -⟩ := h
    rfl
  | returns keyword value =>
    obtain ⟨keyword', value', rfl, -⟩ := h
    rfl

theorem paramEvents_twin {params params' : List Token} {place other : Place}
    (h : place.Twin M.allows ρs other)
    (hparams : params'.map (·.lexeme) =
      params.map fun param => Renaming.along ρs 0 param.lexeme) :
    EventTwins M (paramEvents place params) (paramEvents other params') := by
  induction params generalizing params' place other with
  | nil =>
    obtain rfl : params' = [] := List.map_eq_nil_iff.1 hparams
    exact .nil
  | cons param params ih =>
    cases params' with
    | nil => cases hparams
    | cons param' params' =>
      obtain ⟨hparam, hrest⟩ := List.cons.inj hparams
      exact .cons (h.declarationEvent hparam) (ih (h.set hparam true) hrest)

theorem methodContext_congr {name name' : Token} (h : name'.lexeme = name.lexeme) :
    methodContext name' = methodContext name := by
  rw [methodContext, methodContext, h]

theorem classContext_congr {superclass superclass' : Option Token}
    (h : superclass'.isSome = superclass.isSome) :
    classContext superclass' = classContext superclass := by
  rw [classContext, classContext, h]

mutual

theorem Stmt.Twin.together (hM : M.Named links) (hsame : M.allows .same) : ∀ (ρs : List Renaming)
    (place other : Place) (stmt : Stmt) {stmt' : Stmt}, place.Twin M.allows ρs other →
    stmt.Twin M ρs stmt' → Linked links (stmt.events place) → Clear M.allows (stmt.events place) →
    Together M links (stmt.events place) (stmt'.events other) fun M => stmt.Twin M ρs stmt'
  | _, _, _, .expression value, _, h, ⟨value', rfl, hvalue⟩, hlinks, hclear =>
    (Expr.Twin.together hM h value hvalue hlinks hclear).imp fun _ hvalue => ⟨value', rfl, hvalue⟩
  | _, _, _, .print value, _, h, ⟨value', rfl, hvalue⟩, hlinks, hclear =>
    (Expr.Twin.together hM h value hvalue hlinks hclear).imp fun _ hvalue => ⟨value', rfl, hvalue⟩
  | _, _, _, .var name init, _, h, ⟨name', init', rfl, hname, hinit⟩, hlinks, hclear =>
    .cons (h.declarationEvent hname)
      ((initTwin_together hM (h.set hname false) hinit hlinks.tail hclear.tail).imp
        fun _ hinit => ⟨name', init', rfl, hname, hinit⟩)
  | ρs, place, other, .block body, _, h, ⟨body', ρ, rfl, hρ, hbody⟩, hlinks, hclear =>
    (stmtTwins_together hM hsame (ρ :: ρs) _ _ body (h.block hρ body _) hbody hlinks hclear).imp
      fun _ hbody => ⟨body', ρ, rfl, hρ, hbody⟩
  | ρs, place, other, .ifElse condition yes no, _, h,
      ⟨condition', yes', no', rfl, hcondition, hyes, hno⟩, hlinks, hclear =>
    ((Expr.Twin.together hM h condition hcondition hlinks.left hclear.left).append
      ((Stmt.Twin.together hM hsame ρs place other yes h hyes hlinks.right.left
        hclear.right.left).append (elseTwin_together hM hsame ρs place other no h hno
          hlinks.right.right hclear.right.right))).imp
            fun _ hall => ⟨condition', yes', no', rfl, hall⟩
  | ρs, place, other, .whileLoop condition body, _, h,
      ⟨condition', body', rfl, hcondition, hbody⟩, hlinks, hclear =>
    ((Expr.Twin.together hM h condition hcondition hlinks.left hclear.left).append
      (Stmt.Twin.together hM hsame ρs place other body h hbody hlinks.right hclear.right)).imp
        fun _ hboth => ⟨condition', body', rfl, hboth⟩
  | ρs, place, other, .function declaration, _, h, ⟨declaration', rfl, hname, hdeclaration⟩,
      hlinks, hclear => by
    have hnamed := hname.1.trans hname.2.symm
    refine .cons (h.declarationEvent hnamed) ?_
    rw [h.context]
    exact (functionTwin_together hM hsame ρs _ _ _ declaration (h.set hnamed true) hdeclaration
      hlinks.tail hclear.tail).imp fun _ hdeclaration => ⟨declaration', rfl, hname, hdeclaration⟩
  | ρs, place, other, .returns keyword value, _, h, ⟨keyword', value', rfl, hvalue⟩, hlinks,
      hclear => by
    refine .cons ⟨?_, .none⟩ ((initTwin_together hM h hvalue hlinks.tail hclear.tail).imp
      fun _ hvalue => ⟨keyword', value', rfl, hvalue⟩)
    simp only [Event.complaint?, h.context, initTwin_isSome hvalue]
    cases place.context.function <;> cases value <;> rfl
  | ρs, place, other, .classDef name superclass methods, _, h,
      ⟨name', superclass', methods', rfl, hname, hsuper, hmethods⟩, hlinks, hclear => by
    have hsome := superclassTwin_isSome hsuper
    have habove := superclassTwin_together hM h hname hsuper hlinks.tail.left hclear.tail.left
    have hbodies := methodTwins_together hM hsame (classRenamings ρs superclass) _ _ _ methods
      (h.inClass hsame hname hsome methods methods') hmethods hlinks.tail.right hclear.tail.right
    refine .cons (h.declarationEvent (hname.1.trans hname.2.symm)) ?_
    rw [classContext_congr hsome]
    exact (habove.append hbodies).imp
      fun _ hboth => ⟨name', superclass', methods', rfl, hname, hboth⟩
termination_by structural _ _ _ stmt => stmt

theorem elseTwin_together (hM : M.Named links) (hsame : M.allows .same) : ∀ (ρs : List Renaming)
    (place other : Place) (no : Option Stmt) {no' : Option Stmt}, place.Twin M.allows ρs other →
    elseTwin M ρs no no' → Linked links (elseEvents place no) →
    Clear M.allows (elseEvents place no) →
    Together M links (elseEvents place no) (elseEvents other no') fun M => elseTwin M ρs no no'
  | _, _, _, none, _, _, rfl, _, _ => .nil fun _ => rfl
  | ρs, place, other, some no, _, h, ⟨no', rfl, hno⟩, hlinks, hclear =>
    (Stmt.Twin.together hM hsame ρs place other no h hno hlinks hclear).imp
      fun _ hno => ⟨no', rfl, hno⟩
termination_by structural _ _ _ no => no

theorem stmtTwins_together (hM : M.Named links) (hsame : M.allows .same) : ∀ (ρs : List Renaming)
    (place other : Place) (body : List Stmt) {body' : List Stmt}, place.Twin M.allows ρs other →
    stmtTwins M ρs body body' → Linked links (eventsAll place body) →
    Clear M.allows (eventsAll place body) → Together M links (eventsAll place body)
      (eventsAll other body') fun M => stmtTwins M ρs body body'
  | _, _, _, [], _, _, rfl, _, _ => .nil fun _ => rfl
  | ρs, place, other, first :: rest, _, h, ⟨first', rest', rfl, hfirst, hrest⟩, hlinks, hclear =>
    ((Stmt.Twin.together hM hsame ρs place other first h hfirst hlinks.left hclear.left).append
      (stmtTwins_together hM hsame ρs _ _ rest (h.after hfirst.declared?) hrest hlinks.right
        hclear.right)).imp fun _ hboth => ⟨first', rest', rfl, hboth⟩
termination_by structural _ _ _ body => body

theorem functionTwin_together (hM : M.Named links) (hsame : M.allows .same) :
    ∀ (ρs : List Renaming) (context : Context) (place other : Place) (declaration : FunctionDecl)
    {declaration' : FunctionDecl}, place.Twin M.allows ρs other →
    functionTwin M ρs declaration declaration' →
    Linked links (functionEvents context place declaration) →
    Clear M.allows (functionEvents context place declaration) →
    Together M links (functionEvents context place declaration)
      (functionEvents context other declaration') fun M =>
        functionTwin M ρs declaration declaration'
  | ρs, context, place, other, ⟨name, params, body⟩, ⟨name', params', body'⟩, h,
      ⟨hname, ρ, hρ, hparams, hbody⟩, hlinks, hclear => by
    have hinside := h.inFunction hρ context ⟨name, params, body⟩ ⟨name', params', body'⟩
    have hstmts := stmtTwins_together hM hsame (ρ :: ρs) _ _ body (hinside.setAll hparams) hbody
      hlinks.right hclear.right
    exact ⟨.append (paramEvents_twin hinside hparams) hstmts.events, fun resolution hothers =>
      ⟨hname, ρ, hρ, hparams, hstmts.meet resolution hothers.right⟩⟩
termination_by structural _ _ _ _ declaration => declaration

theorem methodTwins_together (hM : M.Named links) (hsame : M.allows .same) : ∀ (ρs : List Renaming)
    (inClass : ClassContext) (place other : Place) (methods : List FunctionDecl)
    {methods' : List FunctionDecl}, place.Twin M.allows ρs other →
    methodTwins M ρs methods methods' → Linked links (methodEvents inClass place methods) →
    Clear M.allows (methodEvents inClass place methods) →
    Together M links (methodEvents inClass place methods) (methodEvents inClass other methods')
      fun M => methodTwins M ρs methods methods'
  | _, _, _, _, [], _, _, rfl, _, _ => .nil fun _ => rfl
  | ρs, inClass, place, other, first :: rest, _, h, ⟨first', rest', rfl, hfirst, hrest⟩,
      hlinks, hclear => by
    have hone := functionTwin_together hM hsame ρs _ place other first h hfirst hlinks.left
      hclear.left
    have hmore := methodTwins_together hM hsame ρs inClass place other rest h hrest hlinks.right
      hclear.right
    show Together _ _ _ (functionEvents ⟨methodContext first'.name, inClass⟩ other first' ++ _) _
    rw [methodContext_congr hfirst.name]
    exact (hone.append hmore).imp fun _ hboth => ⟨first', rest', rfl, hboth⟩
termination_by structural _ _ _ _ methods => methods

end

end

end Moth
