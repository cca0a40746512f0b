import Moth.Proofs.Binding.Openings
import Moth.Proofs.Resolving.Lexical
/-!
# What `this` and `super` are bound to

A method is bound to an instance whose class is the class of the method or inherits from it.
Inside the method, however deep, `super` is the class that the superclass of its own class
declaration was when that declaration was executed.
-/

namespace Moth

open Eval

/-! ## Classes and their superclasses -/

namespace Machine

def IsA (machine : Machine) (self id : Nat) : Prop :=
  ∃ entry, machine.instances[self]? = some entry ∧ Inherits machine.classes entry.classId id

def Has (machine : Machine) (self : Nat) (method : Closure) : Prop :=
  ∃ owner entry name, machine.IsA self owner ∧ machine.classes[owner]? = some entry ∧
    entry.methods.find? name = some method

variable {older newer : Machine}

theorem Evolves.inherits (h : older.Evolves newer) {id other : Nat}
    (hinherits : Inherits older.classes id other) : Inherits newer.classes id other := by
  induction hinherits with
  | refl id => exact .refl id
  | above hentry hsuperclass _ ih => exact .above (h.classes _ _ hentry) hsuperclass ih

theorem Has.evolve {self : Nat} {method : Closure} (h : older.Has self method)
    (hevolves : older.Evolves newer) : newer.Has self method := by
  obtain ⟨owner, entry, name, ⟨found, hfound, hinherits⟩, hentry, hmethod⟩ := h
  obtain ⟨changed, hchanged, hclass⟩ := hevolves.instances self found hfound
  refine ⟨owner, entry, name, ⟨changed, hchanged, ?_⟩, hevolves.classes _ _ hentry, hmethod⟩
  rw [hclass]
  exact hevolves.inherits hinherits

/-- A method that is found from a class that the instance is of. -/
theorem IsA.has {machine : Machine} {self id : Nat} (h : machine.IsA self id) {name : String}
    {method : Closure} (hmethod : machine.method? id name = some method) :
    machine.Has self method := by
  obtain ⟨entry, hentry, hinherits⟩ := h
  obtain ⟨owner, found, hrest, hfound, hname⟩ := inherits_of_methodWithin hmethod
  exact ⟨owner, found, name, ⟨entry, hentry, hinherits.trans hrest⟩, hfound, hname⟩

end Machine

/-! ## The statements -/

/-- Some turn has executed the class declaration, from the machine `before`.  What it made is a
class of `machine`, and what its superclass was then, if it has one, is the class `above`. -/
structure ClassMade (turns : List Turn) (before machine : Machine) (name : Token)
    (superclass : Option Token) (methods : List FunctionDecl) (above : Option Nat) : Prop where
  executed : ∃ room, Happened turns (.stmt room (.classDef name superclass methods)) before
  superclass : superclass.map (fun token => lookUp token before) =
    above.map fun id => .done (.class id) before
  made : machine.classes[before.classes.size]? = some (before.classEntry name above methods)

/-- The function came from a property of an instance, from `super` or from the making of an
instance. -/
def Closure.IsMethod (turns : List Turn) (closure : Closure) : Prop :=
  ∃ task before method, Happened turns task before ∧ BindsMethod task before method closure.scope

/-- The function is bound to an instance, whose class or one above it was made by the class
declaration that the function is a method of. -/
structure Closure.BoundTo (turns : List Turn) (machine : Machine) (closure : Closure) (object : Nat)
    (before : Machine) (name : Token) (superclass : Option Token) (methods : List FunctionDecl)
    (above : Option Nat) : Prop where
  this : (machine.scopes.bindings closure.scope).find? "this" = some (.instance object)
  isA : machine.IsA object before.classes.size
  made : ClassMade turns before machine name superclass methods above
  written : closure.declaration ∈ methods

/-- The token writes `super` in a method of a class, or in something inside the method, the sites
of which are `inner`, but not in another class. -/
structure SuperIn (turns : List Turn) (keyword : Token) (inner : List Site) (method : FunctionDecl)
    (name : Token) (methods : List FunctionDecl) : Prop where
  mentioned : ∃ turn ∈ turns, ∃ acceptance outer,
    turn.session.accept? turn.request = some acceptance ∧
      ⟨.super, keyword, "super", inner ++ .function method :: .this name methods ::
        .super name methods :: outer⟩ ∈ programMentions acceptance.program
  nearest : ∀ site ∈ inner, ∀ other decls, site ≠ .this other decls
  written : method ∈ methods

/-- What `super` is found to be.  The hops lead to the scope that the execution of the class
declaration opened, where `super` is the class that its superclass was.  One scope further in
`this` is the instance that the method was called on, and one further the method is running. -/
structure SuperFound (turns : List Turn) (machine : Machine) (keyword : Token) (depth : Nat)
    (method : FunctionDecl) (before : Machine) (above object : Nat) : Prop where
  hops : machine.resolution.hops? keyword = some (depth + 2)
  scope : machine.scopes.ancestor (depth + 2) machine.current = .ok (some before.scopes.next)
  super : machine.scopes.getAt machine.current (depth + 2) "super" = .ok (.class above)
  this : machine.scopes.getAt machine.current (depth + 1) "this" = .ok (.instance object)
  isA : machine.IsA object before.classes.size
  called : ∃ room closure args start, Happened turns (.invoke room closure args) start ∧
    closure.IsMethod turns ∧ closure.declaration = method ∧
    (machine.scopes.bindings closure.scope).find? "this" = some (.instance object) ∧
    machine.scopes.ancestor depth machine.current = .ok (some (callScope closure args start).1)

/-! ## Where classes come from -/

namespace Chronicle

variable {turns : List Turn} {task : Task} {machine there : Machine}

/-- Every class was made by the execution of a class declaration. -/
theorem classMade (h : Chronicle turns) (hseen : Happened turns task there) {id : Nat}
    {entry : ClassEntry} (hentry : there.classes[id]? = some entry) :
    ∃ before name superclass methods above, Happened turns (.classDef name above methods) before ∧
      before.classes.size = id ∧ entry = before.classEntry name above methods ∧
      ClassMade turns before there name superclass methods above := by
  obtain ⟨start, stop, htraced, hcourse⟩ := h.course
  have hthere := (hcourse.since _ (mem_history.2 hseen)).traced htraced
  obtain ⟨name, above, methods, before, hmade, rfl, rfl⟩ := hthere.classes id entry hentry
  obtain ⟨room, superclass, hexecuted, hsuperclass⟩ := h.fits hmade
  exact ⟨before, name, superclass, methods, above, hmade, rfl, rfl,
    ⟨⟨room, hexecuted⟩, hsuperclass, hentry⟩⟩

/-- Where a scope that was opened for a site was opened. -/
theorem opened {before : List Turn} (hbefore : ∀ turn ∈ before, turn ∈ turns) {scope : Nat}
    {site : Site} (hopened : (pastOf before).opened scope site) :
    ∃ task machine, Happened turns task machine ∧ Opens task machine site scope := by
  obtain ⟨turn, hturn, task, machine, hvisit, hopens⟩ := hopened
  exact ⟨task, machine, ⟨turn, hbefore turn hturn, hvisit⟩, hopens⟩

theorem superIn {before : List Turn} (hbefore : ∀ turn ∈ before, turn ∈ turns) {keyword : Token}
    {place : Place} (hknown : (pastOf before).known ⟨.super, keyword, "super", place⟩)
    {inner outer : List Frame} {body : Frame} {method : FunctionDecl} {name : Token}
    {methods : List FunctionDecl}
    (hframes : place.frames = inner ++ body :: .this name methods :: .super name methods :: outer)
    (hbody : body.site = .function method) (hmethod : method ∈ methods)
    (hnearest : ∀ frame ∈ inner, ∀ other decls, frame.site ≠ .this other decls) :
    SuperIn turns keyword (inner.map (·.site)) method name methods := by
  obtain ⟨turn, hturn, acceptance, hsome, event, hevent, href⟩ := hknown
  refine ⟨⟨turn, hbefore turn hturn, acceptance, outer.map (·.site), hsome,
    mem_programMentions.2 ⟨event, hevent, _, href, ?_⟩⟩, ?_, hmethod⟩
  · simp [Reference.mention, Place.sites, hframes, hbody, Frame.single]
  · intro site hsite
    obtain ⟨frame, hframe, rfl⟩ := List.mem_map.1 hsite
    exact hnearest frame hframe

/-! ## What methods are bound to -/

/-- Every method that was bound in a scope below `bound` is bound to an instance that has it. -/
def Receivers (turns : List Turn) (bound : Nat) : Prop :=
  ∀ task machine method scope there, Happened turns task machine →
    BindsMethod task machine method scope → scope < bound → (task.stride machine).Evolves there →
    ∃ self, (there.scopes.bindings scope).find? "this" = some (.instance self) ∧
      there.Has self method

/-- A class with the method in it, if the method stands in the scope that binds `super` for a
class declaration, is the class which that declaration made. -/
theorem class_of_scope (h : Chronicle turns) (hseen : Happened turns task there) {before : Machine}
    {name : Token} {above : Nat} {methods : List FunctionDecl}
    (hclass : Happened turns (.classDef name (some above) methods) before) {owner : Nat}
    {entry : ClassEntry} (hentry : there.classes[owner]? = some entry) {key : String}
    {method : Closure} (hmethod : entry.methods.find? key = some method)
    (hscope : method.scope = before.scopes.next) : owner = before.classes.size := by
  obtain ⟨start, other, -, decls, superclass, hmade, rfl, rfl, -⟩ := h.classMade hseen hentry
  have hstands : method.scope = if superclass.isSome then start.scopes.next else start.current :=
    (methodTable_cases hmethod).2
  cases superclass with
  | none =>
    -- a class without a superclass is made in a scope that does not bind `super`
    have hcurrent : start.current = before.scopes.next := hstands.symm.trans hscope
    have hplain := h.plainScope hmade
    rw [hcurrent] at hplain
    have hsuper := super_later (h.plain hclass name (List.mem_singleton_self name))
      (h.later hclass hmade hplain.1)
    rw [hplain.2 "super" fun hplain => hplain.2 rfl] at hsuper
    cases hsuper
  | some top =>
    have hnext : start.scopes.next = before.scopes.next := hstands.symm.trans hscope
    have hopens : Opens _ start _ start.scopes.next := .superNext other top decls
    rw [hnext] at hopens
    rw [(h.unique hmade hopens hclass (.superNext name above methods)).2]

/-! ## Where `super` leads -/

/-- The visits behind the scopes around a use of `super`: the call of a function, `depth` scopes
outward; the visit that bound the method which was called; and the class declaration that opened
the scope of the method. -/
structure SuperPath (turns : List Turn) (machine : Machine) (depth : Nat) (closure method : Closure)
    (binder : Task) (binding : Machine) (name : Token) (above : Nat) (methods : List FunctionDecl)
    (before : Machine) : Prop where
  called : ∃ room args start, Happened turns (.invoke room closure args) start ∧
    machine.scopes.ancestor depth machine.current = .ok (some (callScope closure args start).1)
  this : machine.scopes.ancestor (depth + 1) machine.current = .ok (some closure.scope)
  super : machine.scopes.ancestor (depth + 2) machine.current = .ok (some before.scopes.next)
  opened : closure.scope < machine.scopes.next
  bound : Happened turns binder binding
  binds : BindsMethod binder binding method closure.scope
  bindsBefore : (binder.stride binding).Evolves machine
  stands : method.scope = before.scopes.next
  declared : Happened turns (.classDef name (some above) methods) before
  declaredBefore : (Task.stride (.classDef name (some above) methods) before).Evolves machine

/-- Where `super` is used, the scopes lead out of the method, through the scope in which it was
bound, to the scope that its class declaration opened. -/
theorem superPath (h : Chronicle turns) {room : Nat} {keyword name : Token}
    (hseen : Happened turns (.expr room (.super keyword name)) there) :
    ∃ inner closure method binder binding className above methods before,
      SuperIn turns keyword inner closure.declaration className methods ∧
      there.resolution.hops? keyword = some (inner.length + 2) ∧
      SuperPath turns there inner.length closure method binder binding className above methods
        before := by
  obtain ⟨past, hpast, hsound, place, hchain, hevents⟩ := h.sound _ _ hseen
  have hknown := (List.forall_mem_singleton.1 hevents).2 _ rfl
  obtain ⟨hsettled, hhops⟩ := hsound.settled _ hknown
  obtain ⟨inner, body, method, className, methods, outer, hframes, hbody, hmethod, hnearest,
    hfound⟩ := hsettled.super rfl
  have hwritten := superIn hpast hknown hframes hbody hmethod hnearest
  dsimp only at hframes
  rw [hframes] at hchain
  obtain ⟨activation, hactivation, hchain⟩ := hchain.drop
  -- the scope of the call, the scope of `this` and the scope of `super`, from the inside out
  cases hchain with
  | @inner _ thisScope _ _ hthisLink hcalled _ hchain =>
  cases hchain with
  | @inner _ superScope _ _ hsuperLink hbound _ hchain =>
  cases hchain with
  | inner houterLink hfounded _ _ =>
  rw [hbody] at hcalled
  obtain ⟨_, start, hinvoked, hopensCall⟩ := opened hpast hcalled
  cases hopensCall with
  | @function _ room closure args =>
  obtain ⟨binder, binding, hbinder, hopensThis⟩ := opened hpast hbound
  cases hopensThis with
  | @this _ _ found _ _ _ hbinds hdeclared =>
  obtain ⟨_, before, hclass, hopensSuper⟩ := opened hpast hfounded
  obtain ⟨above, rfl, rfl⟩ := hopensSuper.classDef
  have hlt := Forest.lt_next_of_enclosing? hsuperLink
  have hlaterCall := h.later hinvoked hseen (Forest.lt_next_of_enclosing? hthisLink)
  have hlaterBind := h.later hbinder hseen (hbinds.stride.1 ▸ hlt)
  have hlaterClass := h.later hclass hseen (Forest.lt_next_of_enclosing? houterLink)
  obtain rfl : closure.scope = thisScope :=
    Option.some.inj ((callScope_later (h.plain hinvoked) hlaterCall).symm.trans hthisLink)
  have hstands : found.scope = before.scopes.next :=
    Option.some.inj ((hbinds.later hlaterBind).1.symm.trans hsuperLink)
  have hthis := Forest.ancestor_outer hactivation hthisLink
  have hsuper := Forest.ancestor_outer hthis hsuperLink
  have hlength : (inner.map (·.site)).length = inner.length := List.length_map _
  rw [← hlength] at hactivation hthis hsuper hfound
  exact ⟨inner.map (·.site), closure, found, binder, binding, className, above, methods, before,
    hwritten, hhops.trans hfound, ⟨room, args, start, hinvoked, hactivation⟩, hthis, hsuper, hlt,
    hbinder, hbinds, hlaterBind, hstands, hclass, hlaterClass⟩

theorem super_found (h : Chronicle turns) {room : Nat} {keyword name : Token}
    (hseen : Happened turns (.expr room (.super keyword name)) there)
    (hreceivers : Receivers turns there.scopes.next) :
    ∃ inner method className superclass methods before above self,
      SuperIn turns keyword inner method className methods ∧
      ClassMade turns before there className (some superclass) methods (some above) ∧
      SuperFound turns there keyword inner.length method before above self := by
  obtain ⟨inner, closure, method, binder, binding, className, above, methods, before, hwritten,
    hhops, hpath⟩ := h.superPath hseen
  obtain ⟨self, hself, owner, entry, key, hisA, hentry, hkey⟩ :=
    hreceivers _ _ _ _ _ hpath.bound hpath.binds hpath.opened hpath.bindsBefore
  have howner := h.class_of_scope hseen hpath.declared hentry hkey hpath.stands
  have hplain := h.plain hpath.declared className (List.mem_singleton_self className)
  obtain ⟨_, token, hexecuted, hlookUp⟩ := h.fits hpath.declared
  obtain ⟨superclass, rfl, -⟩ := Option.map_eq_some_iff.1 hlookUp
  obtain ⟨room, args, start, hinvoked, hactivation⟩ := hpath.called
  refine ⟨inner, closure.declaration, className, superclass, methods, before, above, self,
    hwritten, ⟨⟨_, hexecuted⟩, hlookUp, classDef_later hplain hpath.declaredBefore⟩, ?_⟩
  exact {
    hops := hhops
    scope := hpath.super
    super := Forest.getAt_of_ancestor hpath.super (super_later hplain hpath.declaredBefore)
    this := Forest.getAt_of_ancestor hpath.this hself
    isA := howner ▸ hisA
    called := ⟨room, closure, args, start, hinvoked,
      ⟨binder, binding, method, hpath.bound, hpath.binds⟩, rfl, hself, hactivation⟩ }

/-- However a method came to be bound, it is to an instance that has it. -/
theorem receivers (h : Chronicle turns) (bound : Nat) : Receivers turns bound := by
  induction bound with
  | zero => exact fun _ _ _ _ _ _ _ hlt => absurd hlt (Nat.not_lt_zero _)
  | succ bound ih =>
    intro task machine method scope there hseen hbinds hlt hlater
    rcases Nat.lt_succ_iff_lt_or_eq.1 hlt with hlt | rfl
    · exact ih task machine method scope there hseen hbinds hlt hlater
    · obtain ⟨-, self, hreceives, hself⟩ := hbinds.later hlater
      have hstride := h.evolves_stride hseen
      cases hreceives with
      | @object id entry name hentry hmethod =>
        refine ⟨id, hself, Machine.Has.evolve ?_ hlater⟩
        obtain ⟨owner, found, hinherits, hfound, hname⟩ := inherits_of_methodWithin hmethod
        exact ⟨owner, found, name, ⟨entry, hentry, hstride.inherits hinherits⟩,
          hstride.classes _ _ hfound, hname⟩
      | @super room hops above keyword name _ htask hhops hsuper hthis hmethod =>
        subst htask
        -- the method that uses `super` was itself bound in an older scope
        rw [hbinds.stride.1] at ih
        obtain ⟨inner, _, className, superclass, methods, before, above', id, -, hmade, hfound⟩ :=
          h.super_found hseen ih
        obtain rfl : hops = inner.length + 2 := Option.some.inj (hhops.symm.trans hfound.hops)
        obtain rfl : above = above' := by
          cases hsuper.symm.trans hfound.super
          rfl
        obtain rfl : self = .instance id := Except.ok.inj (hthis.symm.trans hfound.this)
        obtain ⟨entry, hentry, hinherits⟩ := hfound.isA
        have hisA : machine.IsA id above :=
          ⟨entry, hentry, hinherits.trans (.above hmade.made rfl (.refl above))⟩
        exact ⟨id, hself, (hisA.has hmethod).evolve (hstride.trans hlater)⟩

/-- A function that is called as a method. -/
theorem boundTo (h : Chronicle turns) {room : Nat} {closure : Closure} {args : List Value}
    (hseen : Happened turns (.invoke room closure args) there) (hmethod : closure.IsMethod turns) :
    ∃ self before name superclass methods above,
      closure.BoundTo turns there self before name superclass methods above := by
  cases h.fits hseen with
  | plain hplain =>
    -- in a plain scope there is no `this`
    obtain ⟨task, before, method, hbinder, hbinds⟩ := hmethod
    have hlater := h.later hbinder hseen (hbinds.stride.1 ▸ hplain.1)
    obtain ⟨-, self, -, hself⟩ := hbinds.later hlater
    rw [hplain.2 "this" fun hplain => hplain.1 rfl] at hself
    cases hself
  | bound hbinder hbinds hdeclaration _ hlt =>
    have hlater := h.later hbinder hseen (hbinds.stride.1 ▸ hlt)
    obtain ⟨self, hself, owner, entry, key, hisA, hentry, hkey⟩ :=
      h.receivers _ _ _ _ _ _ hbinder hbinds hlt hlater
    obtain ⟨before, name, superclass, methods, above, -, rfl, rfl, hmade⟩ :=
      h.classMade hseen hentry
    refine ⟨self, before, name, superclass, methods, above, hself, hisA, hmade, ?_⟩
    rw [hdeclaration]
    exact (methodTable_cases hkey).1

end Chronicle

/-- In a session, whatever its turns were, a function that is called as a method is bound to an
instance whose class, or one above it, was made by the class declaration with the method in it.
Wherever `super` is used, in a method or inside of it, the hops lead to the class that the
superclass of the class declaration around the method was when the declaration was executed; one
scope further in `this` is the instance that the method was called on; and the property is looked
for from that class on, whatever the class of the instance is. -/
theorem this_and_super_bound {turns : List Turn} {session : Session} (h : Reached turns session)
    (request : Request) (fuel : Nat) :
    let turn : Turn := ⟨session, request, fuel⟩
    (∀ room closure args there, turn.Visits (.invoke room closure args) there →
      closure.IsMethod (turn :: turns) → ∃ self before name superclass methods above,
        closure.BoundTo (turn :: turns) there self before name superclass methods above) ∧
    ∀ room keyword name there, turn.Visits (.expr room (.super keyword name)) there →
      ∃ inner method className superclass methods before above self,
        SuperIn (turn :: turns) keyword inner method className methods ∧
        ClassMade (turn :: turns) before there className (some superclass) methods (some above) ∧
        SuperFound (turn :: turns) there keyword inner.length method before above self ∧
        getSuper keyword name there = match there.method? above name.lexeme with
          | some found => bindMethod found (.instance self) there
          | none => .failed ⟨name, .undefinedProperty name.lexeme⟩ there := by
  have hchronicle := h.chronicle request fuel
  constructor
  · intro room closure args there hvisit hmethod
    exact hchronicle.boundTo ⟨_, List.mem_cons_self, hvisit⟩ hmethod
  · intro room keyword name there hvisit
    obtain ⟨inner, method, className, superclass, methods, before, above, self, hwritten, hmade,
      hfound⟩ := hchronicle.super_found ⟨_, List.mem_cons_self, hvisit⟩ (hchronicle.receivers _)
    refine ⟨inner, method, className, superclass, methods, before, above, self, hwritten, hmade,
      hfound, ?_⟩
    have hthis : there.scopes.getAt there.current (inner.length + 2 - 1) "this" =
        .ok (.instance self) := hfound.this
    cases hmethod : there.method? above name.lexeme with
    | none => simp only [getSuper, hfound.hops, hfound.super, hthis, hmethod]
    | some found => simp only [getSuper, hfound.hops, hfound.super, hthis, hmethod]

/-- A function inside a method of `B` that uses `super` outlives the call of the method.  The
instance is of a class below `B` with methods of its own, and `A` is made to stand for another
class. -/
def keptText : String :=
  "class A\x7bhi()\x7breturn this.tag();\x7d tag()\x7breturn 1;\x7d\x7d
  class B<A\x7bkeep()\x7bfun g()\x7breturn super.hi();\x7d return g;\x7d\x7d
  class C<B\x7btag()\x7breturn 2;\x7d hi()\x7breturn 3;\x7d\x7d var g=C().keep(); A=B;"

def keptSession : Session := Session.empty.after 60 (.run keptText)

def findsMethod : Task × Machine → Bool
  | (.property (.instance id) name, machine) =>
    machine.instances[id]?.any fun entry => (entry.fields.find? name.lexeme).isNone &&
      (machine.method? entry.classId name.lexeme).isSome
  | _ => false

def callsIn (scope : Nat) : Task × Machine → Bool
  | (.invoke _ closure _, _) => closure.scope = scope
  | _ => false

def usesSuper (hops : Nat) : Task × Machine → Bool
  | (.expr _ (.super keyword _), machine) => machine.resolution.hops? keyword = some hops
  | _ => false

theorem binds_of_findsMethod {task : Task} {machine : Machine} (h : findsMethod (task, machine)) :
    ∃ method, BindsMethod task machine method machine.scopes.next := by
  unfold findsMethod at h
  split at h
  · next id name machine heq =>
    cases heq
    obtain ⟨entry, hentry, hfound⟩ := (Option.any_eq_true _ _).1 h
    obtain ⟨hfield, hmethod⟩ := Bool.and_eq_true_iff.1 hfound
    obtain ⟨method, hmethod⟩ := Option.isSome_iff_exists.1 hmethod
    exact ⟨method, .property hentry (Option.isNone_iff_eq_none.1 hfield) hmethod⟩
  · cases h

theorem invoke_of_callsIn {scope : Nat} {task : Task} {machine : Machine}
    (h : callsIn scope (task, machine)) :
    ∃ room closure args, task = .invoke room closure args ∧ closure.scope = scope := by
  unfold callsIn at h
  split at h
  · next room closure args _ heq =>
    cases heq
    exact ⟨room, closure, args, rfl, of_decide_eq_true h⟩
  · cases h

theorem super_of_usesSuper {hops : Nat} {task : Task} {machine : Machine}
    (h : usesSuper hops (task, machine)) : ∃ room keyword name,
      task = .expr room (.super keyword name) ∧ machine.resolution.hops? keyword = some hops := by
  unfold usesSuper at h
  split at h
  · next room keyword name _ heq =>
    cases heq
    exact ⟨room, keyword, name, rfl, of_decide_eq_true h⟩
  · cases h

/-- A later unit calls the function: `super` is three scopes outward, and from there a method of
the instance's own class is called. -/
theorem keptText_bound : Reached [⟨.empty, .run keptText, 60⟩] keptSession ∧
    let turn : Turn := ⟨keptSession, .evaluate "g()", 60⟩
    let turns : List Turn := [turn, ⟨.empty, .run keptText, 60⟩]
    (∃ room closure args there, turn.Visits (.invoke room closure args) there ∧
      closure.IsMethod turns ∧ ∃ self before name superclass methods above,
        closure.BoundTo turns there self before name superclass methods above) ∧
    ∃ room keyword name there, turn.Visits (.expr room (.super keyword name)) there ∧
      there.resolution.hops? keyword = some 3 ∧
      ∃ inner method className superclass methods before above self,
        SuperIn turns keyword inner method className methods ∧
        ClassMade turns before there className (some superclass) methods (some above) ∧
        SuperFound turns there keyword inner.length method before above self := by
  have hreached : Reached [⟨.empty, .run keptText, 60⟩] keptSession :=
    .after .empty (by decide +kernel)
  have hrun : (let visits := Turn.visited ⟨keptSession, .evaluate "g()", 60⟩
      visits.any (fun visit => findsMethod visit && visits.any (callsIn visit.2.scopes.next)) &&
        visits.any (usesSuper 3)) = true := by
    decide +kernel
  obtain ⟨hmethods, hsupers⟩ := Bool.and_eq_true_iff.1 hrun
  obtain ⟨hbound, hfound⟩ := this_and_super_bound hreached (.evaluate "g()") 60
  refine ⟨hreached, ?_, ?_⟩
  · obtain ⟨⟨task, machine⟩, hmem, hfinds⟩ := List.any_eq_true.1 hmethods
    obtain ⟨hfinds, hcalls⟩ := Bool.and_eq_true_iff.1 hfinds
    obtain ⟨⟨called, there⟩, hcalled, hcall⟩ := List.any_eq_true.1 hcalls
    obtain ⟨method, hbinds⟩ := binds_of_findsMethod hfinds
    obtain ⟨room, closure, args, rfl, hscope⟩ := invoke_of_callsIn hcall
    have hmethod : closure.IsMethod
        [⟨keptSession, .evaluate "g()", 60⟩, ⟨.empty, .run keptText, 60⟩] :=
      ⟨task, machine, method, ⟨_, List.mem_cons_self, Turn.visits_of_mem hmem⟩, hscope ▸ hbinds⟩
    have hvisit := Turn.visits_of_mem hcalled
    exact ⟨room, closure, args, there, hvisit, hmethod, hbound _ _ _ _ hvisit hmethod⟩
  · obtain ⟨⟨task, there⟩, hmem, huses⟩ := List.any_eq_true.1 hsupers
    obtain ⟨room, keyword, name, rfl, hhops⟩ := super_of_usesSuper huses
    have hvisit := Turn.visits_of_mem hmem
    obtain ⟨inner, method, className, superclass, methods, before, above, self, hwritten, hmade,
      hsuper, -⟩ := hfound _ _ _ _ hvisit
    exact ⟨room, keyword, name, there, hvisit, hhops, inner, method, className, superclass,
      methods, before, above, self, hwritten, hmade, hsuper⟩

end Moth
