import Moth.Proofs.Execution.Code
import Moth.Proofs.Scoping.Activations
import Moth.Proofs.Scoping.Heap
/-!
# Single steps

The steps of the evaluator that ask for no other task.  On a sound machine, where the
references they look up are known and the chain of scopes matches, none of them gets stuck,
and each leaves a sound machine behind.
-/

namespace Moth

theorem Forest.find?_of_get {forest : Forest Value} {scope : Nat} {name : String} {value : Value}
    (h : forest.get scope name = .ok value) :
    ∃ place, (forest.bindings place).find? name = some value := by
  unfold get at h
  split at h
  · next found hfound =>
    obtain ⟨holder, -, hbound⟩ := Option.bind_eq_some_iff.1 hfound
    cases h
    exact ⟨holder, hbound⟩
  · cases h

namespace Eval

variable {α : Type}

/-- The outcome is not stuck, and the machine is sound, in the scope it came from. -/
def Ended (past : Past) (start : Machine) (Result : α → Machine → Prop) : Outcome α → Prop
  | .done value machine =>
    start.Onward past machine ∧ machine.current = start.current ∧ Result value machine
  | .failed _ machine => start.Onward past machine ∧ machine.current = start.current
  | .stuck _ => False
  | .outOfFuel => True

variable {past : Past} {machine : Machine}

theorem Ended.imp {start : Machine} {P R : α → Machine → Prop} {outcome : Outcome α}
    (h : Ended past start P outcome) (himp : ∀ value after, P value after → R value after) :
    Ended past start R outcome := by
  cases outcome with
  | done value after => exact ⟨h.1, h.2.1, himp value after h.2.2⟩
  | _ => exact h

/-! ## References -/

section

variable {place : Place}

theorem lookUp_ended (h : machine.Sound past)
    (hchain : Chain past machine.scopes machine.current place.frames) {sort : ReferenceSort}
    {token : Token} {name : String} (hknown : past.known ⟨sort, token, name, place⟩)
    (hsort : sort ≠ .assign) (hname : token.lexeme = name) :
    Ended past machine (fun value after => value.Valid after) (lookUp token machine) := by
  obtain ⟨hsettled, hhops⟩ := h.settled _ hknown
  unfold lookUp
  rw [hhops]
  cases hfound : Reference.hops? ⟨sort, token, name, place⟩ with
  | some hops =>
    obtain ⟨frame, hframe, -, hfinished⟩ := hsettled.found hops hfound
    obtain ⟨scope, hancestor, -, hheld⟩ := hchain.ancestor hframe
    obtain ⟨value, hvalue⟩ := Option.isSome_iff_exists.1 (hheld.finished _ (hfinished hsort))
    simp only [hname, Forest.getAt_of_ancestor hancestor hvalue]
    exact ⟨h.stay, rfl, h.values _ _ _ hvalue⟩
  | none =>
    cases hget : machine.scopes.get Machine.globals token.lexeme with
    | ok value =>
      obtain ⟨scope, hvalue⟩ := Forest.find?_of_get hget
      exact ⟨h.stay, rfl, h.values _ _ _ hvalue⟩
    | error cause => exact ⟨h.stay, rfl⟩

theorem assign_ended (h : machine.Sound past)
    (hchain : Chain past machine.scopes machine.current place.frames) {name : Token}
    (hknown : past.known ⟨.assign, name, name.lexeme, place⟩) (hplain : IsPlain name.lexeme)
    {value : Value} (hvalue : value.Valid machine) :
    Ended past machine (fun _ _ => True) (assign name value machine) := by
  obtain ⟨hsettled, hhops⟩ := h.settled _ hknown
  unfold assign
  rw [hhops]
  cases hfound : Reference.hops? ⟨.assign, name, name.lexeme, place⟩ with
  | some hops =>
    obtain ⟨frame, hframe, -, -⟩ := hsettled.found hops hfound
    obtain ⟨scope, hancestor, -, -⟩ := hchain.ancestor hframe
    simp only [hancestor]
    exact ⟨h.define (.inl hplain.2) hvalue, rfl, trivial⟩
  | none =>
    cases machine.scopes.holder? Machine.globals name.lexeme with
    | some scope => exact ⟨h.define (.inl hplain.2) hvalue, rfl, trivial⟩
    | none => exact ⟨h.stay, rfl⟩

end

def Declares (past : Past) (start : Machine) (name : Token) (after : Machine) : Prop :=
  ∀ place : Place, Chain past start.scopes start.current place.frames →
    Chain past after.scopes start.current (place.set name true).frames

theorem declare_ended (h : machine.Sound past) {name : Token} (hplain : IsPlain name.lexeme)
    {value : Value} (hvalue : value.Valid machine) :
    Ended past machine (fun _ => Declares past machine name) (declare name value machine) :=
  ⟨h.define (.inl hplain.2) hvalue, rfl, fun _ hchain => hchain.finish hplain value⟩

theorem declareFunction_ended (h : machine.Sound past) {place : Place} {context : Context}
    (hchain : Chain past machine.scopes machine.current place.frames) {declaration : FunctionDecl}
    (hplain : IsPlain declaration.name.lexeme)
    (hevents : ∀ event ∈ functionEvents context (place.set declaration.name true) declaration,
      past.Knows event) :
    Ended past machine (fun _ => Declares past machine declaration.name)
      (declareFunction declaration machine) := by
  -- the function is made first, but its scope matches only once its name is bound
  have hdefine : machine.Onward past (machine.define machine.current declaration.name.lexeme
      (.function machine.functions.size)) := h.define (.inl hplain.2) trivial
  have hclosure : Closure.Sound past (machine.define machine.current declaration.name.lexeme
      (.function machine.functions.size)).scopes ⟨declaration, machine.current, false⟩ :=
    ⟨⟨_, context, hchain.finish hplain _, hevents⟩, fun hinit => by cases hinit⟩
  exact ⟨hdefine.trans (hdefine.sound.newFunction hclosure), rfl,
    fun _ hother => hother.finish hplain _⟩

/-! ## Classes -/

theorem methodTable_cases {scope : Nat} {methods : List FunctionDecl} {name : String}
    {method : Closure} (h : (methodTable scope methods).find? name = some method) :
    method.declaration ∈ methods ∧ method.scope = scope := by
  obtain ⟨decl, hmem, rfl⟩ := find?_methodTable h
  exact ⟨hmem, rfl⟩

theorem methodEvents_of_mem {inClass : ClassContext} {place : Place} {methods : List FunctionDecl}
    {method : FunctionDecl} (h : method ∈ methods)
    (hevents : ∀ event ∈ methodEvents inClass place methods, past.Knows event) :
    ∀ event ∈ functionEvents ⟨methodContext method.name, inClass⟩ place method,
      past.Knows event := by
  induction methods with
  | nil => cases h
  | cons first rest ih =>
    obtain ⟨hfirst, hrest⟩ := List.forall_mem_append.1 hevents
    rcases List.mem_cons.1 h with rfl | hmem
    · exact hfirst
    · exact ih hmem hrest

theorem foundClass_ended (h : machine.Sound past) (place : Place) {scope : Nat}
    (hchain : Chain past machine.scopes scope place.frames) {name : Token}
    (hplain : IsPlain name.lexeme) {inClass : ClassContext} {methods : List FunctionDecl}
    (hevents : ∀ event ∈ methodEvents inClass (place.enter (.this name methods) ["this"]) methods,
      past.Knows event) {superclass : Option Nat}
    (habove : ∀ above, superclass = some above → above < machine.classes.size) :
    Ended past machine (fun _ _ => True) (foundClass scope name superclass methods machine) := by
  have hclass : machine.Onward past
      (machine.newClass ⟨name.lexeme, superclass, methodTable scope methods⟩).2 := by
    refine h.newClass habove fun other method hmethod => ?_
    obtain ⟨hmem, hscope⟩ := methodTable_cases hmethod
    exact ⟨place, _, name, methods, hscope ▸ hchain, hmem, methodEvents_of_mem hmem hevents⟩
  simp only [foundClass, nameClass, bind, Run.bind, Run.make]
  cases (machine.newClass ⟨name.lexeme, superclass, methodTable scope methods⟩).2.scopes.holder?
      (machine.newClass ⟨name.lexeme, superclass, methodTable scope methods⟩).2.current
      name.lexeme with
  | some found =>
    refine ⟨hclass.trans (hclass.sound.define (.inl hplain.2) ?_), rfl, trivial⟩
    simp [Value.Valid, Machine.newClass]
  | none => exact ⟨hclass, rfl⟩

theorem Ended.after {β : Type} {start : Machine} {outcome : Outcome β} {R : β → Machine → Prop}
    (h : Ended past machine R outcome) (hstart : start.Onward past machine)
    (hcurrent : machine.current = start.current) :
    Ended past start (fun value after => machine.Extends after ∧ R value after) outcome := by
  cases outcome with
  | done value after =>
    exact ⟨hstart.trans h.1, h.2.1.trans hcurrent, h.1.grows, h.2.2⟩
  | failed failure after => exact ⟨hstart.trans h.1, h.2.trans hcurrent⟩
  | stuck after => exact h
  | outOfFuel => exact h

theorem declareClass_ended (h : machine.Sound past) {place : Place}
    (hchain : Chain past machine.scopes machine.current place.frames) {name : Token}
    (hplain : IsPlain name.lexeme) {inClass : ClassContext} {token : Option Token}
    {methods : List FunctionDecl} {superclass : Option Nat}
    (htoken : token.isSome = superclass.isSome)
    (habove : ∀ above, superclass = some above → above < machine.classes.size)
    (hevents : ∀ event ∈ methodEvents inClass (place.inClass name token methods) methods,
      past.Knows event)
    (hsees : past.Sees (.classDef name superclass methods) machine) :
    Ended past machine (fun _ => Declares past machine name)
      (declareClass name superclass methods machine) := by
  have hdefine : machine.Onward past (machine.define machine.current name.lexeme .nil) :=
    h.define (.inl hplain.2) trivial
  have hinner := hchain.finish hplain .nil
  cases superclass with
  | none =>
    obtain rfl : token = none := by simpa using htoken
    rw [declareClass_none]
    refine ((foundClass_ended hdefine.sound _ hinner hplain hevents habove).after
      hdefine rfl).imp ?_
    rintro _ after ⟨hextends, -⟩ other hother
    exact (hother.finish hplain .nil).grow hextends.scopes
  | some above =>
    obtain ⟨token, rfl⟩ := Option.isSome_iff_exists.1 htoken
    have hnext : past.opened (machine.define machine.current name.lexeme .nil).scopes.next
        (.super name methods) := hsees _ _ .super
    have hnew := hdefine.sound.newScopeWith (hdefine.sound.lt_next hinner) "super"
      (show (Value.class above).Valid _ from habove above rfl)
    have hsuper := hdefine.trans hnew
    have hmethods := hinner.single "super" (.class above) (fun _ _ _ => ⟨rfl, above, rfl⟩) hnext
    rw [declareClass_some]
    refine ((foundClass_ended hsuper.sound ((place.set name true).enter (.super name methods)
      ["super"]) hmethods hplain hevents habove).after hsuper rfl).imp ?_
    rintro _ after ⟨hextends, -⟩ other hother
    exact ((hother.finish hplain .nil).grow hnew.grows.scopes).grow hextends.scopes

/-! ## Methods -/

theorem unbound_of_method? (h : machine.Sound past) {id : Nat} {name : String} {method : Closure}
    (hfound : machine.method? id name = some method) : method.Unbound past machine.scopes := by
  obtain ⟨owner, entry, -, hentry, hmethod⟩ := inherits_of_methodWithin hfound
  exact h.methods owner entry name method hentry hmethod

theorem bindThis_sound (h : machine.Sound past) {method : Closure}
    (hmethod : method.Unbound past machine.scopes) {self : Value} (hself : self.Valid machine)
    (hopened : ∀ name methods, method.declaration ∈ methods →
      past.opened machine.scopes.next (.this name methods)) :
    machine.Onward past (machine.bindThis method self).2 ∧
      (machine.bindThis method self).1.Sound past (machine.bindThis method self).2.scopes := by
  obtain ⟨place, context, name, methods, hchain, hmem, hevents⟩ := hmethod
  have hbound := hchain.single "this" self (fun _ _ heq => by cases heq) (hopened name methods hmem)
  refine ⟨h.newScopeWith (h.lt_next hchain) "this" hself,
    ⟨place.enter (.this name methods) ["this"], context, hbound, hevents⟩, fun _ => ?_⟩
  exact hbound.held.finished "this" rfl

theorem bindMethod_ended (h : machine.Sound past) {method : Closure}
    (hmethod : method.Unbound past machine.scopes) {self : Value} (hself : self.Valid machine)
    {task : Task} (hsees : past.Sees task machine)
    (hbinds : BindsMethod task machine method (machine.bindThis method self).1.scope) :
    Ended past machine (fun value after => value.Valid after) (bindMethod method self machine) := by
  obtain ⟨honward, hclosure⟩ := bindThis_sound h hmethod hself fun name methods hmem =>
    hsees _ _ (.this hbinds hmem)
  exact ⟨honward.trans (honward.sound.newFunction hclosure), rfl, trivial⟩

theorem getProperty_ended (h : machine.Sound past) {object : Value} (hobject : object.Valid machine)
    {name : Token} (hsees : past.Sees (.property object name) machine) :
    Ended past machine (fun value after => value.Valid after)
      (getProperty object name machine) := by
  cases object with
  | «instance» id =>
    obtain ⟨entry, hentry⟩ : ∃ entry, machine.instances[id]? = some entry :=
      ⟨_, Array.getElem?_eq_getElem hobject⟩
    unfold getProperty
    simp only [hentry]
    cases hfield : entry.fields.find? name.lexeme with
    | some value => exact ⟨h.stay, rfl, h.fields _ _ _ _ hentry hfield⟩
    | none =>
      cases hmethod : machine.method? entry.classId name.lexeme with
      | some method =>
        exact bindMethod_ended h (unbound_of_method? h hmethod) hobject hsees
          (.property hentry hfield hmethod)
      | none => exact ⟨h.stay, rfl⟩
  | _ => exact ⟨h.stay, rfl⟩

/-- The scope of `this` stands one further in than that of `super`. -/
theorem super_found (h : machine.Sound past) {place : Place}
    (hchain : Chain past machine.scopes machine.current place.frames) {keyword : Token}
    {name : String} (hknown : past.known ⟨.super, keyword, name, place⟩) : ∃ depth above self,
      machine.resolution.hops? keyword = some (depth + 1) ∧
      machine.scopes.getAt machine.current (depth + 1) "super" = .ok (.class above) ∧
      machine.scopes.getAt machine.current depth "this" = .ok self := by
  obtain ⟨hsettled, hhops⟩ := h.settled _ hknown
  obtain ⟨inner, body, method, className, methods, outer, hframes, -, -, -, hfound⟩ :=
    hsettled.super rfl
  dsimp only at hframes
  have hthis : place.frames[inner.length + 1]? = some (.this className methods) := by
    simp [hframes]
  have hsuper : place.frames[inner.length + 2]? = some (.super className methods) := by
    simp [hframes]
  obtain ⟨superScope, hsuperScope, -, hheldSuper⟩ := hchain.ancestor hsuper
  obtain ⟨above, habove⟩ := hheldSuper.super className methods rfl
  obtain ⟨thisScope, hthisScope, -, hheldThis⟩ := hchain.ancestor hthis
  obtain ⟨self, hself⟩ := Option.isSome_iff_exists.1 (hheldThis.finished "this" rfl)
  exact ⟨inner.length + 1, above, self, hhops.trans hfound,
    Forest.getAt_of_ancestor hsuperScope habove, Forest.getAt_of_ancestor hthisScope hself⟩

theorem valid_of_getAt (h : machine.Sound past) {scope depth : Nat} {name : String} {value : Value}
    (hget : machine.scopes.getAt scope depth name = .ok value) : value.Valid machine := by
  unfold Forest.getAt at hget
  split at hget
  · split at hget
    · next hfind =>
      cases hget
      exact h.values _ _ _ hfind
    · cases hget
  · cases hget
  · cases hget

theorem getSuper_ended (h : machine.Sound past) {place : Place}
    (hchain : Chain past machine.scopes machine.current place.frames) {keyword name : Token}
    (hknown : past.known ⟨.super, keyword, "super", place⟩) {room : Nat}
    (hsees : past.Sees (.expr room (.super keyword name)) machine) :
    Ended past machine (fun value after => value.Valid after)
      (getSuper keyword name machine) := by
  obtain ⟨depth, above, self, hhops, hsuper, hthis⟩ := super_found h hchain hknown
  unfold getSuper
  simp only [hhops, hsuper, Nat.add_sub_cancel, hthis]
  cases hmethod : machine.method? above name.lexeme with
  | some method =>
    exact bindMethod_ended h (unbound_of_method? h hmethod) (valid_of_getAt h hthis) hsees
      (.super hhops hsuper hthis hmethod)
  | none => exact ⟨h.stay, rfl⟩

/-! ## Calls -/

/-- Binding the parameters of a call to its arguments. -/
theorem bindParams_sound {scope : Nat} : ∀ {params : List Token} {args : List Value}
    {machine : Machine} {place : Place}, machine.Sound past →
    Chain past machine.scopes scope place.frames →
    (∀ event ∈ paramEvents place params, past.Knows event) →
    (∀ arg ∈ args, arg.Valid machine) → params.length = args.length →
    let after := (params.zip args).foldl (fun machine (param, arg) =>
      machine.define scope param.lexeme arg) machine
    machine.Onward past after ∧ after.current = machine.current ∧
      Chain past after.scopes scope (place.setAll params).frames
  | [], [], machine, place, h, hchain, _, _, _ => ⟨h.stay, rfl, hchain⟩
  | param :: params, arg :: args, machine, place, h, hchain, hevents, hargs, hlength => by
    obtain ⟨hparam, hrest⟩ := List.forall_mem_cons.1 hevents
    obtain ⟨harg, hargs⟩ := List.forall_mem_cons.1 hargs
    have hplain : IsPlain param.lexeme := hparam.1
    have hdefine : machine.Onward past (machine.define scope param.lexeme arg) :=
      h.define (.inl hplain.2) harg
    obtain ⟨honward, hcurrent, hinner⟩ := bindParams_sound hdefine.sound
      (hchain.finish hplain arg) hrest
      (fun other hother => (hargs other hother).extend hdefine.grows) (Nat.succ.inj hlength)
    exact ⟨hdefine.trans honward, hcurrent, hinner⟩

theorem callScope_sound (h : machine.Sound past) {closure : Closure}
    (hclosure : closure.Sound past machine.scopes) {args : List Value}
    (hargs : ∀ arg ∈ args, arg.Valid machine)
    (hlength : closure.declaration.params.length = args.length) {room : Nat}
    (hsees : past.Sees (.invoke room closure args) machine) :
    machine.Onward past (callScope closure args machine).2 ∧
      (callScope closure args machine).2.current = machine.current ∧
      ∃ place : Place, Chain past (callScope closure args machine).2.scopes
          (callScope closure args machine).1 place.frames ∧
        ∀ event ∈ eventsAll place closure.declaration.body, past.Knows event := by
  obtain ⟨⟨name, params, body⟩, outer, isInitializer⟩ := closure
  obtain ⟨place, context, hchain, hevents⟩ := hclosure.placed
  obtain ⟨hparams, hbody⟩ := List.forall_mem_append.1 hevents
  have hscope := h.newScope (h.lt_next hchain)
  have hinner : Chain past (machine.newScope outer).2.scopes machine.scopes.next
      (place.inFunction context ⟨name, params, body⟩).frames :=
    hchain.child (fun _ _ heq => by cases heq) (hsees _ _ .function)
  obtain ⟨honward, hcurrent, hchain⟩ := bindParams_sound hscope.sound hinner hparams
    (fun arg harg => (hargs arg harg).extend hscope.grows) hlength
  exact ⟨hscope.trans honward, hcurrent, _, hchain, hbody⟩

theorem callResult_ended (h : machine.Sound past) {closure : Closure}
    (hclosure : closure.Sound past machine.scopes) {completion : Completion}
    (hcompletion : ∀ value, completion = .returned value → value.Valid machine) :
    Ended past machine (fun value after => value.Valid after)
      (callResult closure completion machine) := by
  unfold callResult
  split
  · next hinit =>
    obtain ⟨self, hself⟩ := Option.isSome_iff_exists.1 (hclosure.this hinit)
    have hthis : machine.scopes.getAt closure.scope 0 "this" = .ok self :=
      Forest.getAt_of_ancestor rfl hself
    rw [hthis]
    exact ⟨h.stay, rfl, h.values _ _ _ hself⟩
  · cases completion with
    | normal => exact ⟨h.stay, rfl, trivial⟩
    | returned value => exact ⟨h.stay, rfl, hcompletion value rfl⟩

theorem checkCall_ended (h : machine.Sound past) (paren : Token) (callee : Value) (count : Nat) :
    Ended past machine (fun _ after => after = machine ∧ arity? machine callee = some count)
      (checkCall paren callee count machine) := by
  unfold checkCall
  split
  · exact ⟨h.stay, rfl⟩
  · next arity harity =>
    split
    · next heq => exact ⟨h.stay, rfl, rfl, by rw [harity, heq]⟩
    · exact ⟨h.stay, rfl⟩

theorem closureOf_ended (h : machine.Sound past) {id count : Nat}
    (harity : arity? machine (.function id) = some count) :
    Ended past machine (fun closure after => after = machine ∧
      closure.Sound past machine.scopes ∧ closure.declaration.params.length = count)
      (closureOf id machine) := by
  obtain ⟨closure, hclosure, hcount⟩ := Option.map_eq_some_iff.1 harity
  unfold closureOf
  rw [hclosure]
  exact ⟨h.stay, rfl, rfl, h.functions _ _ hclosure, hcount⟩

/-! ## Natives and operators -/

theorem valid_of_apply_unary {op : UnaryOp} {right value : Value} (h : op.apply right = .ok value) :
    value.Valid machine := by
  unfold UnaryOp.apply at h
  split at h <;> cases h <;> trivial

theorem valid_of_onNumbers {result : Number → Number → Value}
    (hresult : ∀ x y, (result x y).Valid machine) {left right value : Value}
    (h : onNumbers result left right = .ok value) : value.Valid machine := by
  unfold onNumbers at h
  split at h <;> cases h
  exact hresult _ _

theorem valid_of_apply_binary {op : BinaryOp} {left right value : Value}
    (h : op.apply left right = .ok value) : value.Valid machine := by
  cases op with
  | equal | notEqual =>
    cases h
    trivial
  | add =>
    rw [BinaryOp.apply, addValues.eq_def] at h
    split at h <;> cases h <;> trivial
  | _ =>
    refine valid_of_onNumbers ?_ h
    exact fun _ _ => trivial

theorem lift_ended (h : machine.Sound past) (token : Token) {result : Except RuntimeFault Value}
    (hresult : ∀ value, result = .ok value → value.Valid machine) :
    Ended past machine (fun value after => value.Valid after)
      (Run.lift token result machine) := by
  cases result with
  | ok value => exact ⟨h.stay, rfl, hresult value rfl⟩
  | error fault => exact ⟨h.stay, rfl⟩

theorem native_ended (h : machine.Sound past) {f : Native} {args : List Value}
    (harity : f.arity = args.length) (paren : Token) :
    Ended past machine (fun value after => value.Valid after) (f.call paren args machine) := by
  obtain ⟨answer, hstuck, hanswer⟩ := f.exists_answer machine.sources args
  rw [hanswer paren machine rfl]
  cases answer with
  | gives value text rest =>
    refine ⟨h.aside rfl rfl rfl rfl rfl, rfl, ?_⟩
    cases value <;> trivial
  | fails fault => exact ⟨h.stay, rfl⟩
  | stuck => exact absurd rfl (hstuck harity.symm)

end Eval

end Moth
