import Moth.Proofs.Desugaring.Machines
import Moth.Proofs.Twins.Steps
/-!
# Steps side by side

Each step of a run that is not itself a run of a part of the program: reading, changing and
declaring variables, finding properties, making functions and classes, and opening the scope of
a call.
-/

namespace Moth

variable {J : Joint} {layers : List Layer} {pairing : Nat → Nat → Prop} {machine other : Machine}

open Eval

/-! ## Variables -/

theorem Machine.Parallel.done_define (h : Machine.Parallel J pairing machine other)
    {scope scope' : Nat} (hpair : pairing scope scope') {name name' : Token}
    (hname : name.Alike name') (value : Value) :
    Outcome.Parallel J pairing machine other (.done () (machine.define scope name.lexeme value))
      (.done () (other.define scope' name'.lexeme value)) := by
  rw [hname.lexeme]
  exact .done (.define _ scope scope' name.lexeme value) (h.define hpair name.lexeme value) rfl rfl

theorem lookUp_parallel {name name' : Token} (h : J.Refers layers name name') :
    RunParallel J layers (lookUp name) (lookUp name') := by
  intro pairing machine other hmachine hchains
  have hmeet := h.meet
  unfold lookUp
  rw [hmachine.links, hmachine.others, h.alike.lexeme]
  generalize J.links.hops? name = hops? at hmeet
  generalize J.others.hops? name' = hops?' at hmeet
  cases hmeet with
  | none =>
    simp only [hmachine.scopes.get_globals]
    cases machine.scopes.get Machine.globals name.lexeme with
    | ok value => exact hmachine.done value
    | error cause => exact hmachine.failed h.alike _
  | some hmeet =>
    simp only [hmachine.scopes.getAt hchains hmeet]
    split
    · exact hmachine.done _
    · exact .stuck

theorem assign_parallel {name name' : Token} (h : J.Refers layers name name') (value : Value) :
    RunParallel J layers (assign name value) (assign name' value) := by
  intro pairing machine other hmachine hchains
  have hmeet := h.meet
  unfold assign
  rw [hmachine.links, hmachine.others]
  generalize J.links.hops? name = hops? at hmeet
  generalize J.others.hops? name' = hops?' at hmeet
  cases hmeet with
  | none =>
    simp only [hmachine.scopes.holder?_globals, h.alike.lexeme]
    cases hholder : machine.scopes.holder? Machine.globals name.lexeme with
    | none => exact hmachine.failed h.alike _
    | some found =>
      have hdefine := hmachine.done_define (hmachine.scopes.holder?_pair hholder) h.alike value
      rwa [h.alike.lexeme] at hdefine
  | some hmeet =>
    obtain ⟨found, found', hfound, hfound', hpair⟩ := hchains.ancestor hmeet
    simp only [hfound, hfound']
    exact hmachine.done_define hpair h.alike value

theorem declare_parallel (hshared : SharedHere layers) {name name' : Token}
    (h : name.Alike name') (value : Value) :
    RunParallel J layers (declare name value) (declare name' value) :=
  fun _ _ _ hmachine hchains =>
    hmachine.done_define (hchains.pair hmachine.scopes hshared) h value

/-! ## Objects -/

/-- A new paired scope that binds one name. -/
theorem Machine.Parallel.openSingle (h : Machine.Parallel J pairing machine other)
    {outer outer' : Nat} (houter : (machine.beside other pairing).Chains layers outer outer')
    (name : String) (value : Value) :
    let opened := machine.openSingle outer name value
    let opened' := other.openSingle outer' name value
    ∃ later, (machine.beside other pairing).Widens (opened.beside opened' later) ∧
      Machine.Parallel J later opened opened' ∧
      (opened.beside opened' later).Chains (.both :: layers) machine.scopes.next
        other.scopes.next := by
  let made := (machine.beside other pairing).child outer outer'
  have hwidens := Beside.Widens.child (machine.beside other pairing) outer outer'
  have hdefine := Beside.Widens.define made machine.scopes.next other.scopes.next name value
  have hpaired := (h.scopes.child outer outer').define (.inr ⟨rfl, rfl⟩) name value
  exact ⟨made.pairing, hwidens.trans hdefine, h.withScopes hpaired (hwidens.trans hdefine),
    houter.child.mono hdefine⟩

/-- A method bound to an instance is in the scope that binds `this`. -/
theorem Machine.Parallel.bindThis (h : Machine.Parallel J pairing machine other)
    {method method' : Closure}
    (hmethod : Closure.Parallel J [.both] (machine.beside other pairing) method method')
    (self : Value) :
    let bound := machine.bindThis method self
    let bound' := other.bindThis method' self
    ∃ later, (machine.beside other pairing).Widens (bound.2.beside bound'.2 later) ∧
      Machine.Parallel J later bound.2 bound'.2 ∧
      Closure.Parallel J [] (bound.2.beside bound'.2 later) bound.1 bound'.1 := by
  obtain ⟨layers, hchains, hfits, hshared⟩ := hmethod.declaration
  obtain ⟨later, hwidens, hopened, hscope⟩ := h.openSingle hchains "this" self
  exact ⟨later, hwidens, hopened, hmethod.isInitializer, .both :: layers, hscope, hfits, hshared⟩

theorem bindMethod_parallel (h : Machine.Parallel J pairing machine other)
    {method method' : Closure}
    (hmethod : Closure.Parallel J [.both] (machine.beside other pairing) method method')
    (self : Value) :
    (bindMethod method self machine).Parallel J pairing machine other
      (bindMethod method' self other) := by
  obtain ⟨later, hwidens, hbound, hclosure⟩ := h.bindThis hmethod self
  have hfunction := hbound.newFunction hclosure
  have houtcome : Outcome.Parallel J pairing machine other
      (.done (Value.function (machine.bindThis method self).2.functions.size)
        ((machine.bindThis method self).2.newFunction (machine.bindThis method self).1).2)
      (.done (Value.function (other.bindThis method' self).2.functions.size)
        ((other.bindThis method' self).2.newFunction (other.bindThis method' self).1).2) := by
    rw [hbound.size_functions]
    exact .done hwidens hfunction rfl rfl
  exact houtcome

theorem getProperty_parallel (object : Value) {name name' : Token} (h : name.Alike name') :
    RunParallel J layers (getProperty object name) (getProperty object name') := by
  intro pairing machine other hmachine hchains
  unfold getProperty
  cases object with
  | «instance» id =>
    simp only [hmachine.instances, h.lexeme]
    cases machine.instances[id]? with
    | none => exact .stuck
    | some entry =>
      simp only
      cases entry.fields.find? name.lexeme with
      | some value => exact hmachine.done value
      | none =>
        have hmethod := hmachine.method? entry.classId name.lexeme
        simp only
        generalize machine.method? entry.classId name.lexeme = method? at hmethod
        generalize other.method? entry.classId name.lexeme = method?' at hmethod
        cases hmethod with
        | none => exact hmachine.failed h _
        | some hmethod => exact bindMethod_parallel hmachine hmethod (.instance id)
  | _ => exact hmachine.failed h _

theorem getSuper_parallel {keyword keyword' method method' : Token}
    (h : J.RefersSuper layers keyword keyword') (hmethod : method.Alike method') :
    RunParallel J layers (getSuper keyword method) (getSuper keyword' method') := by
  intro pairing machine other hmachine hchains
  obtain ⟨hops, hops', hleft, hright, hsuper, hthis⟩ := h.meet
  unfold getSuper
  rw [hmachine.links, hmachine.others, hleft, hright]
  simp only [Nat.add_sub_cancel, hmachine.scopes.getAt hchains hsuper,
    hmachine.scopes.getAt hchains hthis, hmethod.lexeme]
  split
  · next superclass self _ _ =>
    have hfound := hmachine.method? superclass method.lexeme
    generalize machine.method? superclass method.lexeme = method? at hfound
    generalize other.method? superclass method.lexeme = method?' at hfound
    cases hfound with
    | none => exact hmachine.failed hmethod _
    | some hfound => exact bindMethod_parallel hmachine hfound self
  · exact .stuck

/-! ## Functions and classes -/

theorem declareFunction_parallel (hshared : SharedHere layers)
    {declaration declaration' : FunctionDecl} (h : FunctionFits J layers declaration declaration') :
    RunParallel J layers (declareFunction declaration) (declareFunction declaration') := by
  intro pairing machine other hmachine hchains
  have hclosure : Closure.Parallel J [] (machine.beside other pairing)
      ⟨declaration, machine.current, false⟩ ⟨declaration', other.current, false⟩ :=
    ⟨rfl, layers, hchains, h, nofun⟩
  have hname : declaration.name.Alike declaration'.name := by
    cases h with | mk hname _ _ => exact hname
  rw [declareFunction_eq, declareFunction_eq, hmachine.size_functions]
  exact ((hmachine.newFunction hclosure).done_define
    (hchains.pair hmachine.scopes hshared) hname (.function machine.functions.size)).since
    (.refl _) rfl rfl

theorem MethodsFit.forall₂ {methods methods' : List FunctionDecl}
    (h : MethodsFit J layers methods methods') :
    List.Forall₂ (FunctionFits J layers) methods methods' := by
  induction methods generalizing methods' with
  | nil => cases h with | nil => exact .nil
  | cons first rest ih => cases h with | cons hfirst hrest => exact .cons hfirst (ih hrest)

theorem methodTable_parallel {beside : Beside} {scope scope' : Nat}
    (hchains : beside.Chains layers scope scope') {methods methods' : List FunctionDecl}
    (h : MethodsFit J (.both :: layers) methods methods') :
    MethodsLike (Closure.Parallel J [.both] beside) (methodTable scope methods)
      (methodTable scope' methods') :=
  methodsLike_methodTable (h.forall₂.imp fun _ _ hmethod =>
    ⟨hmethod.name, fun _ => ⟨rfl, layers, hchains, hmethod, fun _ => trivial⟩⟩)

/-- Makes a class whose name is bound in the current scope. -/
theorem foundClass_parallel (hmachine : Machine.Parallel J pairing machine other)
    {scope scope' : Nat} (hscope : (machine.beside other pairing).Chains layers scope scope')
    (hcurrent : pairing machine.current other.current) {name name' : Token}
    (hname : name.Alike name')
    (hbinds : (machine.scopes.bindings machine.current).binds name.lexeme)
    (superclass : Option Nat) {methods methods' : List FunctionDecl}
    (hmethods : MethodsFit J (.both :: layers) methods methods') :
    (foundClass scope name superclass methods machine).Parallel J pairing machine other
      (foundClass scope' name' superclass methods' other) := by
  have hentry : ClassEntry.Like (Closure.Parallel J [.both] (machine.beside other pairing))
      ⟨name.lexeme, superclass, methodTable scope methods⟩
      ⟨name'.lexeme, superclass, methodTable scope' methods'⟩ :=
    ⟨hname.lexeme, rfl, methodTable_parallel hscope hmethods⟩
  have hbinds' : (other.scopes.bindings other.current).binds name'.lexeme := by
    rwa [hname.lexeme, hmachine.scopes.bindings hcurrent]
  have hinside := hmachine.scopes.inside hcurrent
  rw [foundClass_eq (Forest.Renamed.holder?_of_binds hinside.1 hbinds),
    foundClass_eq (Forest.Renamed.holder?_of_binds hinside.2 hbinds'), hmachine.size_classes]
  exact ((hmachine.newClass hentry).done_define hcurrent hname _).since (.refl _) rfl rfl

theorem checkSuperclass_parallel {token token' : Token} (h : token.Alike token') (value : Value) :
    RunParallel J layers (checkSuperclass token value) (checkSuperclass token' value) := by
  cases value with
  | «class» id => exact .pure id
  | _ => exact .fail h .superclassNotClass

theorem declareClass_parallel (hshared : SharedHere layers) {name name' : Token}
    (hname : name.Alike name') {superclass : Option Token} (above : Option Nat)
    (habove : above.isSome = superclass.isSome) {methods methods' : List FunctionDecl}
    (hmethods : MethodsFit J (classLayers superclass layers) methods methods') :
    RunParallel J layers (declareClass name above methods)
      (declareClass name' above methods') := by
  intro pairing machine other hmachine hchains
  have hcurrent := hchains.pair hmachine.scopes hshared
  have hdeclared := hmachine.define hcurrent name.lexeme .nil
  have hwidens := Beside.Widens.define (machine.beside other pairing) machine.current
    other.current name.lexeme .nil
  have hbinds : ((machine.define machine.current name.lexeme .nil).scopes.bindings
      machine.current).binds name.lexeme := by
    rw [Bindings.binds, Machine.define,
      Forest.find?_define_self (hmachine.scopes.inside hcurrent).1]
    rfl
  cases above with
  | none =>
    rw [declareClass_none, declareClass_none, hname.lexeme]
    cases superclass with
    | some superclass => cases habove
    | none =>
      exact (foundClass_parallel hdeclared (hchains.mono hwidens) hcurrent hname hbinds none
        hmethods).since hwidens rfl rfl
  | some above =>
    rw [declareClass_some, declareClass_some, hname.lexeme]
    cases superclass with
    | none => cases habove
    | some superclass =>
      obtain ⟨later, hsuper, hopened, hscope⟩ :=
        hdeclared.openSingle (hchains.mono hwidens) "super" (.class above)
      exact (foundClass_parallel hopened hscope (hsuper.pairing _ _ hcurrent) hname
        (Machine.binds_openSingle _ machine.current "super" (.class above) hbinds) (some above)
        hmethods).since (hwidens.trans hsuper) rfl rfl

/-! ## Calls -/

/-- The parameters are bound one after the other. -/
theorem bindParams_parallel {scope scope' : Nat} (hpair : pairing scope scope')
    (args : List Value) {params params' : List Token}
    (hparams : params'.map (·.lexeme) = params.map (·.lexeme))
    (hmachine : Machine.Parallel J pairing machine other) :
    let bound := (params.zip args).foldl (fun machine (param, arg) =>
      machine.define scope param.lexeme arg) machine
    let bound' := (params'.zip args).foldl (fun machine (param, arg) =>
      machine.define scope' param.lexeme arg) other
    (machine.beside other pairing).Widens (bound.beside bound' pairing) ∧
      bound.current = machine.current ∧ bound'.current = other.current ∧
      Machine.Parallel J pairing bound bound' := by
  induction params generalizing params' args machine other with
  | nil =>
    obtain rfl : params' = [] := List.map_eq_nil_iff.1 hparams
    exact ⟨.refl _, rfl, rfl, hmachine⟩
  | cons param params ih =>
    cases params' with
    | nil => cases hparams
    | cons param' params' =>
      obtain ⟨hparam, hrest⟩ := List.cons.inj hparams
      have hparam : param'.lexeme = param.lexeme := hparam
      cases args with
      | nil => exact ⟨.refl _, rfl, rfl, hmachine⟩
      | cons arg args =>
        have hdefine := hmachine.define hpair param.lexeme arg
        obtain ⟨hwidens, hcurrent, hcurrent', hbound⟩ := ih args hrest hdefine
        simp only [List.zip_cons_cons, List.foldl_cons, hparam]
        exact ⟨(Beside.Widens.define (machine.beside other pairing) scope scope' param.lexeme
          arg).trans hwidens, hcurrent, hcurrent', hbound⟩

/-- The scope of a call, and the layers that its body then has around it. -/
theorem callScope_parallel (hmachine : Machine.Parallel J pairing machine other)
    {closure closure' : Closure}
    (h : Closure.Parallel J [] (machine.beside other pairing) closure closure')
    (args : List Value) :
    let opened := callScope closure args machine
    let opened' := callScope closure' args other
    ∃ later layers, (machine.beside other pairing).Widens (opened.2.beside opened'.2 later) ∧
      opened.2.current = machine.current ∧ opened'.2.current = other.current ∧
      Machine.Parallel J later opened.2 opened'.2 ∧
      (opened.2.beside opened'.2 later).Chains layers opened.1 opened'.1 ∧
      StmtsFit J layers closure.declaration.body closure'.declaration.body := by
  obtain ⟨layers, hchains, hfits, -⟩ := h.declaration
  have hchild := Beside.Widens.child (machine.beside other pairing) closure.scope closure'.scope
  have hnew := hmachine.withScopes (hmachine.scopes.child closure.scope closure'.scope) hchild
  obtain ⟨hwidens, hcurrent, hcurrent', hbound⟩ :=
    bindParams_parallel (.inr ⟨rfl, rfl⟩) args hfits.params hnew
  exact ⟨_, .both :: layers, hchild.trans hwidens, hcurrent, hcurrent', hbound,
    hchains.child.mono hwidens, hfits.body⟩

theorem callResult_parallel (hmachine : Machine.Parallel J pairing machine other)
    {closure closure' : Closure}
    (h : Closure.Parallel J [] (machine.beside other pairing) closure closure')
    (completion : Completion) :
    (callResult closure completion machine).Parallel J pairing machine other
      (callResult closure' completion other) := by
  obtain ⟨layers, hchains, -, hshared⟩ := h.declaration
  unfold callResult
  rw [h.isInitializer]
  split
  · next hinit =>
    have hpair := hchains.pair hmachine.scopes (hshared hinit)
    have hthis : other.scopes.getAt closure'.scope 0 "this" =
        machine.scopes.getAt closure.scope 0 "this" := by
      simp only [Forest.getAt, Forest.ancestor, hmachine.scopes.bindings hpair]
    rw [hthis]
    split
    · exact hmachine.done _
    · exact .stuck
  · cases completion <;> exact hmachine.done _

theorem arity?_parallel (hmachine : Machine.Parallel J pairing machine other) (callee : Value) :
    arity? other callee = arity? machine callee :=
  hmachine.arity?_eq (fun hclosure => hclosure.elim (·.arity) (·.arity)) callee

theorem checkCall_parallel {paren paren' : Token} (h : paren.Alike paren') (callee : Value)
    (count : Nat) :
    RunParallel J layers (checkCall paren callee count) (checkCall paren' callee count) := by
  intro pairing machine other hmachine hchains
  unfold checkCall
  rw [arity?_parallel hmachine]
  split
  · exact hmachine.failed h _
  · split
    · exact hmachine.done ()
    · exact hmachine.failed h _

/-! ## Input and output -/

theorem printValue_parallel (value : Value) :
    RunParallel J layers (printValue value) (printValue value) := by
  refine RunParallel.modify (fun pairing machine other hmachine => ?_) (fun _ => rfl) fun _ => rfl
  rw [hmachine.display]
  exact hmachine.write _

theorem Native.call_parallel {paren paren' : Token} (h : paren.Alike paren') (native : Native)
    (args : List Value) :
    RunParallel J layers (native.call paren args) (native.call paren' args) := by
  intro pairing machine other hmachine _
  obtain ⟨answer, -, hanswer⟩ := native.exists_answer machine.sources args
  rw [hanswer paren machine rfl, hanswer paren' other hmachine.sources]
  cases answer with
  | gives value text rest => exact .done (.refl _) (hmachine.exchange text rest) rfl rfl
  | fails fault => exact hmachine.failed h fault
  | stuck => exact .stuck

end Moth
