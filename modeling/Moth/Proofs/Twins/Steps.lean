import Moth.Proofs.Execution.Classes
import Moth.Proofs.Twins.Runs
/-!
# Twin steps

Each step of a run that is not itself a run of a part of the program: reading, changing and
declaring variables, finding properties, making functions and classes, and opening the scope of
a call.
-/

namespace Moth

variable {T : Twinning} {ρs : List Renaming} {names : Nat → Renaming}
  {machine machine' : Machine}

open Eval

/-! ## Variables -/

theorem Chained.lt_next {scopes others : Forest Value} {scope : Nat}
    (h : Chained names scopes scope ρs) (hscopes : Forest.Renamed names scopes others) :
    scope < scopes.next := by
  cases h with
  | globals => exact hscopes.rooted
  | inner houter => exact Forest.lt_next_of_enclosing? houter

theorem Chained.names_eq {scopes others : Forest Value} {scope : Nat}
    (h : Chained names scopes scope ρs) (hscopes : Forest.Renamed names scopes others) :
    names scope = Renaming.along ρs 0 :=
  hscopes.names_of_ancestor h rfl

/-- Two results that are both there and equal, or both missing. -/
theorem Except.cases_of_toOption_eq {ε α : Type} {x y : Except ε α}
    (h : y.toOption = x.toOption) :
    (∃ value, x = .ok value ∧ y = .ok value) ∨
      ∃ cause cause', x = .error cause ∧ y = .error cause' := by
  cases x with
  | ok value =>
    cases y with
    | ok value' =>
      obtain rfl : value' = value := Option.some.inj h
      exact .inl ⟨value', rfl, rfl⟩
    | error cause => cases h
  | error cause =>
    cases y with
    | ok value => cases h
    | error cause' => exact .inr ⟨cause, cause', rfl, rfl⟩

theorem lookUp_twin {name name' : Token} (h : T.pairs ρs name name.lexeme name' name'.lexeme) :
    RunTwin T ρs (lookUp name) fun _ => lookUp name' := by
  intro names machine machine' hmachine hchained
  refine .atom ?_
  have hname := T.names h
  unfold lookUp
  rw [hmachine.links, hmachine.others, T.hops h, hmachine.current]
  cases hhops : T.links.hops? name with
  | some hops =>
    rw [hhops, Renaming.through] at hname
    have hget := hmachine.scopes.getAt hchained hops name.lexeme
    rw [← hname] at hget
    rcases Except.cases_of_toOption_eq hget with ⟨value, hleft, hright⟩ | ⟨_, _, hleft, hright⟩
    · simp only [hleft, hright]
      exact .done (.refl names machine.scopes) hmachine rfl
    · simp only [hleft, hright]
      exact .stuck
  | none =>
    rw [hhops, Renaming.through, Renaming.same_apply] at hname
    rw [hname, hmachine.scopes.get_globals]
    cases machine.scopes.get Machine.globals name.lexeme with
    | ok value => exact .done (.refl names machine.scopes) hmachine rfl
    | error cause => exact .failed rfl hmachine

/-- A definition under corresponding names. -/
theorem Machine.Twin.done_define (h : Machine.Twin T names machine machine') (scope : Nat)
    (name : String) {name' : String} (hname : name' = names scope name) (value : Value) :
    Outcome.Twin T names machine (.done () (machine.define scope name value))
      (.done () (machine'.define scope name' value)) := by
  subst hname
  exact .done (.define names machine.scopes scope name value) (h.define scope name value) rfl

theorem assign_twin {name name' : Token} (h : T.pairs ρs name name.lexeme name' name'.lexeme)
    (value : Value) : RunTwin T ρs (assign name value) fun _ => assign name' value := by
  intro names machine machine' hmachine hchained
  refine .atom ?_
  have hname := T.names h
  unfold assign
  rw [hmachine.links, hmachine.others, T.hops h, hmachine.current]
  cases hhops : T.links.hops? name with
  | some hops =>
    rw [hhops, Renaming.through] at hname
    simp only [hmachine.scopes.ancestor]
    split
    · next scope hscope =>
      refine hmachine.done_define scope name.lexeme ?_ value
      rw [hname, hmachine.scopes.names_of_ancestor hchained hscope]
    · exact .stuck
  | none =>
    rw [hhops, Renaming.through, Renaming.same_apply] at hname
    simp only [hname, hmachine.scopes.holder?_globals_eq]
    cases hholder : machine.scopes.holder? Machine.globals name.lexeme with
    | none => exact .failed rfl hmachine
    | some scope =>
      refine hmachine.done_define scope name.lexeme ?_ value
      rw [Forest.Renamed.holder?_globals hmachine.scopes.rooted hmachine.scopes.root] at hholder
      split at hholder
      · rw [← Option.some.inj hholder, hmachine.scopes.globals, Renaming.same_apply]
      · cases hholder

theorem declare_twin {name name' : Token} (h : name'.lexeme = Renaming.along ρs 0 name.lexeme)
    (value : Value) : RunTwin T ρs (declare name value) fun _ => declare name' value := by
  intro names machine machine' hmachine hchained
  refine .atom ?_
  unfold declare
  rw [hmachine.current]
  exact hmachine.done_define machine.current name.lexeme
    (by rw [h, hchained.names_eq hmachine.scopes]) value

/-! ## Objects -/

theorem Machine.Twin.openSingle (h : Machine.Twin T names machine machine') {outer : Nat}
    (houter : Chained names machine.scopes outer ρs) (name : String) (value : Value) :
    ∃ names', Widens names machine.scopes names' (machine.openSingle outer name value).scopes ∧
      (∀ scope < machine.scopes.next, names' scope = names scope) ∧
      Machine.Twin T names' (machine.openSingle outer name value)
        (machine'.openSingle outer name value) ∧
      Chained names' (machine.openSingle outer name value).scopes machine.scopes.next
        (.same :: ρs) := by
  let names' := extendNames names machine.scopes .same
  have hself : names' machine.scopes.next = .same := if_pos rfl
  have hdefine := Widens.define names' (machine.scopes.child outer) machine.scopes.next name value
  have hopened := (h.newScope .same outer).define machine.scopes.next name value
  rw [show extendNames names machine.scopes .same machine.scopes.next = .same from hself,
    Renaming.same_apply] at hopened
  refine ⟨names', (Forest.Renamed.widens_child names machine.scopes .same outer).trans hdefine,
    fun scope hscope => if_neg (Nat.ne_of_lt hscope), ?_,
    (Forest.Renamed.chained_child houter .same).mono hdefine⟩
  unfold Machine.openSingle
  rw [h.scopes.next]
  exact hopened

/-- A method bound to an instance is in the scope that binds `this`. -/
theorem Machine.Twin.bindThis (h : Machine.Twin T names machine machine') {method method' : Closure}
    (hmethod : Closure.Twin T [.same] names machine.scopes method method') (self : Value) :
    ∃ names', Widens names machine.scopes names' (machine.bindThis method self).2.scopes ∧
      Machine.Twin T names' (machine.bindThis method self).2 (machine'.bindThis method' self).2 ∧
      Closure.Twin T [] names' (machine.bindThis method self).2.scopes
        (machine.bindThis method self).1 (machine'.bindThis method' self).1 := by
  obtain ⟨ρs, hchained, hdeclaration⟩ := hmethod.declaration
  obtain ⟨names', hwidens, -, hopened, hscope⟩ := h.openSingle hchained "this" self
  refine ⟨names', hwidens, ?_, h.scopes.next, hmethod.isInitializer, .same :: ρs, hscope,
    hdeclaration⟩
  show Machine.Twin T names' (machine.openSingle method.scope "this" self)
    (machine'.openSingle method'.scope "this" self)
  rwa [hmethod.scope]

theorem bindMethod_twin (h : Machine.Twin T names machine machine') {method method' : Closure}
    (hmethod : Closure.Twin T [.same] names machine.scopes method method') (self : Value) :
    Outcome.Twin T names machine (bindMethod method self machine)
      (bindMethod method' self machine') := by
  obtain ⟨names', hwidens, hbound, hclosure⟩ := h.bindThis hmethod self
  have hfunction := hbound.newFunction hclosure
  have hsize := hbound.size_functions
  have houtcome : Outcome.Twin T names machine
      (.done (Value.function (machine.bindThis method self).2.functions.size)
        ((machine.bindThis method self).2.newFunction (machine.bindThis method self).1).2)
      (.done (Value.function (machine'.bindThis method' self).2.functions.size)
        ((machine'.bindThis method' self).2.newFunction (machine'.bindThis method' self).1).2) := by
    rw [hsize]
    exact .done hwidens hfunction rfl
  exact houtcome

theorem getProperty_twin (object : Value) {name name' : Token} (h : name'.lexeme = name.lexeme) :
    RunTwin T ρs (getProperty object name) fun _ => getProperty object name' := by
  intro names machine machine' hmachine hchained
  refine .atom ?_
  unfold getProperty
  cases object with
  | «instance» id =>
    simp only [hmachine.instances, h]
    cases machine.instances[id]? with
    | none => exact .stuck
    | some entry =>
      simp only
      cases entry.fields.find? name.lexeme with
      | some value => exact .done (.refl names machine.scopes) hmachine rfl
      | none =>
        have hmethod := hmachine.method? entry.classId name.lexeme
        simp only
        generalize machine.method? entry.classId name.lexeme = method? at hmethod
        generalize machine'.method? entry.classId name.lexeme = method?' at hmethod
        cases hmethod with
        | none => exact .failed rfl hmachine
        | some hmethod => exact bindMethod_twin hmachine hmethod (.instance id)
  | _ => exact .failed rfl hmachine

theorem getSuper_twin {keyword keyword' method method' : Token}
    (h : T.pairs ρs keyword "super" keyword' "super") (hmethod : method'.lexeme = method.lexeme) :
    RunTwin T ρs (getSuper keyword method) fun _ => getSuper keyword' method' := by
  intro names machine machine' hmachine hchained
  refine .atom ?_
  unfold getSuper
  rw [hmachine.links, hmachine.others, T.hops h, hmachine.current]
  cases T.links.hops? keyword with
  | none => exact .stuck
  | some hops =>
    have hsuper := hmachine.scopes.getAt hchained hops "super"
    have hthis := hmachine.scopes.getAt hchained (hops - 1) "this"
    rw [Renaming.super] at hsuper
    rw [Renaming.this] at hthis
    rcases Except.cases_of_toOption_eq hsuper with ⟨above, hleft, hright⟩ | ⟨_, _, hleft, hright⟩
    · rcases Except.cases_of_toOption_eq hthis with ⟨self, hself, hself'⟩ | ⟨_, _, hself, hself'⟩
      · simp only [hleft, hright, hself, hself']
        cases above with
        | «class» id =>
          have hfound := hmachine.method? id method.lexeme
          simp only [hmethod]
          generalize machine.method? id method.lexeme = method? at hfound
          generalize machine'.method? id method.lexeme = method?' at hfound
          cases hfound with
          | none => exact .failed rfl hmachine
          | some hfound => exact bindMethod_twin hmachine hfound self
        | _ => exact .stuck
      · simp only [hleft, hright, hself, hself']
        exact .stuck
    · simp only [hleft, hright]
      exact .stuck

/-! ## Functions and classes -/

theorem declareFunction_eq (declaration : FunctionDecl) (machine : Machine) :
    declareFunction declaration machine =
      .done () ((machine.newFunction ⟨declaration, machine.current, false⟩).2.define
        machine.current declaration.name.lexeme (.function machine.functions.size)) := rfl

theorem declareFunction_twin {declaration declaration' : FunctionDecl}
    (hname : NameStays ρs declaration.name declaration'.name)
    (h : functionTwin T.toMatching ρs declaration declaration') :
    RunTwin T ρs (declareFunction declaration) fun _ => declareFunction declaration' := by
  intro names machine machine' hmachine hchained
  have hclosure : Closure.Twin T [] names machine.scopes ⟨declaration, machine.current, false⟩
      ⟨declaration', machine.current, false⟩ := ⟨rfl, rfl, ρs, hchained, h⟩
  have hstays : declaration'.name.lexeme = names machine.current declaration.name.lexeme := by
    rw [hchained.names_eq hmachine.scopes, hname.2, hname.1]
  refine .atom ?_
  rw [declareFunction_eq, declareFunction_eq, hmachine.size_functions, hmachine.current]
  exact ((hmachine.newFunction hclosure).done_define machine.current declaration.name.lexeme hstays
    (.function machine.functions.size)).since (.refl names machine.scopes) rfl

theorem methodTwins.forall₂ {M : Matching} : ∀ {methods methods' : List FunctionDecl},
    methodTwins M ρs methods methods' → List.Forall₂ (functionTwin M ρs) methods methods'
  | [], _, rfl => .nil
  | _ :: _, _, ⟨_, _, rfl, hfirst, hrest⟩ => .cons hfirst (methodTwins.forall₂ hrest)

theorem methodTable_twin {scopes : Forest Value} {scope : Nat}
    (hchained : Chained names scopes scope ρs) {methods methods' : List FunctionDecl}
    (h : methodTwins T.toMatching (.same :: ρs) methods methods') :
    MethodsLike (Closure.Twin T [.same] names scopes) (methodTable scope methods)
      (methodTable scope methods') :=
  methodsLike_methodTable (h.forall₂.imp fun _ _ hmethod =>
    ⟨hmethod.name, fun _ => ⟨rfl, rfl, ρs, hchained, hmethod⟩⟩)

theorem foundClass_eq {scope found : Nat} {name : Token} {superclass : Option Nat}
    {methods : List FunctionDecl} {machine : Machine}
    (h : machine.scopes.holder? machine.current name.lexeme = some found) :
    foundClass scope name superclass methods machine =
      .done () ((machine.newClass ⟨name.lexeme, superclass, methodTable scope methods⟩).2.define
        found name.lexeme (.class machine.classes.size)) := by
  let made := (machine.newClass ⟨name.lexeme, superclass, methodTable scope methods⟩).2
  have hfound : made.scopes.holder? made.current name.lexeme = some found := h
  simp only [foundClass, nameClass, bind, Run.bind, Run.make, made] at hfound ⊢
  rw [hfound]
  rfl

/-- Makes a class whose name is bound in the current scope. -/
theorem foundClass_twin (hmachine : Machine.Twin T names machine machine') {scope : Nat}
    (hscope : Chained names machine.scopes scope ρs)
    {name name' : Token} (hname : name'.lexeme = name.lexeme)
    (hstays : names machine.current name.lexeme = name.lexeme)
    (hcurrent : machine.current < machine.scopes.next)
    (hbinds : (machine.scopes.bindings machine.current).binds name.lexeme)
    (superclass : Option Nat) {methods methods' : List FunctionDecl}
    (hmethods : methodTwins T.toMatching (.same :: ρs) methods methods') :
    Outcome.Twin T names machine (foundClass scope name superclass methods machine)
      (foundClass scope name' superclass methods' machine') := by
  have hentry : ClassEntry.Like (Closure.Twin T [.same] names machine.scopes)
      ⟨name.lexeme, superclass, methodTable scope methods⟩
      ⟨name.lexeme, superclass, methodTable scope methods'⟩ :=
    ⟨rfl, rfl, methodTable_twin hscope hmethods⟩
  have hbinds' : (machine'.scopes.bindings machine'.current).binds name'.lexeme := by
    have hfind := hmachine.scopes.find? machine.current name.lexeme
    rw [hstays] at hfind
    rwa [hmachine.current, hname, Bindings.binds, hfind]
  have hcurrent' : machine'.current < machine'.scopes.next := by
    rwa [hmachine.current, hmachine.scopes.next]
  rw [foundClass_eq (Forest.Renamed.holder?_of_binds hcurrent hbinds),
    foundClass_eq (Forest.Renamed.holder?_of_binds hcurrent' hbinds'), hmachine.current,
    hmachine.size_classes, hname]
  exact ((hmachine.newClass hentry).done_define machine.current name.lexeme hstays.symm _).since
    (.refl names machine.scopes) rfl

theorem checkSuperclass_twin (token token' : Token) (value : Value) :
    RunTwin T ρs (checkSuperclass token value) fun _ => checkSuperclass token' value := by
  cases value with
  | «class» id => exact .pure id
  | _ => exact .fail token token' .superclassNotClass

theorem declareClass_twin {name name' : Token} (hname : NameStays ρs name name')
    {superclass : Option Token} (above : Option Nat) (habove : above.isSome = superclass.isSome)
    {methods methods' : List FunctionDecl}
    (hmethods : methodTwins T.toMatching (classRenamings ρs superclass) methods methods') :
    RunTwin T ρs (declareClass name above methods) fun _ => declareClass name' above methods' := by
  intro names machine machine' hmachine hchained
  refine .atom ?_
  have hcurrent := hchained.lt_next hmachine.scopes
  have hstays : names machine.current name.lexeme = name.lexeme := by
    rw [hchained.names_eq hmachine.scopes, hname.2]
  have hdeclared := hmachine.define machine.current name.lexeme .nil
  rw [hstays] at hdeclared
  have hwidens := Widens.define names machine.scopes machine.current name.lexeme .nil
  have hbinds : ((machine.define machine.current name.lexeme .nil).scopes.bindings
      machine.current).binds name.lexeme := by
    rw [Bindings.binds, Machine.define, Forest.find?_define_self hcurrent]
    rfl
  have hnext : machine.current < (machine.define machine.current name.lexeme .nil).scopes.next := by
    rwa [Machine.define, Forest.next_define]
  cases above with
  | none =>
    rw [declareClass_none, declareClass_none, hmachine.current, hname.1]
    cases superclass with
    | some superclass => cases habove
    | none =>
      exact (foundClass_twin hdeclared (hchained.mono hwidens) hname.1 hstays hnext hbinds none
        hmethods).since hwidens rfl
  | some above =>
    rw [declareClass_some, declareClass_some, hmachine.current, hname.1,
      hdeclared.scopes.next]
    cases superclass with
    | none => cases habove
    | some superclass =>
      obtain ⟨names', hsuper, hkept, hopened, hscope⟩ :=
        hdeclared.openSingle (hchained.mono hwidens) "super" (.class above)
      refine (foundClass_twin hopened hscope hname.1 ?_ ?_ ?_ (some above) hmethods).since
        (hwidens.trans hsuper) rfl
      · rw [Machine.current_openSingle]
        exact hkept machine.current hnext ▸ hstays
      · rw [Machine.current_openSingle, Machine.next_openSingle]
        exact Nat.lt_succ_of_lt hnext
      · exact Machine.binds_openSingle _ machine.current "super" (.class above) hbinds

/-! ## Calls -/

/-- The parameters are bound one after the other, in a scope that binds nothing else. -/
theorem bindParams_twin {scope : Nat} {args : List Value} {params params' : List Token}
    (hparams : params'.map (·.lexeme) = params.map (fun param => names scope param.lexeme))
    (hmachine : Machine.Twin T names machine machine') :
    let bound := (params.zip args).foldl (fun machine (param, arg) =>
      machine.define scope param.lexeme arg) machine
    Widens names machine.scopes names bound.scopes ∧ bound.current = machine.current ∧
      Machine.Twin T names bound ((params'.zip args).foldl (fun machine (param, arg) =>
        machine.define scope param.lexeme arg) machine') := by
  induction params generalizing params' args machine machine' with
  | nil =>
    obtain rfl : params' = [] := List.map_eq_nil_iff.1 hparams
    exact ⟨.refl names machine.scopes, rfl, hmachine⟩
  | cons param params ih =>
    cases params' with
    | nil => cases hparams
    | cons param' params' =>
      obtain ⟨hparam, hrest⟩ := List.cons.inj hparams
      have hparam : param'.lexeme = names scope param.lexeme := hparam
      cases args with
      | nil => exact ⟨.refl names machine.scopes, rfl, hmachine⟩
      | cons arg args =>
        have hdefine := hmachine.define scope param.lexeme arg
        rw [← hparam] at hdefine
        obtain ⟨hwidens, hcurrent, hbound⟩ := ih hrest hdefine
        exact ⟨(Widens.define names machine.scopes scope param.lexeme arg).trans hwidens,
          hcurrent, hbound⟩

/-- The scope of a call, and what its body then is under. -/
theorem callScope_twin (hmachine : Machine.Twin T names machine machine')
    {closure closure' : Closure} (h : Closure.Twin T [] names machine.scopes closure closure')
    (args : List Value) :
    let opened := callScope closure args machine
    let opened' := callScope closure' args machine'
    opened'.1 = opened.1 ∧ ∃ names' ρs, Widens names machine.scopes names' opened.2.scopes ∧
      opened.2.current = machine.current ∧ Machine.Twin T names' opened.2 opened'.2 ∧
      Chained names' opened.2.scopes opened.1 ρs ∧
      stmtTwins T.toMatching ρs closure.declaration.body closure'.declaration.body := by
  obtain ⟨ρs, hchained, hdeclaration⟩ := h.declaration
  obtain ⟨ρ, hρ, hparams, hbody⟩ := hdeclaration.inside
  refine ⟨hmachine.scopes.next, extendNames names machine.scopes ρ, ρ :: ρs, ?_⟩
  have hnew := hmachine.newScope ρ closure.scope
  have hchild := Forest.Renamed.widens_child names machine.scopes ρ closure.scope
  have hself : extendNames names machine.scopes ρ machine.scopes.next = ρ := if_pos rfl
  rw [← hself] at hparams
  obtain ⟨hwidens, hcurrent, hbound⟩ := bindParams_twin hparams hnew
  refine ⟨hchild.trans hwidens, hcurrent, ?_, ?_, hbody⟩
  · rw [callScope, callScope, h.scope]
    dsimp only [Machine.newScope]
    rw [hmachine.scopes.next]
    exact hbound
  · exact (Forest.Renamed.chained_child hchained ρ).mono hwidens

theorem callResult_twin (hmachine : Machine.Twin T names machine machine')
    {closure closure' : Closure} (h : Closure.Twin T [] names machine.scopes closure closure')
    (completion : Completion) :
    Outcome.Twin T names machine (callResult closure completion machine)
      (callResult closure' completion machine') := by
  have hdone (value : Value) : Outcome.Twin T names machine (.done value machine)
      (.done value machine') := .done (.refl names machine.scopes) hmachine rfl
  unfold callResult
  rw [h.isInitializer, h.scope]
  split
  · obtain ⟨ρs, hchained, -⟩ := h.declaration
    have hthis := hmachine.scopes.getAt hchained 0 "this"
    rw [Renaming.this] at hthis
    rcases Except.cases_of_toOption_eq hthis with ⟨self, hleft, hright⟩ | ⟨_, _, hleft, hright⟩
    · simp only [hleft, hright]
      exact hdone self
    · simp only [hleft, hright]
      exact .stuck
  · cases completion <;> exact hdone _

theorem Closure.Twin.arity {inner : List Renaming} {scopes : Forest Value}
    {closure closure' : Closure} (h : Closure.Twin T inner names scopes closure closure') :
    closure'.declaration.params.length = closure.declaration.params.length := by
  obtain ⟨ρs, -, hdeclaration⟩ := h.declaration
  obtain ⟨ρ, -, hparams, -⟩ := hdeclaration.inside
  simpa using congrArg List.length hparams

theorem arity?_twin (hmachine : Machine.Twin T names machine machine') (callee : Value) :
    arity? machine' callee = arity? machine callee :=
  hmachine.arity?_eq (fun hclosure => hclosure.elim (·.arity) (·.arity)) callee

theorem checkCall_twin (paren paren' : Token) (callee : Value) (count : Nat) :
    RunTwin T ρs (checkCall paren callee count) fun _ => checkCall paren' callee count := by
  intro names machine machine' hmachine hchained
  refine .atom ?_
  unfold checkCall
  rw [arity?_twin hmachine]
  split
  · exact .failed rfl hmachine
  · split
    · exact .done (.refl names machine.scopes) hmachine rfl
    · exact .failed rfl hmachine

/-! ## Input and output -/

theorem printValue_twin (value : Value) :
    RunTwin T ρs (printValue value) fun _ => printValue value := by
  refine RunTwin.modify (fun names machine machine' hmachine => ?_) (fun _ => rfl) fun _ => rfl
  rw [hmachine.display]
  exact hmachine.write _

theorem Native.call_twin (paren paren' : Token) (native : Native) (args : List Value) :
    RunTwin T ρs (native.call paren args) fun _ => native.call paren' args := by
  intro names machine machine' hmachine _
  obtain ⟨answer, -, hanswer⟩ := native.exists_answer machine.sources args
  refine .atom ?_
  rw [hanswer paren machine rfl, hanswer paren' machine' hmachine.sources]
  cases answer with
  | gives value text rest =>
    exact .done (.refl names machine.scopes) (hmachine.exchange text rest) rfl
  | fails fault => exact .failed rfl hmachine
  | stuck => exact .stuck

end Moth
