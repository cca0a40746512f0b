import Moth.Proofs.Twins.Steps
/-!
# Twin programs run alike

The induction is on the fuel of the one run; the other has as much as it needs.  A grouping takes
fuel and does nothing else, so that the two runs need not take as much.
-/

namespace Moth

variable {T : Twinning} {ρs : List Renaming}

open Eval

/-- With this much fuel every run is followed by the runs of its twin. -/
structure Simulates (T : Twinning) (fuel : Nat) : Prop where
  evaluate : ∀ {ρs : List Renaming} (room : Nat) {expr expr' : Expr},
    expr.Twin T.toMatching ρs expr' →
      RunTwin T ρs (evaluate fuel room expr) fun fuel => evaluate fuel room expr'
  evaluateArgs : ∀ {ρs : List Renaming} (room : Nat) {args args' : List Expr},
    argTwins T.toMatching ρs args args' →
      RunTwin T ρs (evaluateArgs fuel room args) fun fuel => evaluateArgs fuel room args'
  call : ∀ {ρs : List Renaming} (room : Nat) (paren paren' : Token) (callee : Value)
    (args : List Value),
      RunTwin T ρs (call fuel room paren callee args) fun fuel => call fuel room paren' callee args
  invoke : ∀ (room : Nat) {closure closure' : Closure} (args : List Value)
    {names : Nat → Renaming} {machine machine' : Machine}, Machine.Twin T names machine machine' →
      Closure.Twin T [] names machine.scopes closure closure' →
      Follows T names machine (invoke fuel room closure args machine)
        fun fuel => invoke fuel room closure' args machine'
  execute : ∀ {ρs : List Renaming} (room : Nat) {stmt stmt' : Stmt},
    stmt.Twin T.toMatching ρs stmt' →
      RunTwin T ρs (execute fuel room stmt) fun fuel => execute fuel room stmt'
  executeAll : ∀ {ρs : List Renaming} (room : Nat) {body body' : List Stmt},
    stmtTwins T.toMatching ρs body body' →
      RunTwin T ρs (executeAll fuel room body) fun fuel => executeAll fuel room body'
  repeatWhile : ∀ {ρs : List Renaming} (room : Nat) {condition condition' : Expr}
    {body body' : Stmt}, condition.Twin T.toMatching ρs condition' →
    body.Twin T.toMatching ρs body' →
      RunTwin T ρs (repeatWhile fuel room condition body)
        fun fuel => repeatWhile fuel room condition' body'

theorem Simulates.zero : Simulates T 0 where
  evaluate _ _ _ _ := .outOfFuel _
  evaluateArgs _ _ _ _ := .outOfFuel _
  call _ _ _ _ _ := .outOfFuel _
  invoke _ _ _ _ _ _ _ _ _ := .outOfFuel _
  execute _ _ _ _ := .outOfFuel _
  executeAll _ _ _ _ := .outOfFuel _
  repeatWhile _ _ _ _ _ _ _ := .outOfFuel _

/-- The groupings around an expression only cost fuel. -/
theorem RunTwin.of_core {run : Run Value} {room : Nat} : ∀ other : Expr,
    RunTwin T ρs run (fun fuel => evaluate fuel room other.core) →
    RunTwin T ρs run fun fuel => evaluate fuel room other
  | .grouping inner, h => (RunTwin.of_core inner h).succ fun _ => rfl
  | .literal _, h | .unary .., h | .binary .., h | .logical .., h | .ref _, h | .assign .., h
  | .call .., h | .get .., h | .set .., h | .this _, h | .super .., h => h

def callInitializer (fuel room id self : Nat) (args : List Value) : Run Value := fun machine =>
  match machine.method? id "init" with
  | none => .done (.instance self) machine
  | some initializer =>
    let bound := machine.bindThis initializer (.instance self)
    (invoke fuel room bound.1 args >>= fun _ => pure (Value.instance self)) bound.2

theorem call_class_eq (fuel room : Nat) (paren : Token) (id : Nat) (args : List Value)
    (machine : Machine) :
    call (fuel + 1) room paren (.class id) args machine =
      callInitializer fuel room id machine.instances.size args (machine.newInstance id).2 := by
  show (match (machine.newInstance id).2.method? id "init" with
    | none => (pure _ : Run Value)
    | some initializer => _) (machine.newInstance id).2 = _
  unfold callInitializer
  cases (machine.newInstance id).2.method? id "init" <;> rfl

def callFunction (fuel room : Nat) (closure? : Option Closure) (args : List Value) :
    Run Value := fun machine =>
  match closure? with
  | some closure => invoke fuel room closure args machine
  | none => .stuck machine

namespace Simulates

variable {fuel : Nat} (h : Simulates T fuel)
include h

theorem evaluate_succ (room : Nat) {expr expr' : Expr} (htwin : expr.Twin T.toMatching ρs expr') :
    RunTwin T ρs (Eval.evaluate (fuel + 1) room expr)
      fun fuel => Eval.evaluate fuel room expr' := by
  cases expr with
  | grouping inner => exact h.evaluate room htwin
  | literal value =>
    refine RunTwin.of_core expr' (RunTwin.succ (.pure value.value) fun fuel => ?_)
    rw [show expr'.core = _ from htwin]
    rfl
  | unary op mark right =>
    obtain ⟨mark', right', hcore, hright⟩ := htwin
    refine RunTwin.of_core expr' (RunTwin.succ ((h.evaluate room hright).bind fun value =>
      .lift mark mark' (op.apply value)) fun fuel => ?_)
    rw [hcore]
    rfl
  | binary op mark left right =>
    obtain ⟨mark', left', right', hcore, hleft, hright⟩ := htwin
    refine RunTwin.of_core expr' (RunTwin.succ ((h.evaluate room hleft).bind fun left =>
      (h.evaluate room hright).bind fun right => .lift mark mark' (op.apply left right))
      fun fuel => ?_)
    rw [hcore]
    rfl
  | logical op mark left right =>
    obtain ⟨mark', left', right', hcore, hleft, hright⟩ := htwin
    refine RunTwin.of_core expr' (RunTwin.succ ((h.evaluate room hleft).bind fun left =>
      .ite (.pure left) (h.evaluate room hright)) fun fuel => ?_)
    rw [hcore]
    rfl
  | ref name =>
    obtain ⟨name', hcore, hname⟩ := htwin
    refine RunTwin.of_core expr' (RunTwin.succ (lookUp_twin hname) fun fuel => ?_)
    rw [hcore]
    rfl
  | assign name value =>
    obtain ⟨name', value', hcore, hname, hvalue⟩ := htwin
    refine RunTwin.of_core expr' (RunTwin.succ ((h.evaluate room hvalue).bind fun value =>
      (assign_twin hname value).bind fun _ => .pure value) fun fuel => ?_)
    rw [hcore]
    rfl
  | get object name =>
    obtain ⟨object', name', hcore, hobject, hname⟩ := htwin
    refine RunTwin.of_core expr' (RunTwin.succ ((h.evaluate room hobject).bind fun object =>
      getProperty_twin object hname) fun fuel => ?_)
    rw [hcore]
    rfl
  | this keyword =>
    obtain ⟨keyword', hcore, hkeyword⟩ := htwin
    refine RunTwin.of_core expr' (RunTwin.succ (lookUp_twin hkeyword) fun fuel => ?_)
    rw [hcore]
    rfl
  | super keyword method =>
    obtain ⟨keyword', method', hcore, hkeyword, hmethod⟩ := htwin
    refine RunTwin.of_core expr' (RunTwin.succ (getSuper_twin hkeyword hmethod) fun fuel => ?_)
    rw [hcore]
    rfl
  | call callee paren args =>
    obtain ⟨callee', paren', args', hcore, hcallee, hargs⟩ := htwin
    cases room with
    | zero =>
      refine RunTwin.of_core expr' (RunTwin.succ ((h.evaluate 0 hcallee).bind fun callee =>
        (h.evaluateArgs 0 hargs).bind fun args =>
          (checkCall_twin paren paren' callee args.length).bind fun _ =>
            .fail paren paren' .stackOverflow) fun fuel => ?_)
      rw [hcore]
      rfl
    | succ room =>
      refine RunTwin.of_core expr' (RunTwin.succ ((h.evaluate (room + 1) hcallee).bind
        fun callee => (h.evaluateArgs (room + 1) hargs).bind fun args =>
          (checkCall_twin paren paren' callee args.length).bind fun _ =>
            h.call room paren paren' callee args) fun fuel => ?_)
      rw [hcore]
      rfl
  | set object name value =>
    obtain ⟨object', name', value', hcore, hobject, hname, hvalue⟩ := htwin
    have hset (id : Nat) : RunTwin T ρs
        (Eval.evaluate fuel room value >>= fun value =>
          Run.modify (·.setField id name.lexeme value) >>= fun _ => pure value)
        fun fuel => Eval.evaluate fuel room value' >>= fun value =>
          Run.modify (·.setField id name'.lexeme value) >>= fun _ => pure value := by
      rw [hname]
      exact (h.evaluate room hvalue).bind fun value =>
        (RunTwin.modify (fun _ _ _ hmachine => hmachine.setField id name.lexeme value)
          (fun _ => rfl) fun _ => rfl).bind fun _ => .pure value
    have hrun : RunTwin T ρs (Eval.evaluate (fuel + 1) room (.set object name value))
        fun fuel => Eval.evaluate (fuel + 1) room (.set object' name' value') := by
      refine (h.evaluate room hobject).bind fun object => ?_
      cases object with
      | «instance» id => exact hset id
      | _ => exact .fail name name' .noFields
    exact RunTwin.of_core expr' (hrun.succ fun fuel => by rw [hcore])

theorem evaluateArgs_succ (room : Nat) {args args' : List Expr}
    (htwin : argTwins T.toMatching ρs args args') :
    RunTwin T ρs (Eval.evaluateArgs (fuel + 1) room args)
      fun fuel => Eval.evaluateArgs fuel room args' := by
  cases args with
  | nil =>
    obtain rfl : args' = [] := htwin
    exact RunTwin.succ (.pure []) fun fuel => rfl
  | cons arg args =>
    obtain ⟨arg', args', rfl, harg, hargs⟩ := htwin
    exact RunTwin.succ ((h.evaluate room harg).bind fun value =>
      (h.evaluateArgs room hargs).bind fun values => .pure (value :: values)) fun fuel => rfl

theorem callInitializer_twin {names : Nat → Renaming} {machine machine' : Machine}
    (hmachine : Machine.Twin T names machine machine') (room id self : Nat) (args : List Value) :
    Follows T names machine (callInitializer fuel room id self args machine)
      fun fuel => callInitializer fuel room id self args machine' := by
  have hdone {names : Nat → Renaming} {after after' : Machine}
      (hafter : Machine.Twin T names after after') :
      Follows T names after (.done (Value.instance self) after)
        fun _ => .done (Value.instance self) after' :=
    .atom (.done (.refl names after.scopes) hafter rfl)
  have hmethod := hmachine.method? id "init"
  unfold callInitializer
  generalize machine.method? id "init" = method? at hmethod
  generalize machine'.method? id "init" = method?' at hmethod
  cases hmethod with
  | none => exact hdone hmachine
  | some hmethod =>
    obtain ⟨names', hwidens, hbound, hclosure⟩ := hmachine.bindThis hmethod (.instance self)
    refine Follows.since ?_ hwidens rfl
    exact (h.invoke room args hbound hclosure).bind fun _ _ hafter _ => hdone hafter

theorem callFunction_twin {names : Nat → Renaming} {machine machine' : Machine}
    (hmachine : Machine.Twin T names machine machine') (room : Nat) (args : List Value)
    {closure? closure?' : Option Closure}
    (hclosure : Option.Rel (Closure.Twin T [] names machine.scopes) closure? closure?') :
    Follows T names machine (callFunction fuel room closure? args machine)
      fun fuel => callFunction fuel room closure?' args machine' := by
  cases hclosure with
  | none => exact .atom .stuck
  | some hclosure => exact h.invoke room args hmachine hclosure

theorem call_succ (room : Nat) (paren paren' : Token) (callee : Value) (args : List Value) :
    RunTwin T ρs (Eval.call (fuel + 1) room paren callee args)
      fun fuel => Eval.call fuel room paren' callee args := by
  cases callee with
  | native f => exact RunTwin.succ (f.call_twin paren paren' args) fun fuel => rfl
  | function id =>
    intro names machine machine' hmachine hchained
    have hrun := h.callFunction_twin hmachine room args (hmachine.function? id)
    exact hrun.succ fun fuel => rfl
  | «class» id =>
    intro names machine machine' hmachine hchained
    have hrun :=
      h.callInitializer_twin (hmachine.newInstance id) room id machine.instances.size args
    refine Follows.succ ?_ fun fuel => call_class_eq fuel room paren' id args machine'
    rw [call_class_eq, hmachine.size_instances]
    exact hrun.since (.refl names machine.scopes) rfl
  | _ => exact RunTwin.succ .stuck fun fuel => rfl

theorem invoke_succ (room : Nat) {closure closure' : Closure} (args : List Value)
    {names : Nat → Renaming} {machine machine' : Machine}
    (hmachine : Machine.Twin T names machine machine')
    (hclosure : Closure.Twin T [] names machine.scopes closure closure') :
    Follows T names machine (Eval.invoke (fuel + 1) room closure args machine)
      fun fuel => Eval.invoke fuel room closure' args machine' := by
  obtain ⟨hscope, names', ρs, hwidens, hcurrent, hopened, hchained, hbody⟩ :=
    callScope_twin hmachine hclosure args
  have hrun : Follows T names' (callScope closure args machine).2
      ((Run.within (callScope closure args machine).1
        (Eval.executeAll fuel room closure.declaration.body) >>= callResult closure)
        (callScope closure args machine).2)
      fun fuel => (Run.within (callScope closure' args machine').1
        (Eval.executeAll fuel room closure'.declaration.body) >>= callResult closure')
        (callScope closure' args machine').2 := by
    refine Follows.bind ?_ fun completion hwidens' hafter _ =>
      .atom (callResult_twin hafter (hclosure.mono (hwidens.trans hwidens')) completion)
    rw [hscope]
    exact Follows.within hopened (h.executeAll room hbody names' _ _ (hopened.enter _) hchained)
  exact (hrun.since hwidens hcurrent).succ fun fuel => rfl

theorem execute_succ (room : Nat) {stmt stmt' : Stmt} (htwin : stmt.Twin T.toMatching ρs stmt') :
    RunTwin T ρs (Eval.execute (fuel + 1) room stmt) fun fuel => Eval.execute fuel room stmt' := by
  cases stmt with
  | expression value =>
    obtain ⟨value', rfl, hvalue⟩ := htwin
    exact RunTwin.succ ((h.evaluate room hvalue).bind fun _ => .pure Completion.normal)
      fun fuel => rfl
  | print value =>
    obtain ⟨value', rfl, hvalue⟩ := htwin
    exact RunTwin.succ ((h.evaluate room hvalue).bind fun value =>
      (printValue_twin value).bind fun _ => .pure Completion.normal) fun fuel => rfl
  | var name init =>
    obtain ⟨name', init', rfl, hname, hinit⟩ := htwin
    cases init with
    | none =>
      obtain rfl : init' = none := hinit
      exact RunTwin.succ ((declare_twin hname .nil).bind fun _ => .pure Completion.normal)
        fun fuel => rfl
    | some init =>
      obtain ⟨init', rfl, hinit⟩ := hinit
      exact RunTwin.succ ((h.evaluate room hinit).bind fun value =>
        (declare_twin hname value).bind fun _ => .pure Completion.normal) fun fuel => rfl
  | block body =>
    obtain ⟨body', ρ, rfl, hρ, hbody⟩ := htwin
    intro names machine machine' hmachine hchained
    have hnew := hmachine.newScope ρ machine.current
    have hinside := Forest.Renamed.chained_child hchained ρ
    have hrun : Follows T (extendNames names machine.scopes ρ) (machine.newScope machine.current).2
        (Run.within machine.scopes.next (Eval.executeAll fuel room body)
          (machine.newScope machine.current).2)
        fun fuel => Run.within machine.scopes.next (Eval.executeAll fuel room body')
          (machine'.newScope machine.current).2 :=
      Follows.within hnew (h.executeAll room hbody _ _ _ (hnew.enter _) hinside)
    have hwidens := Forest.Renamed.widens_child names machine.scopes ρ machine.current
    refine (hrun.since hwidens rfl).succ fun fuel => ?_
    rw [← hmachine.scopes.next, ← hmachine.current]
    rfl
  | ifElse condition yes no =>
    obtain ⟨condition', yes', no', rfl, hcondition, hyes, hno⟩ := htwin
    cases no with
    | none =>
      obtain rfl : no' = none := hno
      exact RunTwin.succ ((h.evaluate room hcondition).bind fun value =>
        .ite (h.execute room hyes) (.pure Completion.normal)) fun fuel => rfl
    | some no =>
      obtain ⟨no', rfl, hno⟩ := hno
      exact RunTwin.succ ((h.evaluate room hcondition).bind fun value =>
        .ite (h.execute room hyes) (h.execute room hno)) fun fuel => rfl
  | whileLoop condition body =>
    obtain ⟨condition', body', rfl, hcondition, hbody⟩ := htwin
    exact RunTwin.succ (h.repeatWhile room hcondition hbody) fun fuel => rfl
  | function declaration =>
    obtain ⟨declaration', rfl, hname, hdeclaration⟩ := htwin
    exact RunTwin.succ
      ((declareFunction_twin hname hdeclaration).bind fun _ => .pure Completion.normal)
      fun fuel => rfl
  | returns keyword value =>
    obtain ⟨keyword', value', rfl, hvalue⟩ := htwin
    cases value with
    | none =>
      obtain rfl : value' = none := hvalue
      exact RunTwin.succ (.pure (Completion.returned .nil)) fun fuel => rfl
    | some value =>
      obtain ⟨value', rfl, hvalue⟩ := hvalue
      exact RunTwin.succ
        ((h.evaluate room hvalue).bind fun value => .pure (Completion.returned value))
        fun fuel => rfl
  | classDef name superclass methods =>
    obtain ⟨name', superclass', methods', rfl, hname, hsuper, hmethods⟩ := htwin
    cases superclass with
    | none =>
      obtain rfl : superclass' = none := hsuper
      exact RunTwin.succ ((declareClass_twin hname none rfl hmethods).bind fun _ =>
        .pure Completion.normal) fun fuel => rfl
    | some superclass =>
      obtain ⟨superclass', rfl, hsuper⟩ := hsuper
      have href : (Expr.ref superclass).Twin T.toMatching ρs (.ref superclass') :=
        ⟨superclass', rfl, hsuper⟩
      exact RunTwin.succ ((h.evaluate room href).bind fun value =>
        (checkSuperclass_twin superclass superclass' value).bind fun above =>
          (declareClass_twin hname (some above) rfl hmethods).bind fun _ =>
            .pure Completion.normal) fun fuel => rfl

theorem executeAll_succ (room : Nat) {body body' : List Stmt}
    (htwin : stmtTwins T.toMatching ρs body body') :
    RunTwin T ρs (Eval.executeAll (fuel + 1) room body)
      fun fuel => Eval.executeAll fuel room body' := by
  cases body with
  | nil =>
    obtain rfl : body' = [] := htwin
    exact RunTwin.succ (.pure Completion.normal) fun fuel => rfl
  | cons stmt rest =>
    obtain ⟨stmt', rest', rfl, hstmt, hrest⟩ := htwin
    have hrun : RunTwin T ρs (Eval.executeAll (fuel + 1) room (stmt :: rest))
        fun fuel => Eval.executeAll (fuel + 1) room (stmt' :: rest') := by
      refine (h.execute room hstmt).bind fun completion => ?_
      cases completion with
      | normal => exact h.executeAll room hrest
      | returned value => exact .pure (Completion.returned value)
    exact hrun.succ fun fuel => rfl

theorem repeatWhile_succ (room : Nat) {condition condition' : Expr} {body body' : Stmt}
    (hcondition : condition.Twin T.toMatching ρs condition')
    (hbody : body.Twin T.toMatching ρs body') :
    RunTwin T ρs (Eval.repeatWhile (fuel + 1) room condition body)
      fun fuel => Eval.repeatWhile fuel room condition' body' := by
  have hrun : RunTwin T ρs (Eval.repeatWhile (fuel + 1) room condition body)
      fun fuel => Eval.repeatWhile (fuel + 1) room condition' body' := by
    refine (h.evaluate room hcondition).bind fun value => .ite ?_ (.pure Completion.normal)
    refine (h.execute room hbody).bind fun completion => ?_
    cases completion with
    | normal => exact h.repeatWhile room hcondition hbody
    | returned value => exact .pure (Completion.returned value)
  exact hrun.succ fun fuel => rfl

theorem succ : Simulates T (fuel + 1) where
  evaluate := h.evaluate_succ
  evaluateArgs := h.evaluateArgs_succ
  call := h.call_succ
  invoke := h.invoke_succ
  execute := h.execute_succ
  executeAll := h.executeAll_succ
  repeatWhile := h.repeatWhile_succ

end Simulates

theorem simulates (T : Twinning) : ∀ fuel, Simulates T fuel
  | 0 => .zero
  | fuel + 1 => (simulates T fuel).succ

end Moth
