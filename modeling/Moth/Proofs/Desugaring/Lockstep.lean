import Moth.Proofs.Desugaring.Steps
import Moth.Proofs.Twins.Simulation
/-!
# Trees that fit run side by side

The induction is on the fuel, of which both runs have the same.  A block, a call and a bound
method open paired scopes, so that the layers inside are known; what stands outside of a function
is in the layers that it was made in.
-/

namespace Moth

variable {J : Joint} {layers : List Layer}

open Eval

structure Lockstep (J : Joint) (fuel : Nat) : Prop where
  evaluate : ∀ {layers : List Layer} (room : Nat) {expr expr' : Expr}, expr.Fits J layers expr' →
    RunParallel J layers (evaluate fuel room expr) (evaluate fuel room expr')
  evaluateArgs : ∀ {layers : List Layer} (room : Nat) {args args' : List Expr},
    List.Forall₂ (Expr.Fits J layers) args args' →
    RunParallel J layers (evaluateArgs fuel room args) (evaluateArgs fuel room args')
  call : ∀ {layers : List Layer} (room : Nat) {paren paren' : Token}, paren.Alike paren' →
    ∀ (callee : Value) (args : List Value),
    RunParallel J layers (call fuel room paren callee args) (call fuel room paren' callee args)
  invoke : ∀ (room : Nat) {closure closure' : Closure} (args : List Value)
    {pairing : Nat → Nat → Prop} {machine other : Machine},
    Machine.Parallel J pairing machine other →
    Closure.Parallel J [] (machine.beside other pairing) closure closure' →
    (invoke fuel room closure args machine).Parallel J pairing machine other
      (invoke fuel room closure' args other)
  execute : ∀ {layers : List Layer} (room : Nat) {stmt stmt' : Stmt}, stmt.Fits J layers stmt' →
    RunParallel J layers (execute fuel room stmt) (execute fuel room stmt')
  executeAll : ∀ {layers : List Layer} (room : Nat) {body body' : List Stmt},
    StmtsFit J layers body body' →
    RunParallel J layers (executeAll fuel room body) (executeAll fuel room body')
  repeatWhile : ∀ {layers : List Layer} (room : Nat) {condition condition' : Expr}
    {body body' : Stmt}, condition.Fits J layers condition' → body.Fits J layers body' →
    RunParallel J layers (repeatWhile fuel room condition body)
      (repeatWhile fuel room condition' body')

theorem Lockstep.zero : Lockstep J 0 where
  evaluate _ _ _ _ := .outOfFuel
  evaluateArgs _ _ _ _ := .outOfFuel
  call _ _ _ _ _ _ := .outOfFuel
  invoke _ _ _ _ _ _ _ _ _ := .outOfFuel
  execute _ _ _ _ := .outOfFuel
  executeAll _ _ _ _ := .outOfFuel
  repeatWhile _ _ _ _ _ _ _ := .outOfFuel

namespace Lockstep

variable {fuel : Nat} (h : Lockstep J fuel)
include h

theorem evaluate_succ (room : Nat) {expr expr' : Expr} (hfits : expr.Fits J layers expr') :
    RunParallel J layers (Eval.evaluate (fuel + 1) room expr)
      (Eval.evaluate (fuel + 1) room expr') := by
  cases hfits with
  | literal value => exact .pure value.value
  | grouping hinner => exact h.evaluate room hinner
  | unary op hmark hright =>
    exact (h.evaluate room hright).bind fun value => .lift hmark (op.apply value)
  | binary op hmark hleft hright =>
    exact (h.evaluate room hleft).bind fun left => (h.evaluate room hright).bind fun right =>
      .lift hmark (op.apply left right)
  | logical op hmark hleft hright =>
    exact (h.evaluate room hleft).bind fun left => .ite (.pure left) (h.evaluate room hright)
  | ref hname => exact lookUp_parallel hname
  | assign hname hvalue =>
    exact (h.evaluate room hvalue).bind fun value =>
      (assign_parallel hname value).bind fun _ => .pure value
  | get hobject hname =>
    exact (h.evaluate room hobject).bind fun object => getProperty_parallel object hname
  | this hkeyword => exact lookUp_parallel hkeyword
  | super hkeyword hmethod => exact getSuper_parallel hkeyword hmethod
  | call hcallee hparen hargs =>
    cases room with
    | zero =>
      exact (h.evaluate 0 hcallee).bind fun callee => (h.evaluateArgs 0 hargs).bind fun args =>
        (checkCall_parallel hparen callee args.length).bind fun _ => .fail hparen .stackOverflow
    | succ room =>
      exact (h.evaluate (room + 1) hcallee).bind fun callee =>
        (h.evaluateArgs (room + 1) hargs).bind fun args =>
          (checkCall_parallel hparen callee args.length).bind fun _ =>
            h.call room hparen callee args
  | @set object object' value value' name name' hobject hname hvalue =>
    have hset (id : Nat) : RunParallel J layers
        (Eval.evaluate fuel room value >>= fun value =>
          Run.modify (·.setField id name.lexeme value) >>= fun _ => pure value)
        (Eval.evaluate fuel room value' >>= fun value =>
          Run.modify (·.setField id name'.lexeme value) >>= fun _ => pure value) := by
      rw [hname.lexeme]
      exact (h.evaluate room hvalue).bind fun value =>
        (RunParallel.modify (fun _ _ _ hmachine => hmachine.setField id name.lexeme value)
          (fun _ => rfl) fun _ => rfl).bind fun _ => .pure value
    refine (h.evaluate room hobject).bind fun object => ?_
    cases object with
    | «instance» id => exact hset id
    | _ => exact .fail hname .noFields

theorem evaluateArgs_succ (room : Nat) {args args' : List Expr}
    (hfits : List.Forall₂ (Expr.Fits J layers) args args') :
    RunParallel J layers (Eval.evaluateArgs (fuel + 1) room args)
      (Eval.evaluateArgs (fuel + 1) room args') := by
  cases hfits with
  | nil => exact .pure []
  | cons harg hargs =>
    exact (h.evaluate room harg).bind fun value =>
      (h.evaluateArgs room hargs).bind fun values => .pure (value :: values)

theorem callInitializer_parallel {pairing : Nat → Nat → Prop} {machine other : Machine}
    (hmachine : Machine.Parallel J pairing machine other) (room id self : Nat)
    (args : List Value) :
    (callInitializer fuel room id self args machine).Parallel J pairing machine other
      (callInitializer fuel room id self args other) := by
  have hmethod := hmachine.method? id "init"
  unfold callInitializer
  generalize machine.method? id "init" = method? at hmethod
  generalize other.method? id "init" = method?' at hmethod
  cases hmethod with
  | none => exact hmachine.done _
  | some hmethod =>
    obtain ⟨later, hwidens, hbound, hclosure⟩ := hmachine.bindThis hmethod (.instance self)
    refine Outcome.Parallel.since ?_ hwidens rfl rfl
    exact (h.invoke room args hbound hclosure).bind fun _ _ hafter _ _ => hafter.done _

theorem call_succ (room : Nat) {paren paren' : Token} (hparen : paren.Alike paren')
    (callee : Value) (args : List Value) :
    RunParallel J layers (Eval.call (fuel + 1) room paren callee args)
      (Eval.call (fuel + 1) room paren' callee args) := by
  cases callee with
  | native f => exact f.call_parallel hparen args
  | function id =>
    intro pairing machine other hmachine hchains
    have hclosure := hmachine.function? id
    show (callFunction fuel room machine.functions[id]? args machine).Parallel J pairing machine
      other (callFunction fuel room other.functions[id]? args other)
    generalize machine.functions[id]? = closure? at hclosure
    generalize other.functions[id]? = closure?' at hclosure
    cases hclosure with
    | none => exact .stuck
    | some hclosure => exact h.invoke room args hmachine hclosure
  | «class» id =>
    intro pairing machine other hmachine hchains
    rw [call_class_eq, call_class_eq, hmachine.instances]
    exact (h.callInitializer_parallel (hmachine.newInstance id) room id machine.instances.size
      args).since (.refl _) rfl rfl
  | _ => exact .stuck

theorem invoke_succ (room : Nat) {closure closure' : Closure} (args : List Value)
    {pairing : Nat → Nat → Prop} {machine other : Machine}
    (hmachine : Machine.Parallel J pairing machine other)
    (hclosure : Closure.Parallel J [] (machine.beside other pairing) closure closure') :
    (Eval.invoke (fuel + 1) room closure args machine).Parallel J pairing machine other
      (Eval.invoke (fuel + 1) room closure' args other) := by
  obtain ⟨later, layers, hwidens, hcurrent, hcurrent', hopened, hchains, hbody⟩ :=
    callScope_parallel hmachine hclosure args
  have hrun : ((Run.within (callScope closure args machine).1
      (Eval.executeAll fuel room closure.declaration.body) >>= callResult closure)
        (callScope closure args machine).2).Parallel J later (callScope closure args machine).2
      (callScope closure' args other).2
      ((Run.within (callScope closure' args other).1
        (Eval.executeAll fuel room closure'.declaration.body) >>= callResult closure')
        (callScope closure' args other).2) := by
    refine Outcome.Parallel.bind ?_ fun completion hwidens' hafter _ _ =>
      callResult_parallel hafter (hclosure.mono (hwidens.trans hwidens')) completion
    exact Outcome.Parallel.within
      (h.executeAll room hbody later _ _ (hopened.enter _ _) hchains)
  exact hrun.since hwidens hcurrent hcurrent'

/-- Statements in a new paired scope. -/
theorem block (room : Nat) {body body' : List Stmt}
    (hbody : StmtsFit J (.both :: layers) body body') :
    RunParallel J layers (Eval.execute (fuel + 1) room (.block body))
      (Eval.execute (fuel + 1) room (.block body')) := by
  intro pairing machine other hmachine hchains
  have hwidens := Beside.Widens.child (machine.beside other pairing) machine.current other.current
  have hnew := hmachine.withScopes (hmachine.scopes.child machine.current other.current) hwidens
  have hrun := Outcome.Parallel.within
    (h.executeAll room hbody _ _ _ (hnew.enter _ _) hchains.child)
  exact hrun.since hwidens rfl rfl

theorem execute_succ (room : Nat) {stmt stmt' : Stmt} (hfits : stmt.Fits J layers stmt') :
    RunParallel J layers (Eval.execute (fuel + 1) room stmt)
      (Eval.execute (fuel + 1) room stmt') := by
  cases hfits with
  | expression hvalue =>
    exact (h.evaluate room hvalue).bind fun _ => .pure Completion.normal
  | print hvalue =>
    exact (h.evaluate room hvalue).bind fun value =>
      (printValue_parallel value).bind fun _ => .pure Completion.normal
  | var hshared hname hinit =>
    cases hinit with
    | none => exact (declare_parallel hshared hname .nil).bind fun _ => .pure Completion.normal
    | some hinit =>
      exact (h.evaluate room hinit).bind fun value =>
        (declare_parallel hshared hname value).bind fun _ => .pure Completion.normal
  | block hbody => exact h.block room hbody
  | ifElse hcondition hyes hno =>
    cases hno with
    | none =>
      exact (h.evaluate room hcondition).bind fun value =>
        .ite (h.execute room hyes) (.pure Completion.normal)
    | some hno =>
      exact (h.evaluate room hcondition).bind fun value =>
        .ite (h.execute room hyes) (h.execute room hno)
  | whileLoop hcondition hbody => exact h.repeatWhile room hcondition hbody
  | function hshared hdeclaration =>
    exact (declareFunction_parallel hshared hdeclaration).bind fun _ => .pure Completion.normal
  | returns hvalue =>
    cases hvalue with
    | none => exact .pure (Completion.returned .nil)
    | some hvalue =>
      exact (h.evaluate room hvalue).bind fun value => .pure (Completion.returned value)
  | classDef hshared hname hsuper hmethods =>
    cases hsuper with
    | none =>
      exact (declareClass_parallel hshared hname none rfl hmethods).bind fun _ =>
        .pure Completion.normal
    | some hsuper =>
      exact (h.evaluate room (.ref hsuper)).bind fun value =>
        (checkSuperclass_parallel hsuper.alike value).bind fun above =>
          (declareClass_parallel hshared hname (some above) rfl hmethods).bind fun _ =>
            .pure Completion.normal

theorem executeAll_succ (room : Nat) {body body' : List Stmt}
    (hfits : StmtsFit J layers body body') :
    RunParallel J layers (Eval.executeAll (fuel + 1) room body)
      (Eval.executeAll (fuel + 1) room body') := by
  cases hfits with
  | nil => exact .pure Completion.normal
  | cons hfirst hrest =>
    refine (h.execute room hfirst).bind fun completion => ?_
    cases completion with
    | normal => exact h.executeAll room hrest
    | returned value => exact .pure (Completion.returned value)

theorem repeatWhile_succ (room : Nat) {condition condition' : Expr} {body body' : Stmt}
    (hcondition : condition.Fits J layers condition') (hbody : body.Fits J layers body') :
    RunParallel J layers (Eval.repeatWhile (fuel + 1) room condition body)
      (Eval.repeatWhile (fuel + 1) room condition' body') := by
  refine (h.evaluate room hcondition).bind fun value => .ite ?_ (.pure Completion.normal)
  refine (h.execute room hbody).bind fun completion => ?_
  cases completion with
  | normal => exact h.repeatWhile room hcondition hbody
  | returned value => exact .pure (Completion.returned value)

theorem succ : Lockstep J (fuel + 1) where
  evaluate := h.evaluate_succ
  evaluateArgs := h.evaluateArgs_succ
  call := h.call_succ
  invoke := h.invoke_succ
  execute := h.execute_succ
  executeAll := h.executeAll_succ
  repeatWhile := h.repeatWhile_succ

end Lockstep

theorem lockstep (J : Joint) : ∀ fuel, Lockstep J fuel
  | 0 => .zero
  | fuel + 1 => (lockstep J fuel).succ

end Moth
