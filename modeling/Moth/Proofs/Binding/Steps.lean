import Moth.Proofs.Binding.Evolution
import Moth.Proofs.Execution.Classes
import Moth.Proofs.Execution.Natives
/-!
# Steps that proceed

No step of the evaluator loses anything that was made, whatever machine it is taken from, as
long as the names that it binds are plain.  Each comes back to the scope it was taken in.
-/

namespace Moth

open Eval

def Outcome.Proceeds {α : Type} (seen : Task → Machine → Prop) (start : Machine) :
    Outcome α → Prop
  | .done _ after | .failed _ after | .stuck after =>
    start.Proceeds seen after ∧ after.current = start.current
  | .outOfFuel => True

namespace Eval

variable {seen : Task → Machine → Prop} {machine : Machine}

/-! ## Variables and functions -/

theorem lookUp_proceeds (name : Token) : (lookUp name machine).Proceeds seen machine := by
  unfold lookUp
  split
  · split <;> exact ⟨.refl machine, rfl⟩
  · split <;> exact ⟨.refl machine, rfl⟩

theorem define_proceeds {name : String} (h : IsPlain name) (scope : Nat) (value : Value) :
    machine.Proceeds seen (machine.define scope name value) :=
  .of_evolves ((Machine.Evolves.refl machine).define (.inl h) value) rfl rfl

theorem assign_proceeds {name : Token} (h : IsPlain name.lexeme) (value : Value) :
    (assign name value machine).Proceeds seen machine := by
  unfold assign
  split
  · split
    · exact ⟨define_proceeds h _ value, rfl⟩
    · exact ⟨.refl machine, rfl⟩
  · split
    · exact ⟨define_proceeds h _ value, rfl⟩
    · exact ⟨.refl machine, rfl⟩

theorem declare_proceeds {name : Token} (h : IsPlain name.lexeme) (value : Value) :
    (declare name value machine).Proceeds seen machine :=
  ⟨define_proceeds h _ value, rfl⟩

theorem declareFunction_proceeds {declaration : FunctionDecl}
    (hplain : IsPlain declaration.name.lexeme) (hcurrent : machine.Plain machine.current) :
    (declareFunction declaration machine).Proceeds seen machine :=
  ⟨(Machine.Proceeds.newFunction (.plain hcurrent)).trans (define_proceeds hplain _ _), rfl⟩

/-! ## Methods -/

theorem bindThis_evolves (method : Closure) (self : Value) :
    machine.Evolves (machine.bindThis method self).2 :=
  ((Machine.Evolves.refl machine).newScope method.scope).define (.inr (Nat.le_refl _)) self

theorem bindThis_proceeds (method : Closure) (self : Value) :
    machine.Proceeds seen (machine.bindThis method self).2 :=
  .of_evolves (bindThis_evolves method self) rfl rfl

/-- The scope that binds `this` is the newest. -/
theorem scope_lt_bindThis (method : Closure) (self : Value) :
    (machine.bindThis method self).1.scope < (machine.bindThis method self).2.scopes.next := by
  show machine.scopes.next < ((machine.scopes.child method.scope).define _ "this" self).next
  rw [Forest.next_define, Forest.next_child]
  exact Nat.lt_succ_self _

theorem bindMethod_proceeds {task : Task} {method : Closure} {self : Value}
    (hseen : seen task machine)
    (hbinds : BindsMethod task machine method (machine.bindThis method self).1.scope) :
    (bindMethod method self machine).Proceeds seen machine :=
  ⟨(bindThis_proceeds method self).trans
    (.newFunction (.bound hseen hbinds rfl rfl (scope_lt_bindThis method self))), rfl⟩

theorem getProperty_proceeds {object : Value} {name : Token}
    (hseen : seen (.property object name) machine) :
    (getProperty object name machine).Proceeds seen machine := by
  cases object with
  | «instance» id =>
    unfold getProperty
    dsimp only
    split
    · exact ⟨.refl machine, rfl⟩
    · next entry hentry =>
      split
      · exact ⟨.refl machine, rfl⟩
      · next hfield =>
        split
        · next method hmethod =>
          exact bindMethod_proceeds hseen (.property hentry hfield hmethod)
        · exact ⟨.refl machine, rfl⟩
  | _ => exact ⟨.refl machine, rfl⟩

theorem getSuper_proceeds {room : Nat} {keyword name : Token}
    (hseen : seen (.expr room (.super keyword name)) machine) :
    (getSuper keyword name machine).Proceeds seen machine := by
  unfold getSuper
  split
  · exact ⟨.refl machine, rfl⟩
  · next hops hhops =>
    split
    · next superclass self hsuper hthis =>
      split
      · next method hmethod =>
        exact bindMethod_proceeds hseen (.super hhops hsuper hthis hmethod)
      · exact ⟨.refl machine, rfl⟩
    · exact ⟨.refl machine, rfl⟩

/-! ## Classes -/

end Eval

/-- The machine when a class declaration has made its class, which is not bound to its name
yet. -/
def Machine.founded (machine : Machine) (name : Token) (superclass : Option Nat)
    (methods : List FunctionDecl) : Machine :=
  let begun := machine.define machine.current name.lexeme .nil
  let enclosed := match superclass with
    | none => begun
    | some above =>
      (begun.newScope machine.current).2.define machine.scopes.next "super" (.class above)
  (enclosed.newClass (machine.classEntry name superclass methods)).2

namespace Eval

variable {seen : Task → Machine → Prop} {machine : Machine}

theorem founded_proceeds {name : Token} {superclass : Option Nat} {methods : List FunctionDecl}
    (hseen : seen (.classDef name superclass methods) machine) (hplain : IsPlain name.lexeme) :
    machine.Proceeds seen (machine.founded name superclass methods) := by
  have hbegun : machine.Evolves (machine.define machine.current name.lexeme .nil) :=
    (Machine.Evolves.refl machine).define (.inl hplain) .nil
  cases superclass with
  | none => exact (Machine.Proceeds.of_evolves hbegun rfl rfl).trans (.newClass hseen rfl)
  | some above =>
    have hnew : IsPlain "super" ∨ machine.scopes.next ≤ machine.scopes.next :=
      .inr (Nat.le_refl _)
    have henclosed := (hbegun.newScope machine.current).define hnew (.class above)
    exact (Machine.Proceeds.of_evolves henclosed rfl rfl).trans (.newClass hseen rfl)

/-- What a class declaration does after it has made its class. -/
theorem declareClass_eq (name : Token) (superclass : Option Nat) (methods : List FunctionDecl) :
    let founded := machine.founded name superclass methods
    declareClass name superclass methods machine =
      match founded.scopes.holder? machine.current name.lexeme with
      | some found => .done () (founded.define found name.lexeme (.class machine.classes.size))
      | none => .failed ⟨name, .undefinedVariable name.lexeme⟩ founded := by
  cases superclass with
  | none => rfl
  | some above =>
    have hnext := machine.scopes.next_define machine.current name.lexeme .nil
    simp only [declareClass_some, foundClass, Machine.founded, Machine.classEntry, ← hnext]
    rfl

theorem declareClass_proceeds {name : Token} {superclass : Option Nat}
    {methods : List FunctionDecl} (hseen : seen (.classDef name superclass methods) machine)
    (hplain : IsPlain name.lexeme) :
    (declareClass name superclass methods machine).Proceeds seen machine := by
  have hfounded := founded_proceeds hseen hplain
  have hcurrent : (machine.founded name superclass methods).current = machine.current := by
    cases superclass <;> rfl
  rw [declareClass_eq]
  split
  · exact ⟨hfounded.trans (define_proceeds hplain _ _), hcurrent⟩
  · exact ⟨hfounded, hcurrent⟩

/-! ## Calls -/

theorem plain_newScope (outer : Nat) :
    (machine.newScope outer).2.Plain machine.scopes.next := by
  refine ⟨?_, fun name _ => ?_⟩
  · rw [Machine.newScope, Forest.next_child]
    exact Nat.lt_succ_self _
  · rw [Machine.newScope, Forest.bindings_child, Forest.bindings_next]
    rfl

theorem newScope_proceeds (outer : Nat) : machine.Proceeds seen (machine.newScope outer).2 :=
  .of_evolves ((Machine.Evolves.refl machine).newScope outer) rfl rfl

theorem bindParams_proceeds {scope : Nat} {pairs : List (Token × Value)}
    (h : ∀ pair ∈ pairs, IsPlain pair.1.lexeme) (machine : Machine) :
    let after := pairs.foldl (fun machine (param, arg) =>
      machine.define scope param.lexeme arg) machine
    machine.Proceeds seen after ∧ after.current = machine.current := by
  induction pairs generalizing machine with
  | nil => exact ⟨.refl machine, rfl⟩
  | cons pair pairs ih =>
    obtain ⟨hpair, hpairs⟩ := List.forall_mem_cons.1 h
    obtain ⟨hproceeds, hcurrent⟩ := ih hpairs (machine.define scope pair.1.lexeme pair.2)
    exact ⟨(define_proceeds hpair scope pair.2).trans hproceeds, hcurrent⟩

/-- The scope of a call is new, plain, and stands in the scope of the function. -/
theorem callScope_proceeds {closure : Closure}
    (h : ∀ param ∈ closure.declaration.params, IsPlain param.lexeme) (args : List Value) :
    (machine.newScope closure.scope).2.Proceeds seen (callScope closure args machine).2 ∧
      (callScope closure args machine).2.current = machine.current :=
  bindParams_proceeds (fun pair hpair => h pair.1 (List.of_mem_zip hpair).1) _

theorem closureOf_proceeds (id : Nat) : (closureOf id machine).Proceeds seen machine := by
  unfold closureOf
  split <;> exact ⟨.refl machine, rfl⟩

theorem checkCall_proceeds (paren : Token) (callee : Value) (count : Nat) :
    (checkCall paren callee count machine).Proceeds seen machine := by
  unfold checkCall
  split
  · exact ⟨.refl machine, rfl⟩
  · split <;> exact ⟨.refl machine, rfl⟩

theorem callResult_proceeds (closure : Closure) (completion : Completion) :
    (callResult closure completion machine).Proceeds seen machine := by
  unfold callResult
  split
  · split <;> exact ⟨.refl machine, rfl⟩
  · split <;> exact ⟨.refl machine, rfl⟩

/-! ## Natives and operators -/

theorem lift_proceeds {α : Type} (token : Token) (result : Except RuntimeFault α) :
    (Run.lift token result machine).Proceeds seen machine := by
  cases result <;> exact ⟨.refl machine, rfl⟩

theorem checkSuperclass_proceeds (token : Token) (value : Value) :
    (checkSuperclass token value machine).Proceeds seen machine := by
  cases value <;> exact ⟨.refl machine, rfl⟩

theorem printValue_proceeds (value : Value) : (printValue value machine).Proceeds seen machine :=
  ⟨.aside rfl rfl rfl rfl, rfl⟩

theorem native_proceeds (f : Native) (paren : Token) (args : List Value) :
    (f.call paren args machine).Proceeds seen machine := by
  obtain ⟨answer, -, hanswer⟩ := f.exists_answer machine.sources args
  rw [hanswer paren machine rfl]
  cases answer with
  | gives value text rest => exact ⟨.aside rfl rfl rfl rfl, rfl⟩
  | fails | stuck => exact ⟨.refl machine, rfl⟩

end Eval

end Moth
