import Moth.Eval.Evaluate
import Moth.Proofs.Store.Forest
/-!
# Classes

A method that is found belongs to a class of the chain that it is looked for in.  A class
declaration goes into a scope that binds `super` and comes back through the link of that scope.  The
link leads to the scope it was made in, so all happens as if the scope had only been made and the
methods put into it.
-/

namespace Moth

/-! ## Classes and their superclasses -/

/-- The second class is the first, or its superclass, or one above that. -/
inductive Inherits (classes : Array ClassEntry) : Nat → Nat → Prop where
  | refl (id : Nat) : Inherits classes id id
  | above {id above other : Nat} {entry : ClassEntry} : classes[id]? = some entry →
      entry.superclass = some above → Inherits classes above other → Inherits classes id other

theorem Inherits.trans {classes : Array ClassEntry} {id between other : Nat}
    (h : Inherits classes id between) (h' : Inherits classes between other) :
    Inherits classes id other := by
  induction h with
  | refl => exact h'
  | above hentry hsuperclass _ ih => exact .above hentry hsuperclass (ih h')

/-- A method that is found belongs to a class of the chain. -/
theorem inherits_of_methodWithin {classes : Array ClassEntry} {name : String} {method : Closure} :
    ∀ {steps id : Nat}, Machine.methodWithin classes name steps id = some method →
      ∃ owner entry, Inherits classes id owner ∧ classes[owner]? = some entry ∧
        entry.methods.find? name = some method
  | 0, id, h => by cases h
  | steps + 1, id, h => by
    unfold Machine.methodWithin at h
    split at h
    · cases h
    · next entry hentry =>
      split at h
      · next hfound =>
        cases h
        exact ⟨id, entry, .refl id, hentry, hfound⟩
      · split at h
        · next above habove =>
          obtain ⟨owner, found, hinherits, hrest⟩ := inherits_of_methodWithin h
          exact ⟨owner, found, .above hentry habove hinherits, hrest⟩
        · cases h

/-! ## Declaring classes -/

namespace Machine

def openSingle (machine : Machine) (outer : Nat) (name : String) (value : Value) : Machine :=
  (machine.newScope outer).2.define machine.scopes.next name value

variable (machine : Machine) (outer : Nat) (name : String) (value : Value)

theorem current_openSingle : (machine.openSingle outer name value).current = machine.current := rfl

theorem next_openSingle :
    (machine.openSingle outer name value).scopes.next = machine.scopes.next + 1 := by
  show ((machine.scopes.child outer).define _ name value).next = _
  rw [Forest.next_define, Forest.next_child]

theorem binds_openSingle {scope : Nat} {other : String}
    (h : (machine.scopes.bindings scope).binds other) :
    ((machine.openSingle outer name value).scopes.bindings scope).binds other := by
  show (((machine.scopes.child outer).define _ name value).bindings scope).binds other
  refine Forest.binds_define ?_ machine.scopes.next name value
  rwa [Forest.bindings_child]

end Machine

namespace Eval

def foundClass (scope : Nat) (name : Token) (superclass : Option Nat)
    (methods : List FunctionDecl) : Run Unit := do
  let id ← Run.make (·.newClass ⟨name.lexeme, superclass, methodTable scope methods⟩)
  nameClass name id

variable (name : Token) (methods : List FunctionDecl) (machine : Machine)

theorem declareClass_none :
    declareClass name none methods machine =
      foundClass machine.current name none methods
        (machine.define machine.current name.lexeme .nil) := rfl

/-- The scope that is left is the one just made, and its link leads back. -/
theorem declareClass_some (above : Nat) :
    declareClass name (some above) methods machine =
      foundClass (machine.define machine.current name.lexeme .nil).scopes.next name (some above)
        methods ((machine.define machine.current name.lexeme .nil).openSingle machine.current
          "super" (.class above)) := by
  have hlink : ((((machine.scopes.define machine.current name.lexeme .nil).child
      machine.current).define (machine.scopes.define machine.current name.lexeme .nil).next "super"
      (.class above)).enclosing? (machine.scopes.define machine.current name.lexeme .nil).next) =
      some machine.current := by
    rw [Forest.enclosing?_define, Forest.enclosing?_child, if_pos rfl]
  simp only [declareClass, foundClass, makeClass, enterSuper, leaveScope, declare, bind, Run.bind,
    Run.make, Run.modify, Machine.openSingle, Machine.define, Machine.newScope, Machine.newClass,
    hlink]

end Eval

end Moth
