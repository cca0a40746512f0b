import Moth.Eval.Machine
/-!
# Runs

A run takes a machine some way on.  It ends with a value, with a failure at a
token, stuck because a scope or binding that the program text promises is missing,
or for want of fuel.
-/

namespace Moth

structure Failure where
  token : Token
  fault : RuntimeFault

inductive Outcome (α : Type) where
  | done (value : α) (machine : Machine)
  | failed (failure : Failure) (machine : Machine)
  | stuck (machine : Machine)
  | outOfFuel

def Run (α : Type) : Type := Machine → Outcome α

namespace Run

@[inline] protected def pure {α : Type} (value : α) : Run α := fun machine =>
  .done value machine

@[inline] protected def bind {α β : Type} (first : Run α) (next : α → Run β) : Run β :=
  fun machine =>
    match first machine with
    | .done value machine => next value machine
    | .failed failure machine => .failed failure machine
    | .stuck machine => .stuck machine
    | .outOfFuel => .outOfFuel

instance : Monad Run where
  pure := Run.pure
  bind := Run.bind

def outOfFuel {α : Type} : Run α := fun _ => .outOfFuel

def stuck {α : Type} : Run α := fun machine => .stuck machine

def fail {α : Type} (token : Token) (fault : RuntimeFault) : Run α := fun machine =>
  .failed ⟨token, fault⟩ machine

@[inline] def get : Run Machine := fun machine => .done machine machine

@[inline] def modify (change : Machine → Machine) : Run Unit := fun machine =>
  .done () (change machine)

@[inline] def make {α : Type} (change : Machine → α × Machine) : Run α := fun machine =>
  let (value, machine) := change machine
  .done value machine

def lift {α : Type} (token : Token) (result : Except RuntimeFault α) : Run α :=
  match result with
  | .ok value => pure value
  | .error fault => fail token fault

/-- Runs in another scope, and comes back to the current one however it ends. -/
@[inline] def within {α : Type} (scope : Nat) (body : Run α) : Run α := fun machine =>
  let previous := machine.current
  match body { machine with current := scope } with
  | .done value machine => .done value { machine with current := previous }
  | .failed failure machine => .failed failure { machine with current := previous }
  | .stuck machine => .stuck { machine with current := previous }
  | .outOfFuel => .outOfFuel

end Run

end Moth
