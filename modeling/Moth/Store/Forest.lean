import Moth.Store.Bindings
import Moth.Text.Quoted
/-!
# Forests of scopes

Scopes at run time.  A scope has bindings of its own and may be enclosed in another,
and is known by its number in the order of creation.  Names are found by searching
outward (`get`, `assign`) or at a known distance (`getAt`, `assignAt`).
-/

namespace Moth

structure Scope (α : Type) where
  bindings : Bindings α
  enclosing : Option Nat

structure Forest (α : Type) where
  scopes : Array (Scope α)

inductive ScopeError where
  /-- There is no scope at that distance. -/
  | noScope
  /-- The scope at that distance does not bind the name. -/
  | unbound (name : String)
  /-- No scope of the chain binds the name. -/
  | undefined (name : String)
deriving DecidableEq, Repr

namespace Forest

variable {α : Type}

def single : Forest α := ⟨#[⟨[], none⟩]⟩

/-- The bindings of a scope; a number that no scope has stands for no bindings. -/
def bindings (forest : Forest α) (scope : Nat) : Bindings α :=
  match forest.scopes[scope]? with
  | some found => found.bindings
  | none => []

def enclosing? (forest : Forest α) (scope : Nat) : Option Nat :=
  match forest.scopes[scope]? with
  | some found => found.enclosing
  | none => none

def next (forest : Forest α) : Nat := forest.scopes.size

def child (forest : Forest α) (scope : Nat) : Forest α :=
  ⟨forest.scopes.push ⟨[], some scope⟩⟩

/-- Binds a name in the very scope. -/
def define (forest : Forest α) (scope : Nat) (name : String) (value : α) : Forest α :=
  ⟨forest.scopes.modify scope fun found =>
    { found with bindings := found.bindings.set name value }⟩

/-- The first scope of a chain that binds a name, within a number of steps. -/
def holderWithin (forest : Forest α) (name : String) : Nat → Nat → Option Nat
  | 0, _ => none
  | steps + 1, scope =>
    if (forest.bindings scope).binds name then some scope
    else
      match forest.enclosing? scope with
      | some outer => holderWithin forest name steps outer
      | none => none

/-- The first scope that binds a name, from `scope` outward.  A chain is no longer
than there are scopes. -/
def holder? (forest : Forest α) (scope : Nat) (name : String) : Option Nat :=
  forest.holderWithin name forest.scopes.size scope

def get (forest : Forest α) (scope : Nat) (name : String) : Except ScopeError α :=
  match (forest.holder? scope name).bind fun holder => (forest.bindings holder).find? name with
  | some value => .ok value
  | none => .error (.undefined name)

/-- Changes the binding of a name that is seen from a scope. -/
def assign (forest : Forest α) (scope : Nat) (name : String) (value : α) :
    Except ScopeError (Forest α) :=
  match forest.holder? scope name with
  | some holder => .ok (forest.define holder name value)
  | none => .error (.undefined name)

/-- The scope a number of steps outward.  One step past the outermost scope there is
none, and from there no further step. -/
def ancestor (forest : Forest α) : Nat → Nat → Except ScopeError (Option Nat)
  | 0, scope => .ok (some scope)
  | depth + 1, scope =>
    match forest.enclosing? scope with
    | some outer => ancestor forest depth outer
    | none => if depth = 0 then .ok none else .error .noScope

def getAt (forest : Forest α) (scope depth : Nat) (name : String) : Except ScopeError α :=
  match forest.ancestor depth scope with
  | .ok (some found) =>
    match (forest.bindings found).find? name with
    | some value => .ok value
    | none => .error (.unbound name)
  | .ok none => .error .noScope
  | .error cause => .error cause

/-- Binds a name in the scope at a distance, whether it was bound there or not. -/
def assignAt (forest : Forest α) (scope depth : Nat) (name : String) (value : α) :
    Except ScopeError (Forest α) :=
  match forest.ancestor depth scope with
  | .ok (some found) => .ok (forest.define found name value)
  | .ok none => .error .noScope
  | .error cause => .error cause

def sketch (forest : Forest α) (scope : Nat) : String :=
  let names := (forest.bindings scope).sorted.names
  let mark := if (forest.enclosing? scope).isSome then " ^" else ""
  "<env [" ++ ", ".intercalate (names.map Text.quoted) ++ "]" ++ mark ++ ">"

end Forest

end Moth
