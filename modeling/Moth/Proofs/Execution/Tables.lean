import Mathlib.Data.List.Forall2
import Moth.Eval.Evaluate
import Moth.Proofs.Execution.Natives
import Moth.Proofs.Store.Bindings
/-!
# Machines with corresponding tables

Two machines may have their functions, classes and instances under the same numbers, so that equal
values stand for one another.  A relation says which functions correspond, and another one which
methods do, before they are bound.
-/

namespace Moth

open Eval

/-- Entries of the two tables under one number. -/
theorem Array.rel_getElem? {α β : Type} {R : α → β → Prop} {xs : Array α} {ys : Array β}
    (h : List.Forall₂ R xs.toList ys.toList) (i : Nat) : Option.Rel R xs[i]? ys[i]? := by
  have hrel : ∀ {as : List α} {bs : List β}, List.Forall₂ R as bs → ∀ i : Nat,
      Option.Rel R as[i]? bs[i]? := by
    intro as bs has
    induction has with
    | nil => exact fun i => by simp
    | cons hhead _ ih =>
      intro i
      cases i with
      | zero => exact .some hhead
      | succ i => exact ih i
  simpa using hrel h i

def MethodsLike (M : Closure → Closure → Prop) (methods others : Bindings Closure) : Prop :=
  ∀ name, Option.Rel M (methods.find? name) (others.find? name)

structure ClassEntry.Like (M : Closure → Closure → Prop) (entry other : ClassEntry) : Prop where
  name : other.name = entry.name
  superclass : other.superclass = entry.superclass
  methods : MethodsLike M entry.methods other.methods

structure Machine.Tables (F M : Closure → Closure → Prop) (machine other : Machine) : Prop where
  functions : List.Forall₂ F machine.functions.toList other.functions.toList
  classes : List.Forall₂ (ClassEntry.Like M) machine.classes.toList other.classes.toList
  instances : other.instances = machine.instances
  sources : other.sources = machine.sources

section

variable {M N : Closure → Closure → Prop}

theorem ClassEntry.Like.imp {entry other : ClassEntry} (h : entry.Like M other)
    (himp : ∀ closure closure', M closure closure' → N closure closure') : entry.Like N other := by
  refine ⟨h.name, h.superclass, fun name => ?_⟩
  have hmethod := h.methods name
  generalize entry.methods.find? name = found at hmethod
  generalize other.methods.find? name = found' at hmethod
  cases hmethod with
  | none => exact .none
  | some hmethod => exact .some (himp _ _ hmethod)

theorem ClassEntry.Like.flip {entry other : ClassEntry} (h : entry.Like M other) :
    other.Like (fun closure closure' => M closure' closure) entry := by
  refine ⟨h.name.symm, h.superclass.symm, fun name => ?_⟩
  have hmethod := h.methods name
  generalize entry.methods.find? name = found at hmethod
  generalize other.methods.find? name = found' at hmethod
  cases hmethod with
  | none => exact .none
  | some hmethod => exact .some hmethod

/-- The methods go into the tables one after the other. -/
theorem methodsLike_methodTable {scope scope' : Nat} {methods methods' : List FunctionDecl}
    (h : List.Forall₂ (fun method method' => method'.name.lexeme = method.name.lexeme ∧
      ∀ isInitializer, M ⟨method, scope, isInitializer⟩ ⟨method', scope', isInitializer⟩)
      methods methods') :
    MethodsLike M (methodTable scope methods) (methodTable scope' methods') := by
  have hnil : MethodsLike M [] [] := fun _ => .none
  refine List.rel_foldl (P := MethodsLike M) ?_ hnil h
  intro table table' htable method method' hmethod name
  simp only [hmethod.1, Bindings.find?_set]
  split
  · exact .some (hmethod.2 _)
  · exact htable name

end

namespace Machine.Tables

variable {F M : Closure → Closure → Prop} {machine other : Machine}

theorem input (h : machine.Tables F M other) : other.input = machine.input :=
  congrArg (·.input) h.sources

theorem size_functions (h : machine.Tables F M other) :
    other.functions.size = machine.functions.size := by
  simpa using h.functions.length_eq.symm

theorem size_classes (h : machine.Tables F M other) :
    other.classes.size = machine.classes.size := by
  simpa using h.classes.length_eq.symm

theorem function? (h : machine.Tables F M other) (id : Nat) :
    Option.Rel F machine.functions[id]? other.functions[id]? :=
  Array.rel_getElem? h.functions id

theorem class? (h : machine.Tables F M other) (id : Nat) :
    Option.Rel (ClassEntry.Like M) machine.classes[id]? other.classes[id]? :=
  Array.rel_getElem? h.classes id

theorem methodWithin (h : machine.Tables F M other) (name : String) (steps id : Nat) :
    Option.Rel M (Machine.methodWithin machine.classes name steps id)
      (Machine.methodWithin other.classes name steps id) := by
  induction steps generalizing id with
  | zero => exact .none
  | succ steps ih =>
    rw [Machine.methodWithin, Machine.methodWithin]
    have hentry := h.class? id
    generalize machine.classes[id]? = entry? at hentry
    generalize other.classes[id]? = entry?' at hentry
    cases hentry with
    | none => exact .none
    | @some entry entry' hentry =>
      have hfound := hentry.methods name
      simp only [hentry.superclass]
      generalize entry.methods.find? name = found at hfound
      generalize entry'.methods.find? name = found' at hfound
      cases hfound with
      | some hmethod => exact .some hmethod
      | none =>
        cases entry.superclass with
        | none => exact .none
        | some above => exact ih above

theorem method? (h : machine.Tables F M other) (id : Nat) (name : String) :
    Option.Rel M (machine.method? id name) (other.method? id name) := by
  rw [Machine.method?, Machine.method?, h.size_classes]
  exact h.methodWithin name _ id

theorem className (h : machine.Tables F M other) (id : Nat) :
    other.className id = machine.className id := by
  have hentry := h.class? id
  rw [Machine.className, Machine.className]
  generalize machine.classes[id]? = entry? at hentry
  generalize other.classes[id]? = entry?' at hentry
  cases hentry with
  | none => rfl
  | some hentry => exact hentry.name

/-- A value is shown alike if functions that correspond have the same name. -/
theorem display_eq (h : machine.Tables F M other)
    (hname : ∀ {closure closure' : Closure}, F closure closure' →
      closure'.declaration.name.lexeme = closure.declaration.name.lexeme) (value : Value) :
    other.display value = machine.display value := by
  cases value with
  | function id =>
    have hclosure := h.function? id
    simp only [Machine.display]
    generalize machine.functions[id]? = closure? at hclosure
    generalize other.functions[id]? = closure?' at hclosure
    cases hclosure with
    | none => rfl
    | some hclosure => simp only [Option.elim_some, hname hclosure]
  | «class» id => exact h.className id
  | «instance» id => simp only [Machine.display, h.instances, h.className]
  | _ => rfl

/-- A value takes as many arguments if functions and methods that correspond do. -/
theorem arity?_eq (h : machine.Tables F M other)
    (harity : ∀ {closure closure' : Closure}, F closure closure' ∨ M closure closure' →
      closure'.declaration.params.length = closure.declaration.params.length) (callee : Value) :
    arity? other callee = arity? machine callee := by
  cases callee with
  | function id =>
    have hclosure := h.function? id
    simp only [arity?]
    generalize machine.functions[id]? = closure? at hclosure
    generalize other.functions[id]? = closure?' at hclosure
    cases hclosure with
    | none => rfl
    | some hclosure => simp only [Option.map_some, harity (.inl hclosure)]
  | «class» id =>
    have hmethod := h.method? id "init"
    simp only [arity?]
    generalize machine.method? id "init" = method? at hmethod
    generalize other.method? id "init" = method?' at hmethod
    cases hmethod with
    | none => rfl
    | some hmethod => simp only [Option.elim_some, harity (.inr hmethod)]
  | _ => rfl

theorem newFunction (h : machine.Tables F M other) {closure closure' : Closure}
    (hclosure : F closure closure') :
    (machine.newFunction closure).2.Tables F M (other.newFunction closure').2 :=
  { h with
    functions := by
      simpa [Machine.newFunction] using List.rel_append h.functions (.cons hclosure .nil) }

theorem newClass (h : machine.Tables F M other) {entry entry' : ClassEntry}
    (hentry : entry.Like M entry') :
    (machine.newClass entry).2.Tables F M (other.newClass entry').2 :=
  { h with
    classes := by
      simpa [Machine.newClass] using List.rel_append h.classes (.cons hentry .nil) }

theorem newInstance (h : machine.Tables F M other) (classId : Nat) :
    (machine.newInstance classId).2.Tables F M (other.newInstance classId).2 :=
  { h with instances := congrArg (·.push ⟨classId, []⟩) h.instances }

theorem setField (h : machine.Tables F M other) (id : Nat) (name : String) (value : Value) :
    (machine.setField id name value).Tables F M (other.setField id name value) :=
  { h with instances := by simp only [Machine.setField, h.instances] }

end Machine.Tables

end Moth
