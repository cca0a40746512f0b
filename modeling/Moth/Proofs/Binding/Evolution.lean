import Moth.Proofs.Scoping.Activations
/-!
# How machines evolve

A running program makes scopes, functions, classes and instances, and what it has made stays:
links between scopes never change, nor do the bindings of `this` and `super`, the classes, and
the classes of instances.

`Machine.Traced` says where the classes and the functions of a machine come from.  It is kept by
a step that makes nothing but what the task at hand accounts for.
-/

namespace Moth

open Eval

namespace Machine

structure Evolves (older newer : Machine) : Prop where
  next : older.scopes.next ≤ newer.scopes.next
  enclosing : ∀ scope < older.scopes.next,
    newer.scopes.enclosing? scope = older.scopes.enclosing? scope
  reserved : ∀ scope < older.scopes.next, ∀ name, ¬ IsPlain name →
    (newer.scopes.bindings scope).find? name = (older.scopes.bindings scope).find? name
  classes : ∀ (id : Nat) (entry : ClassEntry), older.classes[id]? = some entry →
    newer.classes[id]? = some entry
  instances : ∀ (id : Nat) (entry : InstanceEntry), older.instances[id]? = some entry →
    ∃ changed, newer.instances[id]? = some changed ∧ changed.classId = entry.classId

namespace Evolves

variable {oldest older newer machine : Machine}

theorem refl (machine : Machine) : machine.Evolves machine :=
  ⟨Nat.le_refl _, fun _ _ => rfl, fun _ _ _ _ => rfl, fun _ _ h => h,
    fun _ entry h => ⟨entry, h, rfl⟩⟩

theorem trans (h : oldest.Evolves older) (h' : older.Evolves newer) : oldest.Evolves newer where
  next := Nat.le_trans h.next h'.next
  enclosing scope hscope := by
    rw [h'.enclosing scope (Nat.lt_of_lt_of_le hscope h.next), h.enclosing scope hscope]
  reserved scope hscope name hname := by
    rw [h'.reserved scope (Nat.lt_of_lt_of_le hscope h.next) name hname,
      h.reserved scope hscope name hname]
  classes id entry hentry := h'.classes id entry (h.classes id entry hentry)
  instances id entry hentry := by
    obtain ⟨changed, hchanged, hclass⟩ := h.instances id entry hentry
    obtain ⟨last, hlast, hsame⟩ := h'.instances id changed hchanged
    exact ⟨last, hlast, hsame.trans hclass⟩

/-- Nothing that is made changes. -/
theorem aside (hscopes : newer.scopes = machine.scopes) (hclasses : newer.classes = machine.classes)
    (hinstances : newer.instances = machine.instances) : machine.Evolves newer where
  next := Nat.le_of_eq (by rw [hscopes])
  enclosing _ _ := by rw [hscopes]
  reserved _ _ _ _ := by rw [hscopes]
  classes _ _ h := by rwa [hclasses]
  instances _ entry h := ⟨entry, by rwa [hinstances], rfl⟩

/-- Names other than `this` and `super` may be bound anywhere, and these two where there was no
scope before. -/
theorem define (h : older.Evolves machine) {scope : Nat} {name : String}
    (hname : IsPlain name ∨ older.scopes.next ≤ scope) (value : Value) :
    older.Evolves (machine.define scope name value) where
  next := by
    rw [Machine.define, Forest.next_define]
    exact h.next
  enclosing other hother := by
    rw [Machine.define, Forest.enclosing?_define, h.enclosing other hother]
  reserved other hother reserved hreserved := by
    rw [← h.reserved other hother reserved hreserved]
    rcases hname with hplain | hnew
    · have hne : name ≠ reserved := fun heq => hreserved (heq ▸ hplain)
      exact Forest.find?_define_of_ne hne scope value other
    · rw [Machine.define, Forest.bindings_define, if_neg fun hsame => by omega]
  classes := h.classes
  instances := h.instances

theorem newScope (h : older.Evolves machine) (enclosing : Nat) :
    older.Evolves (machine.newScope enclosing).2 where
  next := by
    rw [Machine.newScope, Forest.next_child]
    exact Nat.le_succ_of_le h.next
  enclosing other hother := by
    have hne : other ≠ machine.scopes.next := Nat.ne_of_lt (Nat.lt_of_lt_of_le hother h.next)
    rw [Machine.newScope, Forest.enclosing?_child, if_neg hne, h.enclosing other hother]
  reserved other hother reserved hreserved := by
    rw [Machine.newScope, Forest.bindings_child, h.reserved other hother reserved hreserved]
  classes := h.classes
  instances := h.instances

theorem newClass (machine : Machine) (entry : ClassEntry) :
    machine.Evolves (machine.newClass entry).2 where
  next := Nat.le_refl _
  enclosing _ _ := rfl
  reserved _ _ _ _ := rfl
  classes id found hfound := by
    have hlt : id < machine.classes.size := (Array.getElem?_eq_some_iff.1 hfound).1
    rwa [Machine.newClass, Array.getElem?_push, if_neg (Nat.ne_of_lt hlt)]
  instances _ found hfound := ⟨found, hfound, rfl⟩

theorem newInstance (machine : Machine) (classId : Nat) :
    machine.Evolves (machine.newInstance classId).2 where
  next := Nat.le_refl _
  enclosing _ _ := rfl
  reserved _ _ _ _ := rfl
  classes _ _ h := h
  instances id found hfound := by
    have hlt : id < machine.instances.size := (Array.getElem?_eq_some_iff.1 hfound).1
    exact ⟨found, by rwa [Machine.newInstance, Array.getElem?_push, if_neg (Nat.ne_of_lt hlt)], rfl⟩

theorem setField (machine : Machine) (id : Nat) (name : String) (value : Value) :
    machine.Evolves (machine.setField id name value) where
  next := Nat.le_refl _
  enclosing _ _ := rfl
  reserved _ _ _ _ := rfl
  classes _ _ h := h
  instances other found hfound := by
    rw [Machine.setField, Array.getElem?_modify, hfound]
    split
    · exact ⟨_, rfl, rfl⟩
    · exact ⟨found, rfl, rfl⟩

end Evolves

/-- There is such a scope, and it binds neither `this` nor `super`. -/
def Plain (machine : Machine) (scope : Nat) : Prop :=
  scope < machine.scopes.next ∧
    ∀ name, ¬ IsPlain name → (machine.scopes.bindings scope).find? name = none

theorem Plain.evolve {older newer : Machine} {scope : Nat} (h : older.Plain scope)
    (hevolves : older.Evolves newer) : newer.Plain scope :=
  ⟨Nat.lt_of_lt_of_le h.1 hevolves.next, fun name hname =>
    (hevolves.reserved scope h.1 name hname).trans (h.2 name hname)⟩

/-- What a class declaration makes.  The methods of a subclass stand in a scope of their own. -/
def classEntry (machine : Machine) (name : Token) (superclass : Option Nat)
    (methods : List FunctionDecl) : ClassEntry :=
  ⟨name.lexeme, superclass, methodTable
    (if superclass.isSome then machine.scopes.next else machine.current) methods⟩

end Machine

/-- A function was declared in a plain scope, or it is a method that some task has bound. -/
inductive Closure.Traced (seen : Task → Machine → Prop) (machine : Machine) (closure : Closure) :
    Prop where
  | plain : machine.Plain closure.scope → Traced seen machine closure
  | bound {task : Task} {there : Machine} {method : Closure} : seen task there →
      BindsMethod task there method closure.scope → closure.declaration = method.declaration →
      closure.isInitializer = method.isInitializer → closure.scope < machine.scopes.next →
      Traced seen machine closure

theorem Closure.Traced.evolve {seen : Task → Machine → Prop} {older newer : Machine}
    {closure : Closure} (h : closure.Traced seen older) (hevolves : older.Evolves newer) :
    closure.Traced seen newer := by
  cases h with
  | plain hplain => exact .plain (hplain.evolve hevolves)
  | bound hseen hbinds hdeclaration hinit hlt =>
    exact .bound hseen hbinds hdeclaration hinit (Nat.lt_of_lt_of_le hlt hevolves.next)

namespace Machine

structure Traced (seen : Task → Machine → Prop) (machine : Machine) : Prop where
  classes : ∀ (id : Nat) (entry : ClassEntry), machine.classes[id]? = some entry →
    ∃ name superclass methods there, seen (.classDef name superclass methods) there ∧
      there.classes.size = id ∧ entry = there.classEntry name superclass methods
  functions : ∀ (id : Nat) (closure : Closure), machine.functions[id]? = some closure →
    closure.Traced seen machine

/-- A way from one machine to another on which what is made is accounted for. -/
structure Proceeds (seen : Task → Machine → Prop) (older newer : Machine) : Prop where
  evolves : older.Evolves newer
  traced : older.Traced seen → newer.Traced seen

variable {seen : Task → Machine → Prop} {oldest older newer machine : Machine}

namespace Proceeds

theorem refl (machine : Machine) : machine.Proceeds seen machine := ⟨.refl machine, id⟩

theorem trans (h : oldest.Proceeds seen older) (h' : older.Proceeds seen newer) :
    oldest.Proceeds seen newer :=
  ⟨h.evolves.trans h'.evolves, fun htraced => h'.traced (h.traced htraced)⟩

/-- No class and no function is made. -/
theorem of_evolves (h : machine.Evolves newer) (hclasses : newer.classes = machine.classes)
    (hfunctions : newer.functions = machine.functions) : machine.Proceeds seen newer where
  evolves := h
  traced htraced := {
    classes := hclasses ▸ htraced.classes
    functions := fun id closure hclosure =>
      (htraced.functions id closure (hfunctions ▸ hclosure)).evolve h }

theorem aside (hscopes : newer.scopes = machine.scopes)
    (hfunctions : newer.functions = machine.functions) (hclasses : newer.classes = machine.classes)
    (hinstances : newer.instances = machine.instances) : machine.Proceeds seen newer :=
  .of_evolves (.aside hscopes hclasses hinstances) hclasses hfunctions

theorem newFunction {closure : Closure} (hclosure : closure.Traced seen machine) :
    machine.Proceeds seen (machine.newFunction closure).2 where
  evolves := .aside rfl rfl rfl
  traced htraced := by
    refine ⟨htraced.classes, fun id found hfound => ?_⟩
    rw [Machine.newFunction, Array.getElem?_push] at hfound
    split at hfound
    · cases hfound
      exact hclosure.evolve (.aside rfl rfl rfl)
    · exact (htraced.functions id found hfound).evolve (.aside rfl rfl rfl)

theorem newClass {name : Token} {superclass : Option Nat} {methods : List FunctionDecl}
    {there : Machine} (hseen : seen (.classDef name superclass methods) there)
    (hclasses : machine.classes = there.classes) :
    machine.Proceeds seen (machine.newClass (there.classEntry name superclass methods)).2 where
  evolves := .newClass machine _
  traced htraced := by
    refine ⟨fun id entry hentry => ?_, fun id closure hclosure =>
      (htraced.functions id closure hclosure).evolve (.newClass machine _)⟩
    rw [Machine.newClass, Array.getElem?_push] at hentry
    split at hentry
    · next hid =>
      cases hentry
      exact ⟨name, superclass, methods, there, hseen, by rw [hid, hclasses], rfl⟩
    · exact htraced.classes id entry hentry

end Proceeds

end Machine

end Moth
