import Moth.Eval.Machine
import Moth.Proofs.Store.Laws
/-!
# Links lead to what was made before

Scopes, classes and instances are numbered as they are made.  The link from a scope to the one
around it, from a class to its superclass and from an instance to its class leads to something that
was there when the link was made, and no step of a machine changes it.
-/

namespace Moth.Machine

structure Descends (machine : Machine) : Prop where
  globals : globals < machine.scopes.next
  scopes : machine.scopes.Descends
  classes : ∀ (id : Nat) (entry : ClassEntry), machine.classes[id]? = some entry →
    ∀ above, entry.superclass = some above → above < id
  instances : ∀ (id : Nat) (entry : InstanceEntry), machine.instances[id]? = some entry →
    entry.classId < machine.classes.size

namespace Descends

variable {machine newer : Machine}

theorem aside (h : machine.Descends) (hscopes : newer.scopes = machine.scopes)
    (hclasses : newer.classes = machine.classes)
    (hinstances : newer.instances = machine.instances) :
    newer.Descends :=
  ⟨hscopes ▸ h.globals, hscopes ▸ h.scopes, hclasses ▸ h.classes,
    hclasses ▸ hinstances ▸ h.instances⟩

theorem define (h : machine.Descends) (scope : Nat) (name : String) (value : Value) :
    (machine.define scope name value).Descends where
  globals := by
    rw [Machine.define, Forest.next_define]
    exact h.globals
  scopes := h.scopes.define scope name value
  classes := h.classes
  instances := h.instances

theorem newScope (h : machine.Descends) {outer : Nat} (houter : outer < machine.scopes.next) :
    (machine.newScope outer).2.Descends where
  globals := by
    rw [Machine.newScope, Forest.next_child]
    exact Nat.lt_succ_of_lt h.globals
  scopes := h.scopes.child houter
  classes := h.classes
  instances := h.instances

theorem newClass (h : machine.Descends) {entry : ClassEntry}
    (hentry : ∀ above, entry.superclass = some above → above < machine.classes.size) :
    (machine.newClass entry).2.Descends where
  globals := h.globals
  scopes := h.scopes
  classes id found hfound := by
    rw [Machine.newClass, Array.getElem?_push] at hfound
    split at hfound
    · next hid =>
      cases hfound
      exact hid ▸ hentry
    · exact h.classes id found hfound
  instances id found hfound := by
    rw [Machine.newClass, Array.size_push]
    exact Nat.lt_succ_of_lt (h.instances id found hfound)

theorem newInstance (h : machine.Descends) {classId : Nat}
    (hclass : classId < machine.classes.size) :
    (machine.newInstance classId).2.Descends where
  globals := h.globals
  scopes := h.scopes
  classes := h.classes
  instances id found hfound := by
    rw [Machine.newInstance, Array.getElem?_push] at hfound
    split at hfound
    · cases hfound
      exact hclass
    · exact h.instances id found hfound

theorem setField (h : machine.Descends) (id : Nat) (name : String) (value : Value) :
    (machine.setField id name value).Descends where
  globals := h.globals
  scopes := h.scopes
  classes := h.classes
  instances other found hfound := by
    rw [Machine.setField, Array.getElem?_modify] at hfound
    split at hfound
    · obtain ⟨old, hold, rfl⟩ := Option.map_eq_some_iff.1 hfound
      exact h.instances other old hold
    · exact h.instances other found hfound

end Descends

theorem descends_start (world : World) (input : List Char) : (start world input).Descends where
  globals := by
    show 0 < initialScopes.next
    simp only [initialScopes, Native.all, List.foldl_cons, List.foldl_nil, Forest.next_define]
    exact Nat.one_pos
  scopes := by
    have hsingle : (Forest.single : Forest Value).Descends := (Forest.Built.outermost 1).descends
    exact (((hsingle.define _ _ _).define _ _ _).define _ _ _).define _ _ _
  classes id entry hentry := by simp [start] at hentry
  instances id entry hentry := by simp [start] at hentry

end Moth.Machine
