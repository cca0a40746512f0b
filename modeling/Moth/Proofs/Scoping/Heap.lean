import Moth.Proofs.Resolving.Accepted
import Moth.Proofs.Scoping.Chain
import Moth.Proofs.Scoping.Links
/-!
# Sound machines

On a sound machine every function and every method stands in a chain of scopes that matches
the place of its declaration, all links lead to something made earlier, and no value is a class or
an instance that does not exist.  The steps that change a machine keep it so.
-/

namespace Moth

def Value.Valid (machine : Machine) : Value → Prop
  | .class id => id < machine.classes.size
  | .instance id => id < machine.instances.size
  | _ => True

/-- A function whose scope matches the place of its declaration. -/
structure Closure.Sound (past : Past) (scopes : Forest Value) (closure : Closure) : Prop where
  placed : ∃ (place : Place) (context : Context), Chain past scopes closure.scope place.frames ∧
    ∀ event ∈ functionEvents context place closure.declaration, past.Knows event
  this : closure.isInitializer → (scopes.bindings closure.scope).binds "this"

/-- A method whose scope matches the place around its class. -/
def Closure.Unbound (past : Past) (scopes : Forest Value) (method : Closure) : Prop :=
  ∃ (place : Place) (context : Context) (name : Token) (methods : List FunctionDecl),
    Chain past scopes method.scope place.frames ∧ method.declaration ∈ methods ∧
    ∀ event ∈ functionEvents context (place.enter (.this name methods) ["this"])
      method.declaration, past.Knows event

theorem Closure.Sound.grow {past : Past} {older newer : Forest Value} {closure : Closure}
    (h : closure.Sound past older) (hgrows : older.Grows newer) : closure.Sound past newer := by
  obtain ⟨place, context, hchain, hevents⟩ := h.placed
  exact ⟨⟨place, context, hchain.grow hgrows, hevents⟩,
    fun hinit => hgrows.binds _ _ (h.this hinit)⟩

theorem Closure.Unbound.grow {past : Past} {older newer : Forest Value} {method : Closure}
    (h : method.Unbound past older) (hgrows : older.Grows newer) : method.Unbound past newer := by
  obtain ⟨place, context, name, methods, hchain, hrest⟩ := h
  exact ⟨place, context, name, methods, hchain.grow hgrows, hrest⟩

theorem Closure.Sound.later {past later : Past} {scopes : Forest Value} {closure : Closure}
    (h : closure.Sound past scopes) (hbefore : past.Before later) :
    closure.Sound later scopes := by
  obtain ⟨place, context, hchain, hevents⟩ := h.placed
  exact ⟨⟨place, context, hchain.later hbefore, fun event hevent =>
    (hevents event hevent).later hbefore⟩, h.this⟩

theorem Closure.Unbound.later {past later : Past} {scopes : Forest Value} {method : Closure}
    (h : method.Unbound past scopes) (hbefore : past.Before later) :
    method.Unbound later scopes := by
  obtain ⟨place, context, name, methods, hchain, hmem, hevents⟩ := h
  exact ⟨place, context, name, methods, hchain.later hbefore, hmem, fun event hevent =>
    (hevents event hevent).later hbefore⟩

namespace Machine

structure Sound (past : Past) (machine : Machine) : Prop where
  links : machine.Descends
  settled : ∀ reference, past.known reference → reference.Settled ∧
    machine.resolution.hops? reference.token = reference.hops?
  values : ∀ (scope : Nat) (name : String) (value : Value),
    (machine.scopes.bindings scope).find? name = some value → value.Valid machine
  fields : ∀ (id : Nat) (entry : InstanceEntry) (name : String) (value : Value),
    machine.instances[id]? = some entry → entry.fields.find? name = some value → value.Valid machine
  functions : ∀ (id : Nat) (closure : Closure), machine.functions[id]? = some closure →
    closure.Sound past machine.scopes
  methods : ∀ (id : Nat) (entry : ClassEntry) (name : String) (method : Closure),
    machine.classes[id]? = some entry → entry.methods.find? name = some method →
      method.Unbound past machine.scopes

structure Extends (older newer : Machine) : Prop where
  scopes : older.scopes.Grows newer.scopes
  classes : older.classes.size ≤ newer.classes.size
  instances : older.instances.size ≤ newer.instances.size
  resolution : newer.resolution = older.resolution

structure Onward (past : Past) (older newer : Machine) : Prop where
  sound : newer.Sound past
  grows : older.Extends newer

variable {past : Past} {older newer machine : Machine}

theorem Extends.refl (machine : Machine) : machine.Extends machine :=
  ⟨.refl _, Nat.le_refl _, Nat.le_refl _, rfl⟩

theorem Extends.trans {oldest : Machine} (h : oldest.Extends older) (h' : older.Extends newer) :
    oldest.Extends newer :=
  ⟨h.scopes.trans h'.scopes, Nat.le_trans h.classes h'.classes,
    Nat.le_trans h.instances h'.instances, h'.resolution.trans h.resolution⟩

theorem Sound.stay (h : machine.Sound past) : Onward past machine machine := ⟨h, .refl machine⟩

theorem Onward.trans {oldest : Machine} (h : Onward past oldest older)
    (h' : Onward past older newer) : Onward past oldest newer :=
  ⟨h'.sound, h.grows.trans h'.grows⟩

end Machine

theorem Value.Valid.extend {older newer : Machine} {value : Value} (h : value.Valid older)
    (hextends : older.Extends newer) : value.Valid newer := by
  cases value with
  | «class» id => exact Nat.lt_of_lt_of_le h hextends.classes
  | «instance» id => exact Nat.lt_of_lt_of_le h hextends.instances
  | _ => trivial

namespace Machine

variable {past : Past} {machine newer : Machine}

/-- Soundness is kept if whatever is new is sound. -/
theorem Sound.onward (h : machine.Sound past) (hextends : machine.Extends newer)
    (hdescends : newer.Descends)
    (hvalues : ∀ (scope : Nat) (name : String) (value : Value),
      (newer.scopes.bindings scope).find? name = some value →
      (machine.scopes.bindings scope).find? name = some value ∨ value.Valid newer)
    (hfields : ∀ (id : Nat) (entry : InstanceEntry) (name : String) (value : Value),
      newer.instances[id]? = some entry → entry.fields.find? name = some value → value.Valid newer)
    (hfunctions : ∀ (id : Nat) (closure : Closure), newer.functions[id]? = some closure →
      machine.functions[id]? = some closure ∨ closure.Sound past newer.scopes)
    (hmethods : ∀ (id : Nat) (entry : ClassEntry), newer.classes[id]? = some entry →
      machine.classes[id]? = some entry ∨
      ∀ (name : String) (method : Closure), entry.methods.find? name = some method →
        method.Unbound past newer.scopes) :
    Onward past machine newer := by
  refine ⟨⟨hdescends, ?_, ?_, hfields, ?_, ?_⟩, hextends⟩
  · rw [hextends.resolution]
    exact h.settled
  · intro scope name value hvalue
    rcases hvalues scope name value hvalue with hold | hnew
    · exact (h.values scope name value hold).extend hextends
    · exact hnew
  · intro id closure hclosure
    rcases hfunctions id closure hclosure with hold | hnew
    · exact (h.functions id closure hold).grow hextends.scopes
    · exact hnew
  · intro id entry name method hentry hmethod
    rcases hmethods id entry hentry with hold | hnew
    · exact (h.methods id entry name method hold hmethod).grow hextends.scopes
    · exact hnew name method hmethod

/-- A scope whose chain matches is one that there is. -/
theorem Sound.lt_next (h : machine.Sound past) {scope : Nat} {frames : List Frame}
    (hchain : Chain past machine.scopes scope frames) : scope < machine.scopes.next := by
  cases hchain with
  | globals => exact h.links.globals
  | inner henclosing _ _ _ => exact Forest.lt_next_of_enclosing? henclosing

/-- Scopes change, and nothing else that soundness is about. -/
theorem Sound.scopes (h : machine.Sound past) {scopes : Forest Value}
    (hgrows : machine.scopes.Grows scopes) (hdescends : Descends { machine with scopes })
    (hvalues : ∀ (scope : Nat) (name : String) (value : Value),
      (scopes.bindings scope).find? name = some value →
      (machine.scopes.bindings scope).find? name = some value ∨ value.Valid machine) :
    Onward past machine { machine with scopes } :=
  h.onward ⟨hgrows, Nat.le_refl _, Nat.le_refl _, rfl⟩ hdescends hvalues h.fields
    (fun _ _ hclosure => .inl hclosure) (fun _ _ hentry => .inl hentry)

theorem Sound.define (h : machine.Sound past) {scope : Nat} {name : String} {value : Value}
    (hname : name ≠ "super" ∨ machine.scopes.bindings scope = []) (hvalue : value.Valid machine) :
    Onward past machine (machine.define scope name value) := by
  refine h.scopes (.define hname value) (h.links.define scope name value)
    fun place other found hfound => ?_
  rcases Forest.find?_define_cases hfound with rfl | hold
  · exact .inr hvalue
  · exact .inl hold

theorem Sound.newScope (h : machine.Sound past) {enclosing : Nat}
    (henclosing : enclosing < machine.scopes.next) :
    Onward past machine (machine.newScope enclosing).2 := by
  refine h.scopes (.child machine.scopes enclosing) (h.links.newScope henclosing)
    fun place other found hfound => ?_
  rw [Forest.bindings_child] at hfound
  exact .inl hfound

/-- A new scope that binds one name, whatever the name is. -/
theorem Sound.newScopeWith (h : machine.Sound past) {enclosing : Nat}
    (henclosing : enclosing < machine.scopes.next) (name : String) {value : Value}
    (hvalue : value.Valid machine) :
    Onward past machine ((machine.newScope enclosing).2.define machine.scopes.next name value) := by
  have hscope := h.newScope henclosing
  refine hscope.trans (hscope.sound.define (.inr ?_) (hvalue.extend hscope.grows))
  rw [Machine.newScope, Forest.bindings_child, Forest.bindings_next]

theorem Sound.newFunction (h : machine.Sound past) {closure : Closure}
    (hclosure : closure.Sound past machine.scopes) :
    Onward past machine (machine.newFunction closure).2 := by
  refine h.onward ⟨.refl _, Nat.le_refl _, Nat.le_refl _, rfl⟩ (h.links.aside rfl rfl rfl)
    (fun _ _ _ hvalue => .inl hvalue) h.fields (fun id found hfound => ?_)
    (fun _ _ hentry => .inl hentry)
  simp only [Machine.newFunction, Array.getElem?_push] at hfound
  split at hfound
  · cases hfound
    exact .inr hclosure
  · exact .inl hfound

theorem Sound.newClass (h : machine.Sound past) {entry : ClassEntry}
    (habove : ∀ above, entry.superclass = some above → above < machine.classes.size)
    (hentry : ∀ (name : String) (method : Closure), entry.methods.find? name = some method →
      method.Unbound past machine.scopes) :
    Onward past machine (machine.newClass entry).2 := by
  have hextends : machine.Extends (machine.newClass entry).2 :=
    ⟨.refl _, by simp [Machine.newClass], Nat.le_refl _, rfl⟩
  refine h.onward hextends (h.links.newClass habove) (fun _ _ _ hvalue => .inl hvalue)
    (fun id found name value hfound hvalue =>
      (h.fields id found name value hfound hvalue).extend hextends)
    (fun _ _ hclosure => .inl hclosure) (fun id found hfound => ?_)
  simp only [Machine.newClass, Array.getElem?_push] at hfound
  split at hfound
  · cases hfound
    exact .inr hentry
  · exact .inl hfound

theorem Sound.newInstance (h : machine.Sound past) {classId : Nat}
    (hclass : classId < machine.classes.size) :
    Onward past machine (machine.newInstance classId).2 := by
  have hextends : machine.Extends (machine.newInstance classId).2 :=
    ⟨.refl _, Nat.le_refl _, by simp [Machine.newInstance], rfl⟩
  refine h.onward hextends (h.links.newInstance hclass) (fun _ _ _ hvalue => .inl hvalue)
    (fun id entry name value hentry => ?_) (fun _ _ hclosure => .inl hclosure)
    (fun _ _ hentry => .inl hentry)
  simp only [Machine.newInstance, Array.getElem?_push] at hentry
  split at hentry
  · cases hentry
    intro hfield
    cases hfield
  · exact fun hfield => (h.fields id entry name value hentry hfield).extend hextends

theorem Sound.setField (h : machine.Sound past) (id : Nat) (name : String) {value : Value}
    (hvalue : value.Valid machine) : Onward past machine (machine.setField id name value) := by
  have hextends : machine.Extends (machine.setField id name value) :=
    ⟨.refl _, Nat.le_refl _, by simp [Machine.setField], rfl⟩
  refine h.onward hextends (h.links.setField id name value) (fun _ _ _ hvalue => .inl hvalue)
    (fun other entry field found hentry hfound => ?_) (fun _ _ hclosure => .inl hclosure)
    (fun _ _ hentry => .inl hentry)
  simp only [Machine.setField, Array.getElem?_modify] at hentry
  split at hentry
  · obtain ⟨old, hold, rfl⟩ := Option.map_eq_some_iff.1 hentry
    rcases Bindings.find?_set_cases hfound with ⟨-, rfl⟩ | hbefore
    · exact hvalue.extend hextends
    · exact (h.fields other old field found hold hbefore).extend hextends
  · exact (h.fields other entry field found hentry hfound).extend hextends

/-- What has nothing to do with scopes and tables may change. -/
theorem Sound.aside (h : machine.Sound past) (hscopes : newer.scopes = machine.scopes)
    (hfunctions : newer.functions = machine.functions) (hclasses : newer.classes = machine.classes)
    (hinstances : newer.instances = machine.instances)
    (hresolution : newer.resolution = machine.resolution) : Onward past machine newer := by
  have hextends : machine.Extends newer := ⟨hscopes ▸ .refl _, Nat.le_of_eq (by rw [hclasses]),
    Nat.le_of_eq (by rw [hinstances]), hresolution⟩
  refine h.onward hextends (h.links.aside hscopes hclasses hinstances)
    (fun _ _ _ hvalue => .inl (hscopes ▸ hvalue)) (fun id entry name value hentry hfield => ?_)
    (fun _ _ hclosure => .inl (hfunctions ▸ hclosure)) (fun _ _ hentry => .inl (hclasses ▸ hentry))
  exact (h.fields id entry name value (hinstances ▸ hentry) hfield).extend hextends

theorem Sound.withOutput (h : machine.Sound past) (output : String) :
    Sound past { machine with output } :=
  ⟨h.links.aside rfl rfl rfl, h.settled, h.values, h.fields, h.functions, h.methods⟩

/-- When more has happened, the resolution has to know of the references that are new. -/
theorem Sound.later {later : Past} (h : machine.Sound past) (hbefore : past.Before later)
    {resolution : Resolution} (hsettled : ∀ reference, later.known reference →
      reference.Settled ∧ resolution.hops? reference.token = reference.hops?) :
    Sound later { machine with resolution } where
  links := h.links.aside rfl rfl rfl
  settled := hsettled
  values := h.values
  fields := h.fields
  functions id closure hclosure := (h.functions id closure hclosure).later hbefore
  methods id entry name method hentry hmethod :=
    (h.methods id entry name method hentry hmethod).later hbefore

end Machine

end Moth
