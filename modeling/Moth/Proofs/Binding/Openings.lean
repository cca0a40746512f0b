import Moth.Proofs.Binding.Chronicle
/-!
# What is opened where

A task that opens a scope opens the next one in its stride.  No two visits of a session open the
same scope, and at every visit where a scope is there, it is as the visit that opened it has left
it: in the scope around it, and with its `this` or `super`.
-/

namespace Moth

open Eval

namespace Eval

variable {task : Task} {machine there : Machine} {method : Closure} {scope : Nat} {site : Site}

/-! ## Strides -/

/-- A task of one step makes nothing but that step. -/
theorem Script.stride_lastAct {α : Type} (step : Run α) (machine : Machine) :
    (Script.act step .done).stride machine = (step machine).machine?.getD machine := by
  unfold Script.stride
  cases step machine <;> rfl

theorem next_callScope (closure : Closure) (args : List Value) (machine : Machine) :
    (callScope closure args machine).2.scopes.next = machine.scopes.next + 1 := by
  have hfold : ∀ (pairs : List (Token × Value)) (machine : Machine) (scope : Nat),
      (pairs.foldl (fun machine pair => machine.define scope pair.1.lexeme pair.2)
        machine).scopes.next = machine.scopes.next := by
    intro pairs
    induction pairs with
    | nil => exact fun _ _ => rfl
    | cons pair pairs ih =>
      intro machine scope
      exact (ih _ scope).trans (Forest.next_define _ _ _ _)
  exact (hfold _ _ _).trans (Forest.next_child _ _)

/-- What a method is bound to: an instance of a class that has the method, or what `this` is
where `super` is used. -/
inductive Receives (task : Task) (machine : Machine) (method : Closure) : Value → Prop where
  | object {id : Nat} {entry : InstanceEntry} {name : String} :
      (task.stride machine).instances[id]? = some entry →
      machine.method? entry.classId name = some method →
      Receives task machine method (.instance id)
  | super {room hops above : Nat} {keyword name : Token} {self : Value} :
      task = .expr room (.super keyword name) → machine.resolution.hops? keyword = some hops →
      machine.scopes.getAt machine.current hops "super" = .ok (.class above) →
      machine.scopes.getAt machine.current (hops - 1) "this" = .ok self →
      machine.method? above name.lexeme = some method → Receives task machine method self

/-- Binding a method opens a scope in that of the method, with `this` in it. -/
theorem BindsMethod.stride (h : BindsMethod task machine method scope) :
    scope = machine.scopes.next ∧ ∃ self, Receives task machine method self ∧
      (task.stride machine).scopes =
        (machine.scopes.child method.scope).define machine.scopes.next "this" self := by
  cases h with
  | @property _ id entry name _ hentry hfield hmethod =>
    have hget : getProperty (.instance id) name machine =
        bindMethod method (.instance id) machine := by
      simp only [getProperty, hentry, hfield, hmethod]
    have hstride : Task.stride (.property (.instance id) name) machine =
        ((machine.bindThis method (.instance id)).2.newFunction
          (machine.bindThis method (.instance id)).1).2 := by
      rw [Task.stride, Task.script, Script.stride_lastAct, hget]
      rfl
    refine ⟨rfl, .instance id, .object ?_ hmethod, by rw [hstride]; rfl⟩
    rw [hstride]
    exact hentry
  | @super _ room hops above self keyword name _ hhops hsuper hthis hmethod =>
    have hget : getSuper keyword name machine = bindMethod method self machine := by
      simp only [getSuper, hhops, hsuper, hthis, hmethod]
    refine ⟨rfl, self, .super rfl hhops hsuper hthis hmethod, ?_⟩
    rw [Task.stride, Task.script, exprScript, Script.stride_lastAct, hget]
    rfl
  | @initializer _ room id paren args _ hmethod =>
    have hstride : Task.stride (.call room paren (.class id) args) machine =
        ((machine.newInstance id).2.bindThis method (.instance machine.instances.size)).2 := by
      have hinit : (machine.newInstance id).2.method? id "init" = some method := hmethod
      simp only [Task.stride, Task.script, callScript, Script.stride, Run.make, Run.get, hinit]
      rfl
    have hself : (Task.stride (.call room paren (.class id) args) machine).instances[
        machine.instances.size]? = some ⟨id, []⟩ := by
      rw [hstride]
      exact Array.getElem?_push_size
    exact ⟨rfl, .instance machine.instances.size, .object hself hmethod, by rw [hstride]; rfl⟩

/-- A class declaration has made its class in its stride. -/
theorem founded_evolves_stride {name : Token} (hplain : IsPlain name.lexeme)
    (superclass : Option Nat) (methods : List FunctionDecl) :
    (machine.founded name superclass methods).Evolves
      (Task.stride (.classDef name superclass methods) machine) := by
  rw [Task.stride, Task.script, Script.stride_lastAct, declareClass_eq]
  split
  · exact (Machine.Evolves.refl _).define (.inl hplain) _
  · exact .refl _

theorem scopes_founded (name : Token) (above : Nat) (methods : List FunctionDecl) :
    (machine.founded name (some above) methods).scopes =
      ((machine.scopes.define machine.current name.lexeme .nil).child machine.current).define
        machine.scopes.next "super" (.class above) := rfl

theorem next_founded (name : Token) (above : Nat) (methods : List FunctionDecl) :
    (machine.founded name (some above) methods).scopes.next = machine.scopes.next + 1 := by
  rw [scopes_founded, Forest.next_define, Forest.next_child, Forest.next_define]

theorem classes_founded (name : Token) (superclass : Option Nat) (methods : List FunctionDecl) :
    (machine.founded name superclass methods).classes =
      machine.classes.push (machine.classEntry name superclass methods) := by
  cases superclass <;> rfl

/-- The scope that a task opens is the next one, and is there after the stride. -/
theorem Opens.next (h : Opens task machine site scope) :
    scope = machine.scopes.next ∧ ((∀ name ∈ task.binds, IsPlain name.lexeme) →
      machine.scopes.next < (task.stride machine).scopes.next) := by
  cases h with
  | block =>
    refine ⟨rfl, fun _ => ?_⟩
    show _ < (machine.scopes.child machine.current).next
    rw [Forest.next_child]
    exact Nat.lt_succ_self _
  | @function _ room closure args =>
    refine ⟨rfl, fun _ => ?_⟩
    show _ < (callScope closure args machine).2.scopes.next
    rw [next_callScope]
    exact Nat.lt_succ_self _
  | this hbinds _ =>
    obtain ⟨hscope, self, -, hscopes⟩ := hbinds.stride
    refine ⟨hscope, fun _ => ?_⟩
    rw [hscopes, Forest.next_define, Forest.next_child]
    exact Nat.lt_succ_self _
  | @super _ name above methods =>
    refine ⟨machine.scopes.next_define _ _ _, fun hplain => ?_⟩
    have hevolves : (machine.founded name (some above) methods).Evolves _ :=
      founded_evolves_stride (hplain name (List.mem_singleton_self name)) (some above) methods
    have hnext := hevolves.next
    rw [next_founded] at hnext
    exact hnext

theorem Opens.classDef {name : Token} {methods : List FunctionDecl}
    (h : Opens task machine (.super name methods) scope) :
    ∃ above, task = .classDef name (some above) methods ∧ scope = machine.scopes.next := by
  have hscope := h.next.1
  cases h with
  | super => exact ⟨_, rfl, hscope⟩

theorem Opens.superNext (name : Token) (above : Nat) (methods : List FunctionDecl) :
    Opens (.classDef name (some above) methods) machine (.super name methods)
      machine.scopes.next := by
  rw [← machine.scopes.next_define machine.current name.lexeme .nil]
  exact .super

/-! ## What is left of a stride -/

theorem BindsMethod.later (h : BindsMethod task machine method scope)
    (hlater : (task.stride machine).Evolves there) :
    there.scopes.enclosing? scope = some method.scope ∧
      ∃ self, Receives task machine method self ∧
        (there.scopes.bindings scope).find? "this" = some self := by
  obtain ⟨rfl, self, hself, hscopes⟩ := h.stride
  have hlt : machine.scopes.next < (machine.scopes.child method.scope).next := by
    rw [Forest.next_child]
    exact Nat.lt_succ_self _
  have hnew : machine.scopes.next < (task.stride machine).scopes.next := by
    rwa [hscopes, Forest.next_define]
  refine ⟨?_, self, hself, ?_⟩
  · rw [hlater.enclosing _ hnew, hscopes, Forest.enclosing?_define, Forest.enclosing?_child,
      if_pos rfl]
  · rw [hlater.reserved _ hnew "this" fun hplain => hplain.1 rfl, hscopes,
      Forest.find?_define_self hlt]

theorem callScope_later {room : Nat} {closure : Closure} {args : List Value}
    (hplain : ∀ param ∈ closure.declaration.params, IsPlain param.lexeme)
    (hlater : (Task.stride (.invoke room closure args) machine).Evolves there) :
    there.scopes.enclosing? machine.scopes.next = some closure.scope := by
  have hbound : (machine.newScope closure.scope).2.Proceeds (fun _ _ => True)
      (callScope closure args machine).2 := (callScope_proceeds hplain args).1
  have hnew : machine.scopes.next < (machine.newScope closure.scope).2.scopes.next :=
    (plain_newScope closure.scope).1
  rw [(hbound.evolves.trans hlater).enclosing _ hnew, Machine.newScope, Forest.enclosing?_child,
    if_pos rfl]

theorem classDef_later {name : Token} {superclass : Option Nat} {methods : List FunctionDecl}
    (hplain : IsPlain name.lexeme)
    (hlater : (Task.stride (.classDef name superclass methods) machine).Evolves there) :
    there.classes[machine.classes.size]? = some (machine.classEntry name superclass methods) := by
  refine ((founded_evolves_stride hplain superclass methods).trans hlater).classes _ _ ?_
  rw [classes_founded]
  exact Array.getElem?_push_size

/-- The scope that binds `super` keeps the class that it was opened with. -/
theorem super_later {name : Token} {above : Nat} {methods : List FunctionDecl}
    (hplain : IsPlain name.lexeme)
    (hlater : (Task.stride (.classDef name (some above) methods) machine).Evolves there) :
    (there.scopes.bindings machine.scopes.next).find? "super" = some (.class above) := by
  have hevolves := (founded_evolves_stride hplain (some above) methods).trans hlater
  have hnew : machine.scopes.next < (machine.founded name (some above) methods).scopes.next := by
    rw [next_founded]
    exact Nat.lt_succ_self _
  have hfind := hevolves.reserved _ hnew "super" fun hplain => hplain.2 rfl
  rw [scopes_founded, Forest.next_define] at hnew
  rw [hfind, scopes_founded, Forest.find?_define_self hnew]

end Eval

/-! ## One visit for each scope -/

namespace Chronicle

variable {turns : List Turn} {task other : Task} {machine there : Machine} {site site' : Site}
  {scope : Nat}

theorem plain (h : Chronicle turns) (hseen : Happened turns task machine) :
    ∀ name ∈ task.binds, IsPlain name.lexeme := by
  obtain ⟨before, -, -, hready⟩ := h.sound task machine hseen
  exact hready.plain

theorem compare (h : Chronicle turns) (hseen : Happened turns task machine)
    (hother : Happened turns other there) : task = other ∧ machine = there ∨
      (task.stride machine).Evolves there ∨ (other.stride there).Evolves machine := by
  obtain ⟨start, stop, -, hcourse⟩ := h.course
  rcases hcourse.compare (mem_history.2 hseen) (mem_history.2 hother) with heq | hlater
  · cases heq
    exact .inl ⟨rfl, rfl⟩
  · exact .inr hlater

theorem plainScope (h : Chronicle turns) (hseen : Happened turns task machine) :
    machine.Plain machine.current := by
  obtain ⟨start, stop, -, hcourse⟩ := h.course
  exact hcourse.plain _ (mem_history.2 hseen)

theorem fits (h : Chronicle turns) (hseen : Happened turns task machine) :
    task.Fits (Happened turns) machine := by
  obtain ⟨start, stop, -, hcourse⟩ := h.course
  exact hcourse.fits _ (mem_history.2 hseen)

theorem evolves_stride (h : Chronicle turns) (hseen : Happened turns task machine) :
    machine.Evolves (task.stride machine) := by
  obtain ⟨start, stop, -, hcourse⟩ := h.course
  exact hcourse.strides _ (mem_history.2 hseen)

/-- A visit is over where there are more scopes. -/
theorem later (h : Chronicle turns) (hseen : Happened turns task machine)
    (hother : Happened turns other there) (hlt : machine.scopes.next < there.scopes.next) :
    (task.stride machine).Evolves there := by
  rcases h.compare hseen hother with ⟨-, rfl⟩ | hlater | hearlier
  · exact absurd hlt (Nat.lt_irrefl _)
  · exact hlater
  · have hle := Nat.le_trans (h.evolves_stride hother).next hearlier.next
    omega

/-- No scope is opened twice. -/
theorem unique (h : Chronicle turns) (hseen : Happened turns task machine)
    (hopens : Opens task machine site scope) (hother : Happened turns other there)
    (hopens' : Opens other there site' scope) : task = other ∧ machine = there := by
  obtain ⟨hscope, hlt⟩ := hopens.next
  obtain ⟨hscope', hlt'⟩ := hopens'.next
  have hnew := hlt (h.plain hseen)
  have hnew' := hlt' (h.plain hother)
  rcases h.compare hseen hother with heq | hlater | hearlier
  · exact heq
  · have hle := hlater.next
    omega
  · have hle := hearlier.next
    omega

end Chronicle

end Moth
