import Moth.Proofs.Binding.Lasting
import Moth.Proofs.Binding.Methods
import Moth.Proofs.Resolving.Returns
import Moth.Proofs.Session.Programs
/-!
# What calls give

Statements outside of functions never complete with a return.  A call of a class gives the
instance that it makes, and a call of an initializer the instance that it is bound to, however
the body completes.  Any other call gives the value of the one `return` that the body executes
itself, as the last of its statements, or nil if it executes none.
-/

namespace Moth

open Eval

/-! ## Programs without stray returns -/

theorem Session.admitted {session : Session} {request : Request} {acceptance : Acceptance}
    (hready : session.stage = .ready) (h : session.accept? request = some acceptance) :
    ∀ stmt ∈ acceptance.program, stmt.Admitted .outside := by
  have htop : Place.top.context.function = .outside := rfl
  exact admitted_of_eventsAll htop (Session.vetted hready h).quiet

/-- The programs of all turns are code that the resolver is quiet about. -/
theorem Reached.quiet {turns : List Turn} {session : Session} (h : Reached turns session)
    (request : Request) (fuel : Nat) :
    ∀ turn ∈ (⟨session, request, fuel⟩ :: turns : List Turn), turn.Within quietCode := by
  intro turn hturn acceptance hsome stmt hstmt
  exact ⟨.outside, Session.admitted (h.ready_upTo turn hturn) hsome stmt hstmt⟩

/-! ## Functions -/

/-- The run is not stuck, and if it ends with a value, this is as told. -/
def Outcome.Yields {α : Type} (P : α → Machine → Prop) : Outcome α → Prop
  | .done value after => P value after
  | .failed .. | .outOfFuel => True
  | .stuck _ => False

def Machine.entered (machine : Machine) (closure : Closure) (args : List Value) : Machine :=
  { (callScope closure args machine).2 with current := (callScope closure args machine).1 }

/-- The statement is one of a body, or of its blocks, branches and loops; those of the functions
and methods that are declared there are not. -/
inductive Stmt.StandsIn (body : List Stmt) : Stmt → Prop where
  | own {stmt : Stmt} : stmt ∈ body → StandsIn body stmt
  | part {stmt part : Stmt} : StandsIn body stmt → part ∈ stmt.parts → StandsIn body part

/-- The value of a call whose body has executed some statements itself, all of which stand in it.
If there is no `return` among them, all statements of the body are, and the value is nil; or else
the last of them is the only `return`, and the value is that of its expression. -/
structure CallGives (room : Nat) (body : List Stmt) (steps : List (Stmt × Machine))
    (value : Value) : Prop where
  own : ∀ step ∈ steps, step.1.StandsIn body
  value : (value = .nil ∧ (∀ step ∈ steps, ¬ step.1.IsReturn) ∧
      ∀ stmt ∈ body, ∃ there, (stmt, there) ∈ steps) ∨
    ∃ before keyword expr there, steps = before ++ [(.returns keyword expr, there)] ∧
      (∀ step ∈ before, ¬ step.1.IsReturn) ∧ Gives room expr there value

section

variable {fuel room : Nat} {closure : Closure} {args : List Value} {machine after : Machine}
  {value : Value}

/-- The body of a function that is called has been run to its end. -/
theorem invoke_done (h : invoke (fuel + 1) room closure args machine = .done value after) :
    ∃ completion last current, executeAll fuel room closure.declaration.body
        (machine.entered closure args) = .done completion last ∧
      callResult closure completion { last with current } = .done value after := by
  have hscript : (Task.invoke room closure args).script.exec (Task.run fuel) machine =
      .done value after := Task.run_succ fuel (.invoke room closure args) ▸ h
  obtain ⟨scope, between, hscope, hrest, -⟩ := Script.ended_act hscript
  cases hscope
  obtain ⟨completion, last, hbody, hrest, -⟩ := Script.ended_within hrest
  obtain ⟨found, stop, hresult, hdone, -⟩ := Script.ended_act hrest
  cases hdone
  exact ⟨completion, last, _, hbody, hresult⟩

theorem callGives_of_invoke (hinit : closure.isInitializer = false)
    (h : invoke (fuel + 1) room closure args machine = .done value after) :
    CallGives room closure.declaration.body
      (executed fuel (.stmts room closure.declaration.body) (machine.entered closure args))
      value := by
  obtain ⟨completion, last, current, hbody, hresult⟩ := invoke_done h
  have htallies := (bodiesTally fuel room).stmts hbody
  have hconsists : (Task.stmts room closure.declaration.body).Consists
      (Stmt.StandsIn closure.declaration.body) := fun _ hstmt => .own hstmt
  refine ⟨forall_executed (fun _ hstands _ hpart => hstands.part hpart) hconsists, ?_⟩
  simp only [callResult, hinit] at hresult
  cases completion with
  | normal =>
    cases hresult
    exact .inl ⟨rfl, htallies, mem_executed hbody⟩
  | returned found =>
    cases hresult
    exact .inr htallies

theorem Forest.lt_next_of_find? {scopes : Forest Value} {scope : Nat} {name : String}
    (h : (scopes.bindings scope).find? name = some value) : scope < scopes.next := by
  rcases Nat.lt_or_ge scope scopes.next with hlt | hge
  · exact hlt
  · rw [Forest.bindings, Array.getElem?_eq_none hge] at h
    cases h

theorem Forest.find?_of_getAt {scopes : Forest Value} {scope : Nat} {name : String}
    (h : scopes.getAt scope 0 name = .ok value) :
    (scopes.bindings scope).find? name = some value := by
  simp only [getAt, ancestor] at h
  split at h
  · next found hfound =>
    cases h
    exact hfound
  · cases h

/-- An initializer gives what `this` is in its scope, however the body has completed. -/
theorem this_of_invoke (hinit : closure.isInitializer = true)
    (h : invoke fuel room closure args machine = .done value after) :
    (after.scopes.bindings closure.scope).find? "this" = some value := by
  cases fuel with
  | zero => cases h
  | succ fuel =>
    obtain ⟨completion, last, current, -, hresult⟩ := invoke_done h
    simp only [callResult, hinit, if_true] at hresult
    split at hresult
    · next self hself =>
      cases hresult
      exact Forest.find?_of_getAt hself
    · cases hresult

/-- A class makes an instance before it does anything else. -/
theorem instances_stride (paren : Token) (id : Nat) :
    (Task.stride (.call room paren (.class id) args) machine).instances =
      machine.instances.push ⟨id, []⟩ := by
  simp only [Task.stride, Task.script, callScript, Script.stride, Run.make, Run.get]
  split <;> rfl

/-- A class gives the instance that it makes. -/
theorem call_class_done {paren : Token} {id : Nat}
    (h : call fuel room paren (.class id) args machine = .done value after) :
    value = .instance machine.instances.size := by
  cases fuel with
  | zero => cases h
  | succ fuel =>
    rw [callScript_exec] at h
    obtain ⟨self, between, hself, hrest, -⟩ := Script.ended_act h
    cases hself
    obtain ⟨found, between, hfound, hrest, -⟩ := Script.ended_act hrest
    cases hfound
    split at hrest
    · cases hrest
      rfl
    · obtain ⟨bound, between, -, hrest, -⟩ := Script.ended_act hrest
      obtain ⟨result, last, -, hdone, -⟩ := Script.ended_ask hrest
      cases hdone
      rfl

end

/-! ## Visited calls -/

namespace Chronicle

variable {turns : List Turn} (h : Chronicle turns) {fuel room : Nat} {args : List Value}
  {there after : Machine} {value : Value}

include h

theorem call_class {paren : Token} {id : Nat}
    (hseen : Happened turns (.call room paren (.class id) args) there)
    (hdone : call fuel room paren (.class id) args there = .done value after) :
    value = .instance there.instances.size ∧
      ∃ entry, after.instances[there.instances.size]? = some entry ∧ entry.classId = id := by
  refine ⟨call_class_done hdone, ?_⟩
  have hlast : after ∈ (Task.run fuel (.call room paren (.class id) args) there).machine? := by
    rw [Task.run, hdone]
    rfl
  obtain ⟨-, hstride⟩ := h.run_lasts hseen hlast
  have hmade : (Task.stride (.call room paren (.class id) args)
      there).instances[there.instances.size]? = some ⟨id, []⟩ := by
    rw [instances_stride]
    exact Array.getElem?_push_size
  obtain ⟨entry, hentry, hclass⟩ := hstride.instances _ _ hmade
  exact ⟨entry, hentry, hclass⟩

/-- The initializers among the functions that are called are the methods named `init`. -/
theorem isInitializer_iff {closure : Closure}
    (hseen : Happened turns (.invoke room closure args) there) :
    closure.isInitializer = true ↔
      closure.IsMethod turns ∧ closure.declaration.name.lexeme = "init" := by
  cases h.fits hseen with
  | plain hplain =>
    -- in a plain scope there is no `this`
    have hnone : (there.scopes.bindings closure.scope).find? "this" = none :=
      hplain.2 "this" fun hplain => hplain.1 rfl
    constructor
    · intro hinit
      obtain ⟨before, -, -, hclosure, -⟩ := h.sound _ _ hseen
      have hbinds := hclosure.this hinit
      rw [Bindings.binds, hnone] at hbinds
      cases hbinds
    · rintro ⟨hmethod, -⟩
      obtain ⟨self, _, _, _, _, _, hbound⟩ := h.boundTo hseen hmethod
      rw [hbound.this] at hnone
      cases hnone
  | bound hbinder hbinds hdeclaration hinit hlt =>
    have hlater := h.later hbinder hseen (hbinds.stride.1 ▸ hlt)
    obtain ⟨_, -, _, entry, key, -, hentry, hkey⟩ :=
      h.receivers _ _ _ _ _ _ hbinder hbinds hlt hlater
    obtain ⟨before, name, _, methods, above, -, rfl, rfl, -⟩ := h.classMade hseen hentry
    obtain ⟨decl, -, rfl⟩ := find?_methodTable hkey
    have hmethod : closure.IsMethod turns := ⟨_, _, _, hbinder, hbinds⟩
    rw [hinit, hdeclaration]
    simp [hmethod]

theorem call_initializer {closure : Closure} {self : Value}
    (hseen : Happened turns (.invoke room closure args) there)
    (hinit : closure.isInitializer = true)
    (hself : (there.scopes.bindings closure.scope).find? "this" = some self)
    (hdone : invoke fuel room closure args there = .done value after) : value = self := by
  have hlast : after ∈ (Task.run fuel (.invoke room closure args) there).machine? := by
    rw [Task.run, hdone]
    rfl
  have hlt : closure.scope < there.scopes.next := Forest.lt_next_of_find? hself
  have hkept := (h.run_lasts hseen hlast).1.reserved closure.scope hlt "this" fun h => h.1 rfl
  rw [this_of_invoke hinit hdone, hself] at hkept
  exact Option.some.inj hkept

/-- A visited task that ends with a value is not stuck on the way. -/
theorem yields {task : Task} {P : task.Result → Machine → Prop} (fuel : Nat)
    (hseen : Happened turns task there)
    (hdone : ∀ value after, task.run fuel there = .done value after → P value after) :
    (task.run fuel there).Yields P := by
  obtain ⟨past, hended, -⟩ := h.run_ready hseen fuel
  cases hrun : task.run fuel there with
  | done value after => exact hdone value after hrun
  | failed failure after => trivial
  | stuck after =>
    rw [hrun] at hended
    exact hended
  | outOfFuel => trivial

end Chronicle

/-- In a session, whatever its turns were, no statement of a program completes with a return.
A call of a class gives a new instance of that class.  A call of an initializer, which is a method
named `init`, gives the instance that the method is bound to, however its body completes, and if
the body returns, it returns nil.  A call of any other function gives the value of the one `return`
that its body executes itself, behind which it executes nothing more, or nil if it executes none.
None of these calls gets stuck. -/
theorem returns_and_initializers {turns : List Turn} {session : Session}
    (h : Reached turns session) (request : Request) (fuel : Nat) :
    let turn : Turn := ⟨session, request, fuel⟩
    (∀ acceptance, session.accept? request = some acceptance → ∀ stmt ∈ acceptance.program,
      ∀ steps room machine completion after,
        execute steps room stmt machine = .done completion after → completion = .normal) ∧
    (∀ room paren id args there, turn.Visits (.call room paren (.class id) args) there →
      ∀ steps, (call steps room paren (.class id) args there).Yields fun value after =>
        value = .instance there.instances.size ∧
          ∃ entry, after.instances[there.instances.size]? = some entry ∧ entry.classId = id) ∧
    ∀ room closure args there, turn.Visits (.invoke room closure args) there →
      (closure.IsMethod (turn :: turns) ∧ closure.declaration.name.lexeme = "init" →
        ∃ self, (there.scopes.bindings closure.scope).find? "this" = some (.instance self) ∧
          ∀ steps,
            (invoke steps room closure args there).Yields (fun value _ => value = .instance self) ∧
            ∀ value after, executeAll steps room closure.declaration.body
              (there.entered closure args) = .done (.returned value) after → value = .nil) ∧
      (¬ (closure.IsMethod (turn :: turns) ∧ closure.declaration.name.lexeme = "init") →
        ∀ steps, (invoke (steps + 1) room closure args there).Yields fun value _ =>
          CallGives room closure.declaration.body (executed steps
            (.stmts room closure.declaration.body) (there.entered closure args)) value) := by
  intro turn
  have hchronicle := h.chronicle request fuel
  refine ⟨?_, ?_, ?_⟩
  · intro acceptance haccept stmt hstmt steps room machine completion after hdone
    have hend := execute_mayEnd (Session.admitted h.sound.stage haccept stmt hstmt) hdone
    cases completion with
    | normal => rfl
    | returned value => exact absurd rfl hend.1
  · intro room paren id args there hvisit steps
    have hseen : Happened (turn :: turns) _ there := ⟨turn, List.mem_cons_self, hvisit⟩
    exact hchronicle.yields steps hseen fun _ _ hdone => hchronicle.call_class hseen hdone
  intro room closure args there hvisit
  have hseen : Happened (turn :: turns) _ there := ⟨turn, List.mem_cons_self, hvisit⟩
  have hiff := hchronicle.isInitializer_iff hseen
  constructor
  · intro hinit
    obtain ⟨self, _, _, _, _, _, hbound⟩ := hchronicle.boundTo hseen hinit.1
    obtain ⟨_, -, -, context, hcontext, hbody⟩ := h.visits_within (h.quiet request fuel) hvisit
    refine ⟨self, hbound.this, fun steps => ⟨?_, fun value after hdone => ?_⟩⟩
    · exact hchronicle.yields steps hseen fun _ _ hdone =>
        hchronicle.call_initializer hseen (hiff.2 hinit) hbound.this hdone
    · exact (executeAll_mayEnd hbody hdone).2 (hcontext (hiff.2 hinit))
  · intro hother steps
    have hinit : closure.isInitializer = false := by
      rw [← hiff] at hother
      exact Bool.eq_false_iff.2 hother
    exact hchronicle.yields (steps + 1) hseen fun _ _ hdone => callGives_of_invoke hinit hdone

/-- An initializer that returns out of a block, a branch and a loop, and a function that does so
too and declares one that returns. -/
def boxText : String :=
  "class B\x7binit(n)\x7bwhile(1)\x7bif(n)return;n=1;\x7d\x7d\x7d
  fun f(n)\x7bfun g()\x7breturn;\x7dg();while(1)\x7bif(n)return n;n=1;\x7d\x7dvar b=B(nil);"

def boxSession : Session := Session.empty.after 60 (.run boxText)

def boxTurn : Turn := ⟨boxSession, .run "B(1);b.init(nil);f(nil);", 60⟩

def Outcome.isDone {α : Type} : Outcome α → Bool
  | .done .. => true
  | _ => false

theorem Outcome.Yields.of_isDone {α : Type} {P : α → Machine → Prop} {outcome : Outcome α}
    (h : outcome.Yields P) (hdone : outcome.isDone = true) :
    ∃ value after, outcome = .done value after ∧ P value after := by
  cases outcome with
  | done value after => exact ⟨value, after, rfl, h⟩
  | failed | stuck | outOfFuel => cases hdone

def callsClass : Task × Machine → Bool
  | (.call room paren (.class id) args, machine) =>
    (call 60 room paren (.class id) args machine).isDone
  | _ => false

def callsFunction (isInitializer : Bool) : Task × Machine → Bool
  | (.invoke room closure args, machine) => closure.isInitializer == isInitializer &&
    (invoke 60 room closure args machine).isDone
  | _ => false

theorem boxTurn_calls :
    (∃ room paren id args there after, boxTurn.Visits (.call room paren (.class id) args) there ∧
      call 60 room paren (.class id) args there = .done (.instance there.instances.size) after) ∧
    (∃ room closure args there self after, boxTurn.Visits (.invoke room closure args) there ∧
      closure.declaration.name.lexeme = "init" ∧
      (there.scopes.bindings closure.scope).find? "this" = some (.instance self) ∧
      invoke 60 room closure args there = .done (.instance self) after) ∧
    ∃ room closure args there value after, boxTurn.Visits (.invoke room closure args) there ∧
      invoke 60 room closure args there = .done value after ∧
      CallGives room closure.declaration.body (executed 59
        (.stmts room closure.declaration.body) (there.entered closure args)) value := by
  have hreached : Reached [⟨.empty, .run boxText, 60⟩] boxSession :=
    .after .empty (by decide +kernel)
  have hvisited : (boxTurn.visited.any callsClass && boxTurn.visited.any (callsFunction true) &&
      boxTurn.visited.any (callsFunction false)) = true := by
    decide +kernel
  simp only [Bool.and_eq_true, List.any_eq_true] at hvisited
  obtain ⟨⟨⟨made, hmade, hclass⟩, ⟨bound, hbound, hinit⟩⟩, ⟨other, hother, hplain⟩⟩ := hvisited
  obtain ⟨-, hclasses, hfunctions⟩ := returns_and_initializers hreached boxTurn.request 60
  have hchronicle := hreached.chronicle boxTurn.request 60
  refine ⟨?_, ?_, ?_⟩
  · unfold callsClass at hclass
    split at hclass
    · next room paren id args there =>
      have hvisit := Turn.visits_of_mem hmade
      obtain ⟨value, after, hdone, rfl, -⟩ := (hclasses _ _ _ _ _ hvisit 60).of_isDone hclass
      exact ⟨room, paren, id, args, there, after, hvisit, hdone⟩
    · cases hclass
  · unfold callsFunction at hinit
    split at hinit
    · next room closure args there =>
      obtain ⟨hflag, hends⟩ := Bool.and_eq_true_iff.1 hinit
      have hvisit := Turn.visits_of_mem hbound
      have hmethod := (hchronicle.isInitializer_iff ⟨boxTurn, List.mem_cons_self, hvisit⟩).1
        (eq_of_beq hflag)
      obtain ⟨self, hself, hgives⟩ := (hfunctions _ _ _ _ hvisit).1 hmethod
      obtain ⟨value, after, hdone, rfl⟩ := (hgives 60).1.of_isDone hends
      exact ⟨room, closure, args, there, self, after, hvisit, hmethod.2, hself, hdone⟩
    · cases hinit
  · unfold callsFunction at hplain
    split at hplain
    · next room closure args there =>
      obtain ⟨hflag, hends⟩ := Bool.and_eq_true_iff.1 hplain
      have hvisit := Turn.visits_of_mem hother
      have hmethod := mt (hchronicle.isInitializer_iff ⟨boxTurn, List.mem_cons_self, hvisit⟩).2
        (by rw [eq_of_beq hflag]; exact Bool.false_ne_true)
      obtain ⟨value, after, hdone, hgives⟩ :=
        ((hfunctions _ _ _ _ hvisit).2 hmethod 59).of_isDone hends
      exact ⟨room, closure, args, there, value, after, hvisit, hdone, hgives⟩
    · cases hplain

end Moth
