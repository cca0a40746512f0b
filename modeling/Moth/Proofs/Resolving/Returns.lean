import Moth.Proofs.Execution.Executed
import Moth.Proofs.Resolving.Pass
/-!
# Where a `return` may stand

The resolver refuses a `return` outside of functions, and one with a value in an initializer.
So in code that it is quiet about no statement outside of functions completes with a return, and
an initializer that returns does so without a value.
-/

namespace Moth

open Eval

/-- The statement stands in a function of a sort, and the resolver is quiet about it. -/
def Stmt.Admitted (context : FunctionContext) (tree : Stmt) : Prop :=
  ∃ place : Place, place.context.function = context ∧ Quiet (tree.events place)

theorem admitted_of_eventsAll {context : FunctionContext} {body : List Stmt} {place : Place}
    (hplace : place.context.function = context) (h : Quiet (eventsAll place body)) :
    ∀ tree ∈ body, tree.Admitted context := by
  induction body generalizing place with
  | nil => simp
  | cons first rest ih =>
    obtain ⟨hfirst, hrest⟩ := List.forall_mem_append.1 h
    refine List.forall_mem_cons.2 ⟨⟨place, hplace, hfirst⟩, ih ?_ hrest⟩
    rw [Place.context_after, hplace]

theorem admitted_of_functionEvents {around : Context} {place : Place} {declaration : FunctionDecl}
    (h : Quiet (functionEvents around place declaration)) :
    ∀ tree ∈ declaration.body, tree.Admitted around.function := by
  obtain ⟨name, params, body⟩ := declaration
  refine admitted_of_eventsAll ?_ (List.forall_mem_append.1 h).2
  rw [Place.context_setAll]
  rfl

theorem quiet_of_methodEvents {inClass : ClassContext} {place : Place}
    {methods : List FunctionDecl} (h : Quiet (methodEvents inClass place methods))
    {method : FunctionDecl} (hmethod : method ∈ methods) :
    Quiet (functionEvents ⟨methodContext method.name, inClass⟩ place method) := by
  induction methods with
  | nil => cases hmethod
  | cons first rest ih =>
    obtain ⟨hfirst, hrest⟩ := List.forall_mem_append.1 h
    rcases List.mem_cons.1 hmethod with rfl | hmem
    · exact hfirst
    · exact ih hrest hmem

namespace Stmt.Admitted

variable {context : FunctionContext} {tree : Stmt}

/-- The statements right inside a statement stand in the same function. -/
theorem parts (h : tree.Admitted context) : ∀ part ∈ tree.parts, part.Admitted context := by
  obtain ⟨place, hplace, hquiet⟩ := h
  cases tree with
  | block body =>
    have hinside : (place.enter (.block body) []).context.function = context := hplace
    exact admitted_of_eventsAll hinside hquiet
  | ifElse condition yes no =>
    obtain ⟨-, hbranches⟩ := List.forall_mem_append.1 hquiet
    obtain ⟨hyes, hno⟩ := List.forall_mem_append.1 hbranches
    refine List.forall_mem_cons.2 ⟨⟨place, hplace, hyes⟩, fun part hpart => ?_⟩
    obtain rfl := Option.mem_toList.1 hpart
    exact ⟨place, hplace, hno⟩
  | whileLoop condition body =>
    obtain ⟨-, hbody⟩ := List.forall_mem_append.1 hquiet
    exact List.forall_mem_singleton.2 ⟨place, hplace, hbody⟩
  | _ => exact fun part hpart => by cases hpart

/-- The functions that a statement declares: an initializer is known by its name. -/
theorem functions (h : tree.Admitted context) : ∀ found ∈ tree.functions,
    ∃ inner, (found.2 = true → inner = .initializer) ∧
      ∀ part ∈ found.1.body, part.Admitted inner := by
  obtain ⟨place, -, hquiet⟩ := h
  cases tree with
  | function declaration =>
    obtain ⟨-, hbody⟩ := List.forall_mem_cons.1 hquiet
    exact List.forall_mem_singleton.2 ⟨.function, nofun, admitted_of_functionEvents hbody⟩
  | classDef name superclass methods =>
    obtain ⟨-, hinner⟩ := List.forall_mem_cons.1 hquiet
    obtain ⟨-, hmethods⟩ := List.forall_mem_append.1 hinner
    intro found hfound
    obtain ⟨method, hmethod, rfl⟩ := List.mem_map.1 hfound
    refine ⟨methodContext method.name, fun hinit => ?_, ?_⟩
    · exact if_pos (of_decide_eq_true hinit)
    · exact admitted_of_functionEvents (quiet_of_methodEvents hmethods hmethod)
  | _ => exact fun found hfound => by cases hfound

theorem returns {keyword : Token} {value : Option Expr}
    (h : Stmt.Admitted context (.returns keyword value)) :
    context ≠ .outside ∧ (context = .initializer → value = none) := by
  obtain ⟨place, rfl, hquiet⟩ := h
  have hcomplaint := hquiet _ List.mem_cons_self
  cases hfunction : place.context.function <;> cases value <;>
    simp_all [Event.complaint?]

end Stmt.Admitted

def quietCode : Code where
  expr _ := True
  token _ := True
  stmt tree := ∃ context, tree.Admitted context
  function declaration isInitializer := ∃ context,
    (isInitializer = true → context = .initializer) ∧
      ∀ part ∈ declaration.body, part.Admitted context
  expr_parts _ _ _ := trivial
  expr_marks _ _ _ := trivial
  stmt_exprs _ _ _ := trivial
  stmt_parts := fun ⟨context, h⟩ part hpart => ⟨context, h.parts part hpart⟩
  stmt_functions := fun ⟨_, h⟩ => h.functions
  stmt_marks _ _ _ := trivial
  body := fun ⟨context, _, h⟩ part hpart => ⟨context, h part hpart⟩

def Completion.MayEnd (context : FunctionContext) : Completion → Prop
  | .normal => True
  | .returned value => context ≠ .outside ∧ (context = .initializer → value = .nil)

theorem Eval.Tallies.mayEnd {context : FunctionContext} {room : Nat}
    {steps : List (Stmt × Machine)} {completion : Completion}
    (h : Tallies room steps completion) (hsteps : ∀ step ∈ steps, step.1.Admitted context) :
    completion.MayEnd context := by
  cases completion with
  | normal => trivial
  | returned value =>
    obtain ⟨before, keyword, expr, there, rfl, -, hgives⟩ := h
    obtain ⟨hinside, hnone⟩ :=
      (hsteps _ (List.mem_append_right _ (List.mem_singleton_self _))).returns
    refine ⟨hinside, fun hinit => ?_⟩
    rw [hnone hinit] at hgives
    exact hgives

variable {context : FunctionContext} {fuel room : Nat} {machine after : Machine}
  {completion : Completion}

theorem Eval.execute_mayEnd {tree : Stmt} (h : tree.Admitted context)
    (hrun : execute fuel room tree machine = .done completion after) :
    completion.MayEnd context :=
  ((bodiesTally fuel room).stmt hrun).mayEnd
    (forall_executed (fun _ h => h.parts) (show Task.Consists _ (.stmt room tree) from h))

theorem Eval.executeAll_mayEnd {body : List Stmt} (h : ∀ tree ∈ body, tree.Admitted context)
    (hrun : executeAll fuel room body machine = .done completion after) :
    completion.MayEnd context :=
  ((bodiesTally fuel room).stmts hrun).mayEnd
    (forall_executed (fun _ h => h.parts) (show Task.Consists _ (.stmts room body) from h))

end Moth
