import Moth.Proofs.Execution.Classes
import Moth.Proofs.Execution.Natives
import Moth.Proofs.Execution.Visits
/-!
# Runs stay within their code

Whatever a program runs is a part of what was written: of the trees it was started with, and of
the functions that are kept in the machine.  A class of code is closed under parts, so that a
run which starts within it visits nothing outside of it, keeps no function from outside of it,
and fails at one of its tokens.  However a run ends, it ends in the scope in which it began.
-/

namespace Moth

namespace Expr

/-- The expressions right inside an expression. -/
def parts : Expr → List Expr
  | literal _ | ref _ | this _ | super _ _ => []
  | grouping inner => [inner]
  | unary _ _ right => [right]
  | binary _ _ left right | logical _ _ left right => [left, right]
  | assign _ value => [value]
  | call callee _ args => callee :: args
  | get object _ => [object]
  | set object _ value => [object, value]

/-- The tokens at which the expression itself can fail. -/
def marks : Expr → List Token
  | literal _ | grouping _ | logical _ _ _ _ => []
  | unary _ mark _ | binary _ mark _ _ => [mark]
  | ref name | assign name _ | get _ name | set _ name _ => [name]
  | call _ paren _ => [paren]
  | this keyword => [keyword]
  | super keyword method => [keyword, method]

end Expr

namespace Stmt

def exprs : Stmt → List Expr
  | expression value | print value => [value]
  | var _ init => init.toList
  | ifElse condition _ _ | whileLoop condition _ => [condition]
  | returns _ value => value.toList
  | classDef _ superclass _ => (superclass.map Expr.ref).toList
  | block _ | function _ => []

def parts : Stmt → List Stmt
  | block body => body
  | ifElse _ yes no => yes :: no.toList
  | whileLoop _ body => [body]
  | _ => []

/-- The functions that a statement declares, each with whether it is an initializer. -/
def functions : Stmt → List (FunctionDecl × Bool)
  | function declaration => [(declaration, false)]
  | classDef _ _ methods => methods.map fun method => (method, method.name.lexeme = "init")
  | _ => []

def marks : Stmt → List Token
  | classDef name superclass _ => name :: superclass.toList
  | _ => []

end Stmt

/-- A class of code that has all parts of what is in it. -/
structure Code where
  expr : Expr → Prop
  stmt : Stmt → Prop
  function : FunctionDecl → Bool → Prop
  token : Token → Prop
  expr_parts : ∀ {tree}, expr tree → ∀ part ∈ tree.parts, expr part
  expr_marks : ∀ {tree}, expr tree → ∀ mark ∈ tree.marks, token mark
  stmt_exprs : ∀ {tree}, stmt tree → ∀ part ∈ tree.exprs, expr part
  stmt_parts : ∀ {tree}, stmt tree → ∀ part ∈ tree.parts, stmt part
  stmt_functions : ∀ {tree}, stmt tree → ∀ found ∈ tree.functions, function found.1 found.2
  stmt_marks : ∀ {tree}, stmt tree → ∀ mark ∈ tree.marks, token mark
  body : ∀ {declaration isInitializer}, function declaration isInitializer →
    ∀ part ∈ declaration.body, stmt part

open Eval

variable {code : Code} {links : Resolution}

def Closure.Within (code : Code) (closure : Closure) : Prop :=
  code.function closure.declaration closure.isInitializer

structure Machine.Within (code : Code) (links : Resolution) (machine : Machine) : Prop where
  functions : ∀ (id : Nat) (closure : Closure), machine.functions[id]? = some closure →
    closure.Within code
  methods : ∀ (id : Nat) (entry : ClassEntry) (name : String) (method : Closure),
    machine.classes[id]? = some entry → entry.methods.find? name = some method →
    method.Within code
  links : machine.resolution = links

def Eval.Task.Within (code : Code) : Task → Prop
  | .expr _ tree => code.expr tree
  | .args _ trees => ∀ tree ∈ trees, code.expr tree
  | .call _ paren _ _ => code.token paren
  | .invoke _ closure _ => closure.Within code
  | .stmt _ tree => code.stmt tree
  | .stmts _ body => ∀ tree ∈ body, code.stmt tree
  | .loop _ condition body => code.expr condition ∧ code.stmt body
  | .assign name _ | .property _ name => code.token name
  | .classDef name _ methods => code.token name ∧
    ∀ method ∈ methods, code.function method (method.name.lexeme = "init")

def Machine.WithinAt (code : Code) (links : Resolution) (scope : Nat) (machine : Machine) : Prop :=
  machine.Within code links ∧ machine.current = scope

/-- What is left keeps to the class and is in the scope, and a failure is at one of its tokens. -/
def Outcome.Within {α : Type} (code : Code) (links : Resolution) (scope : Nat) : Outcome α → Prop
  | .done _ after => after.WithinAt code links scope
  | .failed failure after => code.token failure.token ∧ after.WithinAt code links scope
  | .stuck after => after.WithinAt code links scope
  | .outOfFuel => True

/-- The machine that is left behind, if there is one, is in the scope. -/
def Outcome.EndsIn {α : Type} (scope : Nat) : Outcome α → Prop
  | .done _ after | .failed _ after | .stuck after => after.current = scope
  | .outOfFuel => True

namespace Machine.Within

variable {machine newer : Machine}

/-- No function and no class is made. -/
theorem aside (h : machine.Within code links) (hfunctions : newer.functions = machine.functions)
    (hclasses : newer.classes = machine.classes)
    (hlinks : newer.resolution = machine.resolution) : newer.Within code links :=
  ⟨hfunctions ▸ h.functions, hclasses ▸ h.methods, hlinks.trans h.links⟩

/-- Other links are taken on. -/
theorem relink (h : machine.Within code links) (hfunctions : newer.functions = machine.functions)
    (hclasses : newer.classes = machine.classes) : newer.Within code newer.resolution :=
  ⟨hfunctions ▸ h.functions, hclasses ▸ h.methods, rfl⟩

theorem newFunction (h : machine.Within code links) {closure : Closure}
    (hclosure : closure.Within code) :
    (machine.newFunction closure).2.Within code links := by
  refine ⟨fun id found hfound => ?_, h.methods, h.links⟩
  rw [Machine.newFunction, Array.getElem?_push] at hfound
  split at hfound
  · cases hfound
    exact hclosure
  · exact h.functions id found hfound

theorem newClass (h : machine.Within code links) {entry : ClassEntry}
    (hentry : ∀ name method, entry.methods.find? name = some method → method.Within code) :
    (machine.newClass entry).2.Within code links := by
  refine ⟨h.functions, fun id found name method hfound hmethod => ?_, h.links⟩
  rw [Machine.newClass, Array.getElem?_push] at hfound
  split at hfound
  · cases hfound
    exact hentry name method hmethod
  · exact h.methods id found name method hfound hmethod

theorem method? (h : machine.Within code links) {id : Nat} {name : String} {method : Closure}
    (hfound : machine.method? id name = some method) : method.Within code := by
  obtain ⟨owner, entry, -, hentry, hmethod⟩ := inherits_of_methodWithin hfound
  exact h.methods owner entry name method hentry hmethod

end Machine.Within

theorem Machine.WithinAt.aside {machine newer : Machine} {scope : Nat}
    (h : machine.WithinAt code links scope) (hfunctions : newer.functions = machine.functions)
    (hclasses : newer.classes = machine.classes) (hlinks : newer.resolution = machine.resolution)
    (hcurrent : newer.current = machine.current) : newer.WithinAt code links scope :=
  ⟨h.1.aside hfunctions hclasses hlinks, hcurrent.trans h.2⟩

namespace Eval

theorem find?_methodTable {scope : Nat} {methods : List FunctionDecl} {name : String}
    {method : Closure} (h : (methodTable scope methods).find? name = some method) :
    ∃ decl ∈ methods, method = ⟨decl, scope, decl.name.lexeme = "init"⟩ := by
  -- a method that is found was there before the fold, or is set in it
  have hfold : ∀ (rest : List FunctionDecl) (table : Bindings Closure),
      (rest.foldl (fun table decl =>
        table.set decl.name.lexeme ⟨decl, scope, decl.name.lexeme = "init"⟩) table).find? name =
          some method →
      table.find? name = some method ∨
        ∃ decl ∈ rest, method = ⟨decl, scope, decl.name.lexeme = "init"⟩ := by
    intro rest
    induction rest with
    | nil => exact fun table h => .inl h
    | cons first rest ih =>
      intro table h
      rcases ih _ h with hset | ⟨decl, hmem, hmade⟩
      · rcases Bindings.find?_set_cases hset with ⟨-, rfl⟩ | hbefore
        · exact .inr ⟨first, List.mem_cons_self, rfl⟩
        · exact .inl hbefore
      · exact .inr ⟨decl, List.mem_cons_of_mem _ hmem, hmade⟩
  exact (hfold methods [] h).resolve_left (by simp)

section Steps

variable {machine : Machine} {scope : Nat} (h : machine.WithinAt code links scope)

include h

/-! ## Single steps -/

theorem lift_within {α : Type} {mark : Token} (hmark : code.token mark)
    (result : Except RuntimeFault α) : (Run.lift mark result machine).Within code links scope := by
  cases result with
  | ok value => exact h
  | error fault => exact ⟨hmark, h⟩

theorem lookUp_within {name : Token} (hname : code.token name) :
    (lookUp name machine).Within code links scope := by
  unfold lookUp
  split
  · split
    · exact h
    · exact h
  · split
    · exact h
    · exact ⟨hname, h⟩

theorem assign_within {name : Token} (hname : code.token name) (value : Value) :
    (assign name value machine).Within code links scope := by
  unfold assign
  split
  · split
    · exact h.aside rfl rfl rfl rfl
    · exact h
  · split
    · exact h.aside rfl rfl rfl rfl
    · exact ⟨hname, h⟩

theorem checkCall_within {paren : Token} (hparen : code.token paren) (callee : Value)
    (count : Nat) : (checkCall paren callee count machine).Within code links scope := by
  unfold checkCall
  split
  · exact ⟨hparen, h⟩
  · split
    · exact h
    · exact ⟨hparen, h⟩

theorem bindMethod_within {method : Closure} (hmethod : method.Within code) (self : Value) :
    (bindMethod method self machine).Within code links scope := by
  have hmachine : (machine.bindThis method self).2.Within code links := h.1.aside rfl rfl rfl
  have hbound : (machine.bindThis method self).1.Within code := hmethod
  exact ⟨hmachine.newFunction hbound, h.2⟩

theorem getProperty_within (object : Value) {name : Token} (hname : code.token name) :
    (getProperty object name machine).Within code links scope := by
  unfold getProperty
  split
  · split
    · exact h
    · split
      · exact h
      · split
        · next method hmethod => exact bindMethod_within h (h.1.method? hmethod) _
        · exact ⟨hname, h⟩
  · exact ⟨hname, h⟩

theorem getSuper_within (keyword : Token) {name : Token} (hname : code.token name) :
    (getSuper keyword name machine).Within code links scope := by
  unfold getSuper
  split
  · exact h
  · split
    · split
      · next found hfound => exact bindMethod_within h (h.1.method? hfound) _
      · exact ⟨hname, h⟩
    · exact h

theorem declareFunction_within {declaration : FunctionDecl}
    (hdeclaration : code.function declaration false) :
    (declareFunction declaration machine).Within code links scope := by
  have hclosure : Closure.Within code ⟨declaration, machine.current, false⟩ := hdeclaration
  exact ⟨(h.1.newFunction hclosure).aside rfl rfl rfl, h.2⟩

theorem foundClass_within (inner : Nat) {name : Token} (hname : code.token name)
    (superclass : Option Nat) {methods : List FunctionDecl}
    (hmethods : ∀ method ∈ methods, code.function method (method.name.lexeme = "init")) :
    (foundClass inner name superclass methods machine).Within code links scope := by
  have hclass : (machine.newClass
      ⟨name.lexeme, superclass, methodTable inner methods⟩).2.Within code links :=
    h.1.newClass fun other method hfound => by
      obtain ⟨decl, hdecl, rfl⟩ := find?_methodTable hfound
      exact hmethods decl hdecl
  simp only [foundClass, nameClass, bind, Run.bind, Run.make]
  split
  · exact ⟨hclass.aside rfl rfl rfl, h.2⟩
  · exact ⟨hname, hclass, h.2⟩

theorem declareClass_within {name : Token} (hname : code.token name) (superclass : Option Nat)
    {methods : List FunctionDecl}
    (hmethods : ∀ method ∈ methods, code.function method (method.name.lexeme = "init")) :
    (declareClass name superclass methods machine).Within code links scope := by
  cases superclass with
  | none =>
    have hmachine : (machine.define machine.current name.lexeme .nil).WithinAt code links scope :=
      h.aside rfl rfl rfl rfl
    rw [declareClass_none]
    exact foundClass_within hmachine _ hname none hmethods
  | some above =>
    have hmachine : (((machine.define machine.current name.lexeme .nil).newScope
        machine.current).2.define ((machine.define machine.current name.lexeme .nil).newScope
        machine.current).1 "super" (.class above)).WithinAt code links scope :=
      h.aside rfl rfl rfl rfl
    rw [declareClass_some]
    exact foundClass_within hmachine _ hname (some above) hmethods

theorem checkSuperclass_within {token : Token} (htoken : code.token token) (value : Value) :
    (checkSuperclass token value machine).Within code links scope := by
  cases value with
  | «class» id => exact h
  | _ => exact ⟨htoken, h⟩

theorem callScope_within (closure : Closure) (args : List Value) :
    (callScope closure args machine).2.WithinAt code links scope := by
  have hfold : ∀ (pairs : List (Token × Value)) (machine : Machine) (inner : Nat),
      machine.WithinAt code links scope → (pairs.foldl (fun machine pair =>
        machine.define inner pair.1.lexeme pair.2) machine).WithinAt code links scope := by
    intro pairs
    induction pairs with
    | nil => exact fun machine inner h => h
    | cons pair pairs ih => exact fun machine inner h => ih _ inner (h.aside rfl rfl rfl rfl)
  exact hfold _ _ _ (h.aside rfl rfl rfl rfl)

theorem callResult_within (closure : Closure) (completion : Completion) :
    (callResult closure completion machine).Within code links scope := by
  unfold callResult
  split
  · split
    · exact h
    · exact h
  · cases completion <;> exact h

theorem native_within (f : Native) {paren : Token} (hparen : code.token paren)
    (args : List Value) : (f.call paren args machine).Within code links scope := by
  obtain ⟨answer, -, hanswer⟩ := f.exists_answer machine.sources args
  rw [hanswer paren machine rfl]
  cases answer with
  | gives value text rest => exact h.aside rfl rfl rfl rfl
  | fails fault => exact ⟨hparen, h⟩
  | stuck => exact h

end Steps

/-! ## Scripts -/

/-- The script asks for tasks within the class only, keeps to it, and comes back to the scope. -/
abbrev Script.Confined {α : Type} (code : Code) (links : Resolution) (scope : Nat)
    (script : Script α) (machine : Machine) : Prop :=
  script.Meets (fun task there => there.Within code links ∧ task.Within code)
    (fun _ start outcome => outcome.Within code links start.current)
    (Outcome.Within code links scope) machine

namespace Script.Confined

variable {α β : Type} {machine : Machine} {scope : Nat}

theorem act {step : Run β} {next : β → Script α} (hstep : (step machine).Within code links scope)
    (hnext : ∀ value after, step machine = .done value after → after.WithinAt code links scope →
      (next value).Confined code links scope after) :
    (Script.act step next).Confined code links scope machine := by
  show (step machine).Leads _ _
  cases hrun : step machine with
  | done value after =>
    rw [hrun] at hstep
    exact hnext value after hrun hstep
  | failed | stuck | outOfFuel =>
    rw [hrun] at hstep
    exact hstep

theorem lastAct {step : Run α} (hstep : (step machine).Within code links scope) :
    (Script.act step .done).Confined code links scope machine :=
  .act hstep fun _ _ _ hafter => hafter

theorem ask {task : Task} {next : task.Result → Script α} (h : machine.WithinAt code links scope)
    (htask : task.Within code)
    (hnext : ∀ value after, after.WithinAt code links scope →
      (next value).Confined code links scope after) :
    (Script.ask task next).Confined code links scope machine := by
  refine ⟨⟨h.1, htask⟩, fun outcome houtcome => ?_⟩
  obtain ⟨-, rfl⟩ := h
  cases outcome with
  | done value after => exact hnext value after houtcome
  | failed | stuck | outOfFuel => exact houtcome

theorem within {inner : Nat} {task : Task} {next : task.Result → Script α}
    (h : machine.WithinAt code links scope) (htask : task.Within code)
    (hnext : ∀ value after, after.WithinAt code links scope →
      (next value).Confined code links scope after) :
    (Script.within inner task next).Confined code links scope machine := by
  refine ⟨⟨h.1.aside rfl rfl rfl, htask⟩, fun outcome houtcome => ?_⟩
  cases outcome with
  | done value after => exact hnext value _ ⟨houtcome.1.aside rfl rfl rfl, h.2⟩
  | failed failure after => exact ⟨houtcome.1, houtcome.2.1.aside rfl rfl rfl, h.2⟩
  | stuck => exact ⟨houtcome.1.aside rfl rfl rfl, h.2⟩
  | outOfFuel => trivial

end Script.Confined

section Scripts

variable {machine : Machine} {scope : Nat} (h : machine.WithinAt code links scope)

include h

theorem exprScript_confined (room : Nat) {tree : Expr} (htree : code.expr tree) :
    (exprScript room tree).Confined code links scope machine := by
  have hparts := code.expr_parts htree
  have hmarks := code.expr_marks htree
  cases tree with
  | literal value => exact h
  | grouping inner => exact .ask h (hparts inner List.mem_cons_self) fun _ _ hafter => hafter
  | unary op mark right =>
    exact .ask h (hparts right List.mem_cons_self) fun value after hafter =>
      .lastAct (lift_within hafter (hmarks mark List.mem_cons_self) _)
  | binary op mark left right =>
    exact .ask h (hparts left (by simp [Expr.parts])) fun value after hafter =>
      .ask hafter (hparts right (by simp [Expr.parts])) fun value after hafter =>
        .lastAct (lift_within hafter (hmarks mark List.mem_cons_self) _)
  | logical op mark left right =>
    refine .ask h (hparts left (by simp [Expr.parts])) fun value after hafter => ?_
    split
    · exact hafter
    · exact .ask hafter (hparts right (by simp [Expr.parts])) fun _ _ hafter => hafter
  | ref name => exact .lastAct (lookUp_within h (hmarks name List.mem_cons_self))
  | assign name value =>
    exact .ask h (hparts value List.mem_cons_self) fun value after hafter =>
      .ask hafter (hmarks name List.mem_cons_self) fun _ _ hafter => hafter
  | call callee paren args =>
    have hparen := hmarks paren List.mem_cons_self
    obtain ⟨hcallee, hargs⟩ := List.forall_mem_cons.1 hparts
    refine .ask h hcallee fun callee after hafter => .ask hafter hargs fun args after hafter =>
      .act (checkCall_within hafter hparen callee args.length) fun _ after _ hafter => ?_
    cases room with
    | zero => exact .lastAct ⟨hparen, hafter⟩
    | succ room => exact .ask hafter hparen fun _ _ hafter => hafter
  | get object name =>
    exact .ask h (hparts object List.mem_cons_self) fun value after hafter =>
      .ask hafter (hmarks name List.mem_cons_self) fun _ _ hafter => hafter
  | set object name value =>
    refine .ask h (hparts object (by simp [Expr.parts])) fun found after hafter => ?_
    cases found with
    | «instance» id =>
      exact .ask hafter (hparts value (by simp [Expr.parts])) fun value after hafter =>
        .act (hafter.aside rfl rfl rfl rfl) fun _ after _ hafter => hafter
    | _ => exact .lastAct ⟨hmarks name List.mem_cons_self, hafter⟩
  | this keyword => exact .lastAct (lookUp_within h (hmarks keyword List.mem_cons_self))
  | super keyword method =>
    exact .lastAct (getSuper_within h keyword (hmarks method (by simp [Expr.marks])))

theorem callScript_confined (room : Nat) {paren : Token} (hparen : code.token paren)
    (args : List Value) (callee : Value) :
    (callScript room paren args callee).Confined code links scope machine := by
  cases callee with
  | native f => exact .lastAct (native_within h f hparen args)
  | function id =>
    have hclosure : (closureOf id machine).Within code links scope := by
      unfold closureOf
      split
      · exact h
      · exact h
    refine .act hclosure fun closure after hdone hafter => .ask hafter ?_ fun _ _ hafter => hafter
    unfold closureOf at hdone
    split at hdone
    · next found hfound =>
      cases hdone
      exact h.1.functions id closure hfound
    · cases hdone
  | «class» id =>
    refine .act (h.aside rfl rfl rfl rfl) fun self after _ hafter =>
      .act hafter fun found between hget hbetween => ?_
    cases hget
    split
    · exact hafter
    · next initializer hinitializer =>
      refine .act (hafter.aside rfl rfl rfl rfl) fun bound last hbound hlast => ?_
      cases hbound
      have hmethod : initializer.Within code := hafter.1.method? hinitializer
      exact .ask hlast hmethod fun _ _ hafter => hafter
  | _ => exact h

theorem stmtScript_confined (room : Nat) {tree : Stmt} (htree : code.stmt tree) :
    (stmtScript room tree).Confined code links scope machine := by
  have hexprs := code.stmt_exprs htree
  have hparts := code.stmt_parts htree
  have hfunctions := code.stmt_functions htree
  have hmarks := code.stmt_marks htree
  cases tree with
  | expression value => exact .ask h (hexprs value List.mem_cons_self) fun _ _ hafter => hafter
  | print value =>
    exact .ask h (hexprs value List.mem_cons_self) fun _ _ hafter =>
      .act (hafter.aside rfl rfl rfl rfl) fun _ _ _ hafter => hafter
  | var name init =>
    cases init with
    | none => exact .act (h.aside rfl rfl rfl rfl) fun _ _ _ hafter => hafter
    | some init =>
      exact .ask h (hexprs init List.mem_cons_self) fun _ _ hafter =>
        .act (hafter.aside rfl rfl rfl rfl) fun _ _ _ hafter => hafter
  | block body =>
    exact .act (h.aside rfl rfl rfl rfl) fun scope _ _ hafter =>
      .within hafter hparts fun _ _ hafter => hafter
  | ifElse condition yes no =>
    obtain ⟨hyes, hno⟩ := List.forall_mem_cons.1 hparts
    refine .ask h (hexprs condition List.mem_cons_self) fun value after hafter => ?_
    split
    · exact .ask hafter hyes fun _ _ hafter => hafter
    · cases no with
      | none => exact hafter
      | some no => exact .ask hafter (hno no List.mem_cons_self) fun _ _ hafter => hafter
  | whileLoop condition body =>
    exact .ask h ⟨hexprs condition List.mem_cons_self, hparts body List.mem_cons_self⟩
      fun _ _ hafter => hafter
  | function declaration =>
    exact .act (declareFunction_within h (hfunctions _ List.mem_cons_self))
      fun _ _ _ hafter => hafter
  | returns keyword value =>
    cases value with
    | none => exact h
    | some value => exact .ask h (hexprs value List.mem_cons_self) fun _ _ hafter => hafter
  | classDef name superclass methods =>
    have hname := hmarks name List.mem_cons_self
    have hmethods : ∀ method ∈ methods, code.function method (method.name.lexeme = "init") :=
      fun method hmethod => hfunctions _ (List.mem_map_of_mem hmethod)
    cases superclass with
    | none => exact .ask h ⟨hname, hmethods⟩ fun _ _ hafter => hafter
    | some superclass =>
      have hsuperclass := hmarks superclass (by simp [Stmt.marks])
      exact .ask h (hexprs _ List.mem_cons_self) fun value after hafter =>
        .act (checkSuperclass_within hafter hsuperclass value) fun above after _ hafter =>
          .ask hafter ⟨hname, hmethods⟩ fun _ _ hafter => hafter

theorem afterNormal_confined {next : Script Completion}
    (hnext : next.Confined code links scope machine) (completion : Completion) :
    (afterNormal next completion).Confined code links scope machine := by
  cases completion with
  | normal => exact hnext
  | returned value => exact h

theorem script_confined {task : Task} (htask : task.Within code) :
    task.script.Confined code links scope machine := by
  match task with
  | .expr room tree => exact exprScript_confined h room htask
  | .args room [] => exact h
  | .args room (tree :: trees) =>
    obtain ⟨htree, htrees⟩ := List.forall_mem_cons.1 htask
    exact .ask h htree fun _ _ hafter => .ask hafter htrees fun _ _ hafter => hafter
  | .call room paren callee values => exact callScript_confined h room htask values callee
  | .invoke room closure values =>
    exact .act (callScope_within h closure values) fun scope after _ hafter =>
      .within hafter (code.body htask) fun completion after hafter =>
        .lastAct (callResult_within hafter closure completion)
  | .stmt room tree => exact stmtScript_confined h room htask
  | .stmts room [] => exact h
  | .stmts room (first :: rest) =>
    obtain ⟨hfirst, hrest⟩ := List.forall_mem_cons.1 htask
    refine .ask h hfirst fun completion after hafter => afterNormal_confined hafter ?_ completion
    exact .ask hafter hrest fun _ _ hafter => hafter
  | .loop room condition body =>
    refine .ask h htask.1 fun value after hafter => ?_
    split
    · refine .ask hafter htask.2 fun completion after hafter =>
        afterNormal_confined hafter ?_ completion
      exact .ask hafter htask fun _ _ hafter => hafter
    · exact hafter
  | .assign name value => exact .lastAct (assign_within h htask value)
  | .property object name => exact .lastAct (getProperty_within h object htask)
  | .classDef name superclass methods =>
    exact .lastAct (declareClass_within h htask.1 superclass htask.2)

end Scripts

/-- A run that starts within a class of code keeps to it, at all that it visits, and ends in the
scope in which it began. -/
theorem run_within {machine : Machine} (h : machine.Within code links) (fuel : Nat) {task : Task}
    (htask : task.Within code) :
    (task.run fuel machine).Within code links machine.current ∧
      ∀ other there, Visits fuel task machine other there →
        there.Within code links ∧ other.Within code := by
  have hseen : ∀ other there, Visits fuel task machine other there → True := fun _ _ _ => trivial
  exact Task.run_meets (fun _ _ => trivial)
    (fun _ _ _ hpre => script_confined ⟨hpre.1, rfl⟩ hpre.2) fuel hseen ⟨h, htask⟩

/-! ## All code -/

def allCode : Code where
  expr _ := True
  stmt _ := True
  function _ _ := True
  token _ := True
  expr_parts _ _ _ := trivial
  expr_marks _ _ _ := trivial
  stmt_exprs _ _ _ := trivial
  stmt_parts _ _ _ := trivial
  stmt_functions _ _ _ := trivial
  stmt_marks _ _ _ := trivial
  body _ _ _ := trivial

theorem Task.within_allCode (task : Task) : task.Within allCode := by
  cases task with
  | expr | call | invoke | stmt | assign | property => trivial
  | args | stmts => exact fun _ _ => trivial
  | loop => exact ⟨trivial, trivial⟩
  | classDef => exact ⟨trivial, fun _ _ => trivial⟩

theorem Task.run_within_allCode (fuel : Nat) (task : Task) (machine : Machine) :
    (task.run fuel machine).Within allCode machine.resolution machine.current := by
  have hmachine : machine.Within allCode machine.resolution :=
    ⟨fun _ _ _ => trivial, fun _ _ _ _ _ _ => trivial, rfl⟩
  exact (run_within hmachine fuel task.within_allCode).1

/-! ## The current scope -/

theorem Task.run_endsIn (fuel : Nat) (task : Task) (machine : Machine) :
    (task.run fuel machine).EndsIn machine.current := by
  have hrun := task.run_within_allCode fuel machine
  generalize task.run fuel machine = outcome at hrun
  cases outcome with
  | done value after => exact hrun.2
  | failed failure after => exact hrun.2.2
  | stuck after => exact hrun.2
  | outOfFuel => trivial

/-- Every expression and every statement ends in the very scope in which it began, whether with a
value, with a return or with a failure at any depth, and whatever machine it is run from. -/
theorem current_put_back (fuel room : Nat) (machine : Machine) :
    (∀ expr, (evaluate fuel room expr machine).EndsIn machine.current) ∧
      ∀ stmt, (execute fuel room stmt machine).EndsIn machine.current :=
  ⟨fun expr => (Task.expr room expr).run_endsIn fuel machine,
    fun stmt => (Task.stmt room stmt).run_endsIn fuel machine⟩

end Eval

end Moth
