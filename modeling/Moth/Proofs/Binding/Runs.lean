import Moth.Proofs.Binding.Course
/-!
# All scripts are steady

Every script of the evaluator is steady where its task is visited, and so every run is a tour
through its visits.
-/

namespace Moth.Eval

variable {seen : Task → Machine → Prop} {machine : Machine}

/-! ## The shapes of scripts -/

namespace Script.Steady

variable {α β : Type}

theorem last {task : Task} (h : task.Fits seen machine) :
    (Script.ask task .done).Steady seen machine :=
  ⟨h, fun _ _ _ _ => trivial⟩

theorem lastAct {step : Run α} (h : (step machine).Proceeds seen machine) :
    (Script.act step .done).Steady seen machine :=
  ⟨h, fun _ _ _ => trivial⟩

/-- A task of which nothing has to be known. -/
theorem ask {task : Task} {next : task.Result → Script α} (h : task.Fits seen machine)
    (hnext : ∀ value after, (next value).Steady seen after) :
    (Script.ask task next).Steady seen machine :=
  ⟨h, fun value after _ _ => hnext value after⟩

theorem act {step : Run β} {next : β → Script α} (h : (step machine).Proceeds seen machine)
    (hnext : ∀ value after, (next value).Steady seen after) :
    (Script.act step next).Steady seen machine :=
  ⟨h, fun value after _ => hnext value after⟩

theorem fail {token : Token} {fault : RuntimeFault} {next : β → Script α} :
    (Script.act (Run.fail token fault) next).Steady seen machine :=
  ⟨⟨.refl machine, rfl⟩, nofun⟩

end Script.Steady

/-! ## Tasks -/

theorem exprScript_steady {room : Nat} {tree : Expr} (hseen : seen (.expr room tree) machine) :
    (exprScript room tree).Steady seen machine := by
  cases tree with
  | literal value => trivial
  | grouping inner => exact .last trivial
  | unary op mark right => exact .ask trivial fun _ _ => .lastAct (lift_proceeds mark _)
  | binary op mark left right =>
    exact .ask trivial fun _ _ => .ask trivial fun _ _ => .lastAct (lift_proceeds mark _)
  | logical op mark left right =>
    refine .ask trivial fun value after => ?_
    split
    · trivial
    · exact .last trivial
  | ref name => exact .lastAct (lookUp_proceeds name)
  | assign name value => exact .ask trivial fun _ _ => .ask trivial fun _ _ => trivial
  | call callee paren args =>
    refine .ask trivial fun _ _ => .ask trivial fun values _ =>
      .act (checkCall_proceeds paren _ values.length) fun _ _ => ?_
    cases room with
    | zero => exact .fail
    | succ room => exact .last trivial
  | get object name => exact .ask trivial fun _ _ => .last trivial
  | set object name value =>
    refine .ask trivial fun object _ => ?_
    cases object with
    | «instance» id =>
      refine .ask trivial fun value after => .act ⟨?_, rfl⟩ fun _ _ => trivial
      exact .of_evolves (.setField after id name.lexeme value) rfl rfl
    | _ => exact .fail
  | this keyword => exact .lastAct (lookUp_proceeds keyword)
  | super keyword method => exact .lastAct (getSuper_proceeds hseen)

theorem callScript_steady {room : Nat} {paren : Token} {callee : Value} {args : List Value}
    (hseen : seen (.call room paren callee args) machine) (htraced : machine.Traced seen) :
    (callScript room paren args callee).Steady seen machine := by
  cases callee with
  | native f => exact .lastAct (native_proceeds f paren args)
  | function id =>
    refine ⟨closureOf_proceeds id, fun closure after hfound => .last ?_⟩
    unfold closureOf at hfound
    split at hfound
    · next hclosure =>
      cases hfound
      exact htraced.functions id closure hclosure
    · cases hfound
  | «class» id =>
    refine ⟨⟨.of_evolves (.newInstance machine id) rfl rfl, rfl⟩, ?_⟩
    rintro _ _ ⟨⟩
    refine ⟨⟨.refl _, rfl⟩, ?_⟩
    rintro _ _ ⟨⟩
    dsimp only
    split
    · trivial
    · next initializer hmethod =>
      refine ⟨⟨bindThis_proceeds initializer _, rfl⟩, ?_⟩
      rintro _ _ ⟨⟩
      exact .ask (.bound hseen (.initializer hmethod) rfl rfl (scope_lt_bindThis initializer _))
        fun _ _ => trivial
  | _ => exact .lastAct ⟨.refl machine, rfl⟩

theorem invoke_steady {room : Nat} {closure : Closure} {args : List Value}
    (hparams : ∀ param ∈ closure.declaration.params, IsPlain param.lexeme) :
    (Task.script (.invoke room closure args)).Steady seen machine := by
  obtain ⟨hbind, hcurrent⟩ : (machine.newScope closure.scope).2.Proceeds seen
      (callScope closure args machine).2 ∧ _ := callScope_proceeds hparams args
  refine ⟨⟨(newScope_proceeds closure.scope).trans hbind, hcurrent⟩, ?_⟩
  rintro _ _ ⟨⟩
  refine ⟨(plain_newScope closure.scope).evolve hbind.evolves, trivial, fun completion _ _ => ?_⟩
  exact .lastAct (callResult_proceeds closure completion)

theorem lookUp_done {name : Token} {value : Value} {after : Machine}
    (h : lookUp name machine = .done value after) : after = machine := by
  unfold lookUp at h
  split at h
  · split at h <;> cases h
    rfl
  · split at h <;> cases h
    rfl

theorem checkSuperclass_done {token : Token} {value : Value} {above : Nat} {after : Machine}
    (h : checkSuperclass token value machine = .done above after) :
    value = .class above ∧ after = machine := by
  cases value with
  | «class» id =>
    cases h
    exact ⟨rfl, rfl⟩
  | _ => cases h

theorem stmtScript_steady {room : Nat} {tree : Stmt} (hseen : seen (.stmt room tree) machine)
    (hplain : ∀ name ∈ Task.binds (.stmt room tree), IsPlain name.lexeme)
    (hcurrent : machine.Plain machine.current) : (stmtScript room tree).Steady seen machine := by
  cases tree with
  | expression value => exact .ask trivial fun _ _ => trivial
  | print value =>
    exact .ask trivial fun value _ => .act (printValue_proceeds value) fun _ _ => trivial
  | var name init =>
    have hname : IsPlain name.lexeme := hplain name (List.mem_singleton_self name)
    cases init with
    | none => exact .act (declare_proceeds hname .nil) fun _ _ => trivial
    | some init =>
      exact .ask trivial fun value _ => .act (declare_proceeds hname value) fun _ _ => trivial
  | block body =>
    refine ⟨⟨newScope_proceeds machine.current, rfl⟩, ?_⟩
    rintro _ _ ⟨⟩
    exact ⟨plain_newScope machine.current, trivial, fun _ _ _ => trivial⟩
  | ifElse condition yes no =>
    refine .ask trivial fun value _ => ?_
    split
    · exact .last trivial
    · cases no with
      | some no => exact .last trivial
      | none => trivial
  | whileLoop condition body => exact .last trivial
  | function declaration =>
    have hname := hplain declaration.name (List.mem_singleton_self _)
    exact .act (declareFunction_proceeds hname hcurrent) fun _ _ => trivial
  | returns keyword value =>
    cases value with
    | none => trivial
    | some value => exact .ask trivial fun _ _ => trivial
  | classDef name superclass methods =>
    cases superclass with
    | none => exact .ask ⟨room, none, hseen, rfl⟩ fun _ _ => trivial
    | some superclass =>
      refine ⟨trivial, fun value after _ hlookUp => ?_⟩
      obtain rfl := lookUp_done hlookUp
      refine ⟨checkSuperclass_proceeds superclass value, fun above last hcheck => ?_⟩
      obtain ⟨rfl, rfl⟩ := checkSuperclass_done hcheck
      exact .ask ⟨room, some superclass, hseen, congrArg some hlookUp⟩ fun _ _ => trivial

/-- The script of a task that binds plain names, in a plain scope. -/
theorem script_steady {task : Task} (hseen : seen task machine)
    (hbinds : ∀ name ∈ task.binds, IsPlain name.lexeme) (htraced : machine.Traced seen)
    (hcurrent : machine.Plain machine.current) : task.script.Steady seen machine := by
  match task with
  | .expr room tree => exact exprScript_steady hseen
  | .args room [] => trivial
  | .args room (tree :: trees) => exact .ask trivial fun _ _ => .ask trivial fun _ _ => trivial
  | .call room paren callee values => exact callScript_steady hseen htraced
  | .invoke room closure values => exact invoke_steady hbinds
  | .stmt room tree => exact stmtScript_steady hseen hbinds hcurrent
  | .stmts room [] => trivial
  | .stmts room (first :: rest) =>
    refine .ask trivial fun completion _ => ?_
    cases completion with
    | normal => exact .last trivial
    | returned value => trivial
  | .loop room condition body =>
    refine .ask trivial fun value _ => ?_
    split
    · refine .ask trivial fun completion _ => ?_
      cases completion with
      | normal => exact .last trivial
      | returned value => trivial
    · trivial
  | .assign name value =>
    exact .lastAct (assign_proceeds (hbinds name (List.mem_singleton_self name)) value)
  | .property object name => exact .lastAct (getProperty_proceeds hseen)
  | .classDef name superclass methods =>
    exact .lastAct (declareClass_proceeds hseen (hbinds name (List.mem_singleton_self name)))

/-! ## Runs -/

theorem Task.returns_of_run {fuel : Nat} {task : Task} {value : task.Result} {after : Machine}
    (h : task.run fuel machine = .done value after) : task.Returns machine value after := by
  unfold Task.Returns
  split
  · cases fuel with
    | zero => cases h
    | succ fuel => exact h
  · trivial

/-- Every run is a tour through its visits, of which the first is that of its own task. -/
theorem Task.run_tour : ∀ (fuel : Nat) {task : Task} {machine : Machine},
    (∀ visit ∈ visited fuel task machine, seen visit.1 visit.2 ∧
      ∀ name ∈ visit.1.binds, IsPlain name.lexeme) →
    machine.Traced seen → machine.Plain machine.current → task.Fits seen machine →
    Tour seen machine machine (visited fuel task machine) (task.run fuel machine)
  | 0, task, machine, hvisits, htraced, hplain, hfits => by
    obtain ⟨hseen, hbinds⟩ := hvisits _ List.mem_cons_self
    have hsteady := script_steady hseen hbinds htraced hplain
    rcases task.run_zero with hnone | ⟨hone, hreach⟩
    · rw [hnone]
      exact .outOfFuel (.cons hplain hfits hsteady.stride (.nil (by simp)))
    · -- a task of one step, which comes to no other task
      have hnil : task.script.reached (Task.run 0) machine = [] :=
        List.eq_nil_iff_forall_not_mem.2 fun visit hvisit =>
          hreach _ _ _ _ (Script.reaches_of_mem hvisit)
      have htour : Tour seen (task.stride machine) machine
          ((task.script.reached (Task.run 0) machine).flatMap fun visit =>
            visited 0 visit.1 visit.2) (task.script.exec (Task.run 0) machine) :=
        Script.tours (fun _ _ _ _ => Task.returns_of_run) (visited 0) task.script machine hsteady
          htraced hplain (by simp [hnil])
      rw [hnil, ← Task.run_succ, ← hone] at htour
      obtain ⟨hcourse, hcurrent⟩ := htour
      exact ⟨.cons hplain hfits hsteady.stride hcourse, hcurrent⟩
  | fuel + 1, task, machine, hvisits, htraced, hplain, hfits => by
    obtain ⟨⟨hseen, hbinds⟩, hrest⟩ := List.forall_mem_cons.1 hvisits
    have hsteady := script_steady hseen hbinds htraced hplain
    obtain ⟨hcourse, hcurrent⟩ := Script.tours (fun _ _ _ _ => Task.returns_of_run) (visited fuel)
      task.script machine hsteady htraced hplain fun visit hvisit =>
        run_tour fuel fun other hother => hrest other (List.mem_flatMap.2 ⟨visit, hvisit, hother⟩)
    rw [← Task.run_succ] at hcourse hcurrent
    exact ⟨.cons hplain hfits hsteady.stride hcourse, hcurrent⟩

end Moth.Eval
