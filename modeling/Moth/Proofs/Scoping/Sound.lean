import Moth.Proofs.Scoping.Steps
/-!
# Runs keep to the scopes of the program text

A task is ready on a machine if the chain of scopes matches the place where its tree stands.
The script of a ready task asks only for ready tasks and is never stuck, and so no run is.
-/

namespace Moth

def Completion.Valid (machine : Machine) : Completion → Prop
  | .normal => True
  | .returned value => value.Valid machine

namespace Eval

/-- The current scope matches a place where the events are known. -/
def Stands (past : Past) (machine : Machine) (events : Place → List Event) : Prop :=
  ∃ place : Place, Chain past machine.scopes machine.current place.frames ∧
    ∀ event ∈ events place, past.Knows event

def Task.Ready (past : Past) (machine : Machine) : Task → Prop
  | .expr _ tree => Stands past machine tree.events
  | .args _ trees => Stands past machine (argEvents · trees)
  | .call _ _ callee values =>
    callee.Valid machine ∧ (∀ value ∈ values, value.Valid machine) ∧
      arity? machine callee = some values.length
  | .invoke _ closure values => closure.Sound past machine.scopes ∧
    (∀ value ∈ values, value.Valid machine) ∧
    closure.declaration.params.length = values.length
  | .stmt _ tree => Stands past machine tree.events
  | .stmts _ body => Stands past machine (eventsAll · body)
  | .loop _ condition body =>
    Stands past machine fun place => condition.events place ++ body.events place
  | .assign name value => value.Valid machine ∧
    Stands past machine fun place => [.reference ⟨.assign, name, name.lexeme, place⟩]
  | .property object _ => object.Valid machine
  | .classDef name superclass methods => IsPlain name.lexeme ∧
    (∀ above, superclass = some above → above < machine.classes.size) ∧
    ∃ (inClass : ClassContext) (token : Option Token), token.isSome = superclass.isSome ∧
      Stands past machine fun place =>
        methodEvents inClass (place.inClass name token methods) methods

def Task.Gives (past : Past) (start : Machine) : (task : Task) → task.Result → Machine → Prop
  | .expr .., value, after | .call .., value, after | .invoke .., value, after
  | .property .., value, after => Value.Valid after value
  | .args .., values, after => ∀ value ∈ values, Value.Valid after value
  | .stmt _ tree, completion, after => Completion.Valid after completion ∧
    (completion = .normal → ∀ name, tree.declared? = some name → Declares past start name after)
  | .stmts .., completion, after | .loop .., completion, after => Completion.Valid after completion
  | .assign .., _, _ => True
  | .classDef name _ _, _, after => Declares past start name after

variable {past : Past} {machine start after : Machine} {events more : Place → List Event}
  {name : Token}

/-! ## Standing -/

namespace Stands

theorem mono (h : Stands past machine events)
    (hmore : ∀ place, ∀ event ∈ more place, event ∈ events place) : Stands past machine more := by
  obtain ⟨place, hchain, hevents⟩ := h
  exact ⟨place, hchain, fun event hevent => hevents event (hmore place event hevent)⟩

theorem left (h : Stands past machine fun place => events place ++ more place) :
    Stands past machine events :=
  h.mono fun _ _ hevent => List.mem_append_left _ hevent

theorem right (h : Stands past machine fun place => events place ++ more place) :
    Stands past machine more :=
  h.mono fun _ _ hevent => List.mem_append_right _ hevent

theorem extend (h : Stands past machine events) (hextends : machine.Extends after)
    (hcurrent : after.current = machine.current) : Stands past after events := by
  obtain ⟨place, hchain, hevents⟩ := h
  exact ⟨place, hcurrent ▸ hchain.grow hextends.scopes, hevents⟩

end Stands

/-! ## One step of a script after the other -/

section

variable {α β : Type} {G : α → Machine → Prop}

abbrev Pre (past : Past) (task : Task) (machine : Machine) : Prop :=
  machine.Sound past ∧ task.Ready past machine

abbrev Post (past : Past) (task : Task) (machine : Machine) (outcome : Outcome task.Result) :
    Prop :=
  Ended past machine (task.Gives past machine) outcome

abbrev Keeps (past : Past) (start : Machine) (G : α → Machine → Prop) (script : Script α)
    (machine : Machine) : Prop :=
  script.Meets (Pre past) (Post past) (Ended past start G) machine

structure Follows (past : Past) (start machine : Machine) : Prop where
  onward : start.Onward past machine
  current : machine.current = start.current

theorem Follows.refl (h : machine.Sound past) : Follows past machine machine := ⟨h.stay, rfl⟩

theorem Follows.trans (h : Follows past start machine) (h' : Follows past machine after) :
    Follows past start after :=
  ⟨h.onward.trans h'.onward, h'.current.trans h.current⟩

theorem Ended.leads {start : Machine} {outcome : Outcome β} {R : β → Machine → Prop}
    {next : β → Machine → Prop} (h : Ended past machine R outcome)
    (hstart : Follows past start machine)
    (hnext : ∀ value after, Follows past machine after → R value after → next value after) :
    outcome.Leads (Ended past start G) next := by
  cases outcome with
  | done value after => exact hnext value after ⟨h.1, h.2.1⟩ h.2.2
  | failed failure after => exact ⟨hstart.onward.trans h.1, h.2.trans hstart.current⟩
  | stuck after => exact h
  | outOfFuel => trivial

theorem Keeps.done {value : α} (hstart : Follows past start machine) (h : G value machine) :
    Keeps past start G (.done value) machine :=
  ⟨hstart.onward, hstart.current, h⟩

theorem Keeps.act {step : Run β} {next : β → Script α} {R : β → Machine → Prop}
    (hstart : Follows past start machine) (h : Ended past machine R (step machine))
    (hnext : ∀ value after, Follows past machine after → R value after →
      Keeps past start G (next value) after) : Keeps past start G (.act step next) machine :=
  h.leads hstart hnext

theorem Keeps.ask {task : Task} {next : task.Result → Script α}
    (hstart : Follows past start machine) (hready : task.Ready past machine)
    (hnext : ∀ value after, Follows past machine after → task.Gives past machine value after →
      Keeps past start G (next value) after) : Keeps past start G (.ask task next) machine :=
  ⟨⟨hstart.onward.sound, hready⟩, fun _ houtcome => houtcome.leads hstart hnext⟩

/-- The task is run in another scope, and the way goes on in the one before. -/
theorem Keeps.within {task : Task} {next : task.Result → Script α} {scope : Nat}
    (hstart : Follows past start machine)
    (hready : task.Ready past { machine with current := scope })
    (hnext : ∀ value after, Follows past machine { after with current := machine.current } →
      task.Gives past { machine with current := scope } value after →
      Keeps past start G (next value) { after with current := machine.current }) :
    Keeps past start G (.within scope task next) machine := by
  have hinside : machine.Onward past { machine with current := scope } :=
    hstart.onward.sound.aside rfl rfl rfl rfl rfl
  have hback {after : Machine} (h : Machine.Onward past { machine with current := scope } after) :
      machine.Onward past { after with current := machine.current } :=
    (hinside.trans h).trans (h.sound.aside rfl rfl rfl rfl rfl)
  refine ⟨⟨hinside.sound, hready⟩, fun outcome houtcome => ?_⟩
  cases outcome with
  | done value after => exact hnext value after ⟨hback houtcome.1, rfl⟩ houtcome.2.2
  | failed failure after =>
    exact ⟨hstart.onward.trans (hback houtcome.1), hstart.current⟩
  | stuck after => exact houtcome
  | outOfFuel => trivial

theorem Keeps.fail {token : Token} {fault : RuntimeFault} {next : β → Script α}
    (hstart : Follows past start machine) :
    Keeps past start G (.act (Run.fail token fault) next) machine :=
  ⟨hstart.onward, hstart.current⟩

/-- The last task of a script gives the result. -/
theorem Keeps.last {task : Task} {G : task.Result → Machine → Prop}
    (hstart : Follows past start machine) (hready : task.Ready past machine)
    (h : ∀ value after, Follows past machine after → task.Gives past machine value after →
      G value after) : Keeps past start G (.ask task .done) machine :=
  .ask hstart hready fun value after hafter hvalue =>
    .done (hstart.trans hafter) (h value after hafter hvalue)

theorem Keeps.lastAct {step : Run α} {R : α → Machine → Prop}
    (hstart : Follows past start machine) (h : Ended past machine R (step machine))
    (hlast : ∀ value after, Follows past machine after → R value after → G value after) :
    Keeps past start G (.act step .done) machine :=
  .act hstart h fun value after hafter hvalue =>
    .done (hstart.trans hafter) (hlast value after hafter hvalue)

end

/-! ## Expressions -/

theorem exprScript_keeps (h : machine.Sound past) {room : Nat} {tree : Expr}
    (hsees : past.Sees (.expr room tree) machine) (hready : Stands past machine tree.events) :
    Keeps past machine (fun value after => Value.Valid after value) (exprScript room tree)
      machine := by
  have hstart := Follows.refl h
  cases tree with
  | literal value => cases value <;> exact .done hstart trivial
  | grouping inner => exact .last hstart hready fun _ _ _ hvalue => hvalue
  | unary op mark right =>
    refine .ask hstart hready fun value after hafter _ => ?_
    exact .lastAct hafter (lift_ended hafter.onward.sound mark fun _ => valid_of_apply_unary)
      fun _ _ _ hvalue => hvalue
  | binary op mark left right =>
    refine .ask hstart hready.left fun value after hafter _ => ?_
    have hright := hready.right.extend hafter.onward.grows hafter.current
    refine .ask hafter hright fun value' after' hafter' _ => ?_
    have hboth := hafter.trans hafter'
    exact .lastAct hboth (lift_ended hboth.onward.sound mark fun _ => valid_of_apply_binary)
      fun _ _ _ hvalue => hvalue
  | logical op mark left right =>
    refine .ask hstart hready.left fun value after hafter hvalue => ?_
    have hright := hready.right.extend hafter.onward.grows hafter.current
    split
    · exact .done hafter hvalue
    · exact .last hafter hright fun _ _ _ hvalue => hvalue
  | ref name =>
    obtain ⟨place, hchain, hevents⟩ := hready
    obtain ⟨⟨hplain, hname⟩, hknown⟩ := List.forall_mem_singleton.1 hevents
    exact .lastAct hstart (lookUp_ended h hchain (hknown _ rfl) (by simp) rfl)
      fun _ _ _ hvalue => hvalue
  | assign name value =>
    refine .ask hstart hready.left fun value after hafter hvalue => ?_
    have hname := hready.right.extend hafter.onward.grows hafter.current
    refine .ask hafter ⟨hvalue, hname⟩ fun _ last hlast _ => ?_
    exact .done (hafter.trans hlast) (Value.Valid.extend hvalue hlast.onward.grows)
  | call callee paren args =>
    refine .ask hstart hready.left fun callee after hafter hcallee => ?_
    have hargs := hready.right.extend hafter.onward.grows hafter.current
    refine .ask hafter hargs fun values after' hafter' hvalues => ?_
    have hboth := hafter.trans hafter'
    refine .act hboth (checkCall_ended hboth.onward.sound paren callee values.length) ?_
    rintro _ last hlast ⟨rfl, harity⟩
    cases room with
    | zero => exact .fail hboth
    | succ room =>
      exact .last hboth ⟨Value.Valid.extend hcallee hafter'.onward.grows, hvalues, harity⟩
        fun _ _ _ hvalue => hvalue
  | get object name =>
    refine .ask hstart hready fun value after hafter hvalue => ?_
    exact .last hafter hvalue fun _ _ _ hvalue => hvalue
  | set object name value =>
    refine .ask hstart hready.right fun object after hafter _ => ?_
    have hvalue := hready.left.extend hafter.onward.grows hafter.current
    cases object with
    | «instance» id =>
      refine .ask hafter hvalue fun value after' hafter' hvalue => ?_
      have hboth := hafter.trans hafter'
      have hset := hboth.onward.sound.setField id name.lexeme hvalue
      refine .act (R := fun _ last => Value.Valid last value) hboth
        ⟨hset, rfl, hvalue.extend hset.grows⟩ fun _ last hlast hvalue => ?_
      exact .done (hboth.trans hlast) hvalue
    | _ => exact .fail hafter
  | this keyword =>
    obtain ⟨place, hchain, hevents⟩ := hready
    obtain ⟨⟨-, hlexeme⟩, hknown⟩ := List.forall_mem_singleton.1 hevents
    exact .lastAct hstart (lookUp_ended h hchain (hknown _ rfl) (by simp) hlexeme)
      fun _ _ _ hvalue => hvalue
  | super keyword method =>
    obtain ⟨place, hchain, hevents⟩ := hready
    obtain ⟨-, hknown⟩ := List.forall_mem_singleton.1 hevents
    exact .lastAct hstart (getSuper_ended h hchain (hknown _ rfl) hsees)
      fun _ _ _ hvalue => hvalue

/-! ## Calls -/

theorem callScript_keeps (h : machine.Sound past) {room : Nat} {paren : Token} {callee : Value}
    {args : List Value} (hsees : past.Sees (.call room paren callee args) machine)
    (hcallee : callee.Valid machine) (hargs : ∀ arg ∈ args, arg.Valid machine)
    (harity : arity? machine callee = some args.length) :
    Keeps past machine (fun value after => Value.Valid after value)
      (callScript room paren args callee) machine := by
  have hstart := Follows.refl h
  cases callee with
  | native f =>
    exact .lastAct hstart (native_ended h (Option.some.inj harity) paren) fun _ _ _ hvalue => hvalue
  | function id =>
    refine .act hstart (closureOf_ended h harity) ?_
    rintro closure after hafter ⟨rfl, hclosure, hlength⟩
    exact .last hstart ⟨hclosure, hargs, hlength⟩ fun _ _ _ hvalue => hvalue
  | «class» id =>
    have hnew := h.newInstance hcallee
    have hself : Value.Valid (machine.newInstance id).2 (.instance machine.instances.size) := by
      simp [Value.Valid, Machine.newInstance]
    refine .act (R := fun self after => self = machine.instances.size ∧
      after = (machine.newInstance id).2) hstart ⟨hnew, rfl, rfl, rfl⟩ ?_
    rintro _ _ hafter ⟨rfl, rfl⟩
    refine .act (R := fun found after => found = after ∧ after = (machine.newInstance id).2)
      hafter ⟨hnew.sound.stay, rfl, rfl, rfl⟩ ?_
    rintro _ _ - ⟨rfl, rfl⟩
    cases hinit : (machine.newInstance id).2.method? id "init" with
    | none => exact .done hafter hself
    | some initializer =>
      obtain ⟨hbind, hbound⟩ := bindThis_sound hnew.sound (unbound_of_method? hnew.sound hinit)
        hself fun name methods hmem => hsees _ _ (.this (.initializer hinit) hmem)
      have hlength : initializer.declaration.params.length = args.length := by
        have hmethod : machine.method? id "init" = some initializer := hinit
        simpa [arity?, hmethod] using harity
      refine .act (R := fun bound after => bound.Sound past after.scopes ∧
        bound.declaration = initializer.declaration) hafter ⟨hbind, rfl, hbound, rfl⟩ ?_
      rintro bound after' hafter' ⟨hbound, hdeclaration⟩
      have hboth := hafter.trans hafter'
      have hready : Task.Ready past after' (.invoke room bound args) :=
        ⟨hbound, fun arg harg => (hargs arg harg).extend hboth.onward.grows, hdeclaration ▸ hlength⟩
      refine .ask hboth hready fun _ last hlast _ => ?_
      exact .done (hboth.trans hlast)
        (hself.extend (hafter'.onward.grows.trans hlast.onward.grows))
  | _ => cases harity

/-! ## Statements -/

theorem invoke_keeps (h : machine.Sound past) {room : Nat} {closure : Closure} {args : List Value}
    (hsees : past.Sees (.invoke room closure args) machine)
    (hready : Task.Ready past machine (.invoke room closure args)) :
    Keeps past machine (fun value after => Value.Valid after value)
      (Task.script (.invoke room closure args)) machine := by
  obtain ⟨hclosure, hargs, hlength⟩ := hready
  obtain ⟨honward, hcurrent, place, hchain, hbody⟩ :=
    callScope_sound h hclosure hargs hlength hsees
  refine .act (R := fun scope after => scope = (callScope closure args machine).1 ∧
    after = (callScope closure args machine).2) (.refl h) ⟨honward, hcurrent, rfl, rfl⟩ ?_
  rintro _ _ hafter ⟨rfl, rfl⟩
  refine .within hafter ⟨place, hchain, hbody⟩ fun completion last hlast hcompletion => ?_
  have hboth := hafter.trans hlast
  refine .lastAct hboth (callResult_ended hboth.onward.sound
    (hclosure.grow hboth.onward.grows.scopes) ?_) fun _ _ _ hvalue => hvalue
  rintro value rfl
  exact hcompletion

theorem printValue_ended (h : machine.Sound past) (value : Value) :
    Ended past machine (fun _ _ => True) (printValue value machine) :=
  ⟨h.aside rfl rfl rfl rfl rfl, rfl, trivial⟩

theorem checkSuperclass_ended (h : machine.Sound past) (token : Token) (value : Value) :
    Ended past machine (fun above after => after = machine ∧ value = .class above)
      (checkSuperclass token value machine) := by
  cases value with
  | «class» id => exact ⟨h.stay, rfl, rfl, rfl⟩
  | _ => exact ⟨h.stay, rfl⟩

/-- A statement that declares no name gives a completion and no more. -/
theorem gives_of_valid {room : Nat} {tree : Stmt} (hdeclared : tree.declared? = none)
    {completion : Completion} (h : completion.Valid after) :
    Task.Gives past start (.stmt room tree) completion after :=
  ⟨h, fun _ name hname => by rw [hdeclared] at hname; cases hname⟩

/-- The name that a statement declares is bound where the statement ends. -/
theorem gives_of_declares {room : Nat} {tree : Stmt} {name : Token}
    (hdeclared : tree.declared? = some name) (h : Declares past start name after) :
    Task.Gives past start (.stmt room tree) .normal after :=
  ⟨trivial, fun _ other hother => by rw [hdeclared] at hother; cases hother; exact h⟩

theorem Declares.before (h : Declares past machine name after)
    (hstart : Follows past start machine) : Declares past start name after :=
  fun place hchain => hstart.current ▸
    h place (hstart.current ▸ hchain.grow hstart.onward.grows.scopes)

theorem stmtScript_keeps (h : machine.Sound past) {room : Nat} {tree : Stmt}
    (hsees : past.Sees (.stmt room tree) machine) (hready : Stands past machine tree.events) :
    Keeps past machine (Task.Gives past machine (.stmt room tree)) (stmtScript room tree)
      machine := by
  have hstart := Follows.refl h
  cases tree with
  | expression value =>
    refine .ask hstart hready fun _ after hafter _ => ?_
    exact .done hafter (gives_of_valid rfl trivial)
  | print value =>
    refine .ask hstart hready fun value after hafter _ => ?_
    refine .act hafter (printValue_ended hafter.onward.sound value) fun _ last hlast _ => ?_
    exact .done (hafter.trans hlast) (gives_of_valid rfl trivial)
  | var name init =>
    obtain ⟨place, hchain, hevents⟩ := hready
    obtain ⟨⟨hplain, -⟩, hinit⟩ := List.forall_mem_cons.1 hevents
    cases init with
    | none =>
      refine .act hstart (declare_ended h hplain trivial) fun _ after hafter hdeclares => ?_
      exact .done hafter (gives_of_declares rfl hdeclares)
    | some init =>
      refine .ask hstart ⟨_, hchain.begin name, hinit⟩ fun value after hafter hvalue => ?_
      refine .act hafter (declare_ended hafter.onward.sound hplain hvalue)
        fun _ last hlast hdeclares => ?_
      exact .done (hafter.trans hlast) (gives_of_declares rfl (hdeclares.before hafter))
  | block body =>
    obtain ⟨place, hchain, hevents⟩ := hready
    refine .act (R := fun scope after => scope = machine.scopes.next ∧
      after = (machine.newScope machine.current).2) hstart
      ⟨h.newScope (h.lt_next hchain), rfl, rfl, rfl⟩ ?_
    rintro _ _ hafter ⟨rfl, rfl⟩
    refine .within hafter ⟨place.enter (.block body) [], ?_, hevents⟩ ?_
    · exact hchain.child (fun _ _ heq => by cases heq) (hsees _ _ .block)
    · exact fun completion last hlast hcompletion =>
        .done (hafter.trans hlast) (gives_of_valid rfl hcompletion)
  | ifElse condition yes no =>
    refine .ask hstart hready.left fun value after hafter _ => ?_
    have hbranches := hready.right.extend hafter.onward.grows hafter.current
    split
    · exact .last hafter hbranches.left fun _ _ _ hvalue => gives_of_valid rfl hvalue.1
    · cases no with
      | some no =>
        exact .last hafter hbranches.right fun _ _ _ hvalue => gives_of_valid rfl hvalue.1
      | none => exact .done hafter (gives_of_valid rfl trivial)
  | whileLoop condition body =>
    exact .last hstart hready fun _ _ _ hvalue => gives_of_valid rfl hvalue
  | function declaration =>
    obtain ⟨place, hchain, hevents⟩ := hready
    obtain ⟨⟨hplain, -⟩, hbody⟩ := List.forall_mem_cons.1 hevents
    refine .act hstart (declareFunction_ended h hchain hplain hbody)
      fun _ after hafter hdeclares => ?_
    exact .done hafter (gives_of_declares rfl hdeclares)
  | returns keyword value =>
    obtain ⟨place, hchain, hevents⟩ := hready
    obtain ⟨-, hvalue⟩ := List.forall_mem_cons.1 hevents
    cases value with
    | none => exact .done hstart (gives_of_valid rfl trivial)
    | some value =>
      refine .ask hstart ⟨place, hchain, hvalue⟩ fun value after hafter hvalue => ?_
      exact .done hafter (gives_of_valid rfl hvalue)
  | classDef name superclass methods =>
    obtain ⟨place, hchain, hevents⟩ := hready
    obtain ⟨⟨hplain, -⟩, hrest⟩ := List.forall_mem_cons.1 hevents
    obtain ⟨hsuperclass, hmethods⟩ := List.forall_mem_append.1 hrest
    cases superclass with
    | none =>
      refine .ask hstart ⟨hplain, nofun, _, none, rfl, place, hchain, hmethods⟩
        fun _ after hafter hdeclares => ?_
      exact .done hafter (gives_of_declares rfl hdeclares)
    | some superclass =>
      obtain ⟨hformed, hknown⟩ := List.forall_mem_singleton.1 hsuperclass
      have hvalue : Stands past machine (Expr.ref superclass).events := by
        refine ⟨place.set name false, hchain.begin name, List.forall_mem_singleton.2 ?_⟩
        exact ⟨hformed.2, hknown⟩
      refine .ask hstart hvalue fun value after hafter hvalid => ?_
      refine .act hafter (checkSuperclass_ended hafter.onward.sound superclass value) ?_
      rintro above _ - ⟨rfl, rfl⟩
      refine .ask hafter ⟨hplain, ?_, _, some superclass, rfl, place, ?_, hmethods⟩
        fun _ last hlast hdeclares => ?_
      · rintro _ ⟨⟩
        exact hvalid
      · exact hafter.current ▸ hchain.grow hafter.onward.grows.scopes
      · exact .done (hafter.trans hlast) (gives_of_declares rfl (Declares.before hdeclares hafter))

/-- The chain matches the place behind a statement that has been executed. -/
theorem chain_after {room : Nat} {tree : Stmt} {place : Place}
    (hchain : Chain past machine.scopes machine.current place.frames)
    (hafter : Follows past machine after)
    (hgives : Task.Gives past machine (.stmt room tree) .normal after) :
    Chain past after.scopes after.current (place.after tree).frames := by
  rw [hafter.current]
  unfold Place.after
  split
  · next name hname => exact hgives.2 rfl name hname place hchain
  · exact hchain.grow hafter.onward.grows.scopes

/-! ## All tasks -/

theorem script_keeps (h : machine.Sound past) {task : Task} (hsees : past.Sees task machine)
    (hready : task.Ready past machine) :
    Keeps past machine (task.Gives past machine) task.script machine := by
  have hstart := Follows.refl h
  match task with
  | .expr room tree => exact exprScript_keeps h hsees hready
  | .args room [] => exact .done hstart fun _ hmem => by cases hmem
  | .args room (tree :: trees) =>
    refine .ask hstart hready.left fun value after hafter hvalue => ?_
    have hrest := hready.right.extend hafter.onward.grows hafter.current
    refine .ask hafter hrest fun values last hlast hvalues => ?_
    exact .done (hafter.trans hlast)
      (List.forall_mem_cons.2 ⟨Value.Valid.extend hvalue hlast.onward.grows, hvalues⟩)
  | .call room paren callee values =>
    exact callScript_keeps h hsees hready.1 hready.2.1 hready.2.2
  | .invoke room closure values => exact invoke_keeps h hsees hready
  | .stmt room tree => exact stmtScript_keeps h hsees hready
  | .stmts room [] => exact .done hstart trivial
  | .stmts room (first :: rest) =>
    obtain ⟨place, hchain, hevents⟩ := hready
    obtain ⟨hfirst, hrest⟩ := List.forall_mem_append.1 hevents
    refine .ask hstart ⟨place, hchain, hfirst⟩ fun completion after hafter hgives => ?_
    cases completion with
    | normal =>
      exact .last hafter ⟨_, chain_after hchain hafter hgives, hrest⟩ fun _ _ _ hvalue => hvalue
    | returned value => exact .done hafter hgives.1
  | .loop room condition body =>
    refine .ask hstart hready.left fun value after hafter _ => ?_
    have hagain := hready.extend hafter.onward.grows hafter.current
    split
    · refine .ask hafter hagain.right fun completion after' hafter' hgives => ?_
      cases completion with
      | normal =>
        exact .last (hafter.trans hafter') (hagain.extend hafter'.onward.grows hafter'.current)
          fun _ _ _ hvalue => hvalue
      | returned value => exact .done (hafter.trans hafter') hgives.1
    · exact .done hafter trivial
  | .assign name value =>
    obtain ⟨hvalue, place, hchain, hevents⟩ := hready
    obtain ⟨⟨hplain, -⟩, hknown⟩ := List.forall_mem_singleton.1 hevents
    exact .lastAct hstart (assign_ended h hchain (hknown _ rfl) hplain hvalue)
      fun _ _ _ _ => trivial
  | .property object name =>
    exact .lastAct hstart (getProperty_ended h hready hsees) fun _ _ _ hvalue => hvalue
  | .classDef name superclass methods =>
    obtain ⟨hplain, habove, inClass, token, htoken, place, hchain, hevents⟩ := hready
    exact .lastAct hstart (declareClass_ended h hchain hplain htoken habove hevents hsees)
      fun _ _ _ hdeclares => hdeclares

/-- A run that is ready is not stuck, and all that it visits is ready. -/
theorem run_keeps (fuel : Nat) {task : Task} (h : machine.Sound past)
    (hready : task.Ready past machine)
    (hsees : ∀ other there, Visits fuel task machine other there → past.Sees other there) :
    Ended past machine (task.Gives past machine) (task.run fuel machine) ∧
      ∀ other there, Visits fuel task machine other there →
        there.Sound past ∧ other.Ready past there :=
  Task.run_meets (fun _ _ => trivial)
    (fun _ _ hseen hpre => script_keeps hpre.1 hseen hpre.2) fuel hsees ⟨h, hready⟩

end Eval

end Moth
