import Moth.Proofs.Execution.Code
import Moth.Proofs.Parsing.Relabelling
import Moth.Proofs.Resolving.Events
/-!
# Expressions at other places

Where an expression stands matters to its value only by the links of its references.  If it has
none it comes to the same wherever it is written: from the same machine to the same machine, with
the same value or the same fault.
-/

namespace Moth

variable {α β : Type} {links : Resolution}

/-- The outcomes are the same but for the token of a failure; a machine that goes on has the given
links. -/
inductive Outcome.Same (links : Resolution) : Outcome α → Outcome α → Prop where
  | done {value : α} {machine : Machine} : machine.resolution = links →
      Same links (.done value machine) (.done value machine)
  | failed {failure failure' : Failure} {machine : Machine} : failure'.fault = failure.fault →
      Same links (.failed failure machine) (.failed failure' machine)
  | stuck {machine : Machine} : Same links (.stuck machine) (.stuck machine)
  | outOfFuel : Same links .outOfFuel .outOfFuel

theorem Outcome.Same.symm {outcome other : Outcome α} (h : outcome.Same links other) :
    other.Same links outcome := by
  cases h with
  | done hlinks => exact .done hlinks
  | failed hfault => exact .failed hfault.symm
  | stuck => exact .stuck
  | outOfFuel => exact .outOfFuel

theorem Outcome.Same.trans {outcome other third : Outcome α} (h : outcome.Same links other)
    (h' : other.Same links third) : outcome.Same links third := by
  cases h with
  | done hlinks => exact h'
  | failed hfault =>
    cases h' with
    | failed hfault' => exact .failed (hfault'.trans hfault)
  | stuck => exact h'
  | outOfFuel => exact h'

namespace Run

def Same (links : Resolution) (run run' : Run α) : Prop :=
  ∀ machine : Machine, machine.resolution = links → (run machine).Same links (run' machine)

theorem Same.bind {run run' : Run α} {next next' : α → Run β} (h : Same links run run')
    (hnext : ∀ value, Same links (next value) (next' value)) :
    Same links (run >>= next) (run' >>= next') := by
  intro machine hlinks
  have hfirst := h machine hlinks
  show (Run.bind run next machine).Same links (Run.bind run' next' machine)
  unfold Run.bind
  generalize run machine = outcome, run' machine = outcome' at hfirst ⊢
  cases hfirst with
  | done hafter => exact hnext _ _ hafter
  | failed hfault => exact .failed hfault
  | stuck => exact .stuck
  | outOfFuel => exact .outOfFuel

theorem Same.pure (value : α) : Same links (pure value : Run α) (pure value) :=
  fun _ hlinks => .done hlinks

theorem Same.fail (token token' : Token) (fault : RuntimeFault) :
    Same links (Run.fail token fault : Run α) (Run.fail token' fault) :=
  fun _ _ => .failed rfl

theorem Same.lift (token token' : Token) (result : Except RuntimeFault α) :
    Same links (Run.lift token result) (Run.lift token' result) := by
  cases result with
  | ok value => exact .pure value
  | error fault => exact .fail token token' fault

end Run

namespace Eval

open Moth.Run

/-- A running program keeps the links of the machine. -/
theorem Task.run_same (fuel : Nat) (task : Task) : Same links (task.run fuel) (task.run fuel) := by
  rintro machine rfl
  have hrun := task.run_within_allCode fuel machine
  generalize task.run fuel machine = outcome at hrun
  cases outcome with
  | done value after => exact .done hrun.1.links
  | failed failure after => exact .failed rfl
  | stuck after => exact .stuck
  | outOfFuel => exact .outOfFuel

/-- What a native function does depends on the parenthesis of its call only when it fails. -/
theorem same_nativeCall (paren paren' : Token) (f : Native) (args : List Value) :
    Same links (f.call paren args) (f.call paren' args) := by
  intro machine hlinks
  obtain ⟨answer, -, hanswer⟩ := f.exists_answer machine.sources args
  rw [hanswer paren machine rfl, hanswer paren' machine rfl]
  cases answer with
  | gives value text rest => exact .done hlinks
  | fails fault => exact .failed rfl
  | stuck => exact .stuck

/-! ## References without links -/

def Unlinked (links : Resolution) (events : List Event) : Prop :=
  ∀ event ∈ events, ∀ reference, event.reference? = some reference →
    links.hops? reference.token = none

theorem unlinked_append {events others : List Event} :
    Unlinked links (events ++ others) ↔ Unlinked links events ∧ Unlinked links others :=
  List.forall_mem_append

theorem Unlinked.reference {reference : Reference}
    (h : Unlinked links [.reference reference]) : links.hops? reference.token = none :=
  h _ List.mem_cons_self reference rfl

section

variable {token token' : Token} (h : links.hops? token = none) (h' : links.hops? token' = none)
  (hlexeme : token'.lexeme = token.lexeme)

include h h' hlexeme

theorem same_lookUp : Same links (lookUp token) (lookUp token') := by
  intro machine hlinks
  unfold lookUp
  rw [hlinks, h, h', hlexeme]
  dsimp only
  split
  · exact .done hlinks
  · exact .failed rfl

theorem same_assign (value : Value) : Same links (assign token value) (assign token' value) := by
  intro machine hlinks
  unfold assign
  rw [hlinks, h, h', hlexeme]
  dsimp only
  split
  · exact .done hlinks
  · exact .failed rfl

end

theorem same_getSuper {token token' : Token} (h : links.hops? token = none)
    (h' : links.hops? token' = none) (method method' : Token) :
    Same links (getSuper token method) (getSuper token' method') := by
  intro machine hlinks
  unfold getSuper
  rw [hlinks, h, h']
  exact .stuck

theorem same_checkCall (paren paren' : Token) (callee : Value) (count : Nat) :
    Same links (checkCall paren callee count) (checkCall paren' callee count) := by
  intro machine hlinks
  unfold checkCall
  split
  · exact .failed rfl
  · split
    · exact .done hlinks
    · exact .failed rfl

theorem same_getProperty {name name' : Token} (hlexeme : name'.lexeme = name.lexeme)
    (object : Value) : Same links (getProperty object name) (getProperty object name') := by
  intro machine hlinks
  unfold getProperty
  rw [hlexeme]
  split
  · split
    · exact .stuck
    · split
      · exact .done hlinks
      · split
        · exact .done hlinks
        · exact .failed rfl
  · exact .failed rfl

theorem same_call (fuel room : Nat) (paren paren' : Token) (callee : Value) (args : List Value) :
    Same links (call fuel room paren callee args) (call fuel room paren' callee args) := by
  cases fuel with
  | zero => exact fun _ _ => .outOfFuel
  | succ fuel =>
    have hsame (callee : Value) : Same links (call (fuel + 1) room paren callee args) _ :=
      Task.run_same (fuel + 1) (.call room paren callee args)
    cases callee with
    | native f => exact same_nativeCall paren paren' f args
    | _ => exact hsame _

/-- The new tokens have the old lexemes, and none of them has a link. -/
structure Afresh (r : Relabelling) (links : Resolution) : Prop where
  lexeme : ∀ token, (r.label token).lexeme = token.lexeme
  hops : ∀ token, links.hops? (r.label token) = none

mutual

/-- An expression whose references have no links comes to the same with other tokens. -/
theorem same_evaluate {r : Relabelling} (hr : Afresh r links) (fuel room : Nat) (expr : Expr)
    (h : Unlinked links (expr.events .top)) :
    Same links (evaluate fuel room expr) (evaluate fuel room (expr.relabel r)) := by
  cases fuel with
  | zero => exact fun _ _ => .outOfFuel
  | succ fuel =>
    cases expr with
    | literal value => exact .pure _
    | grouping inner => exact same_evaluate hr fuel room inner h
    | unary op mark right =>
      exact .bind (same_evaluate hr fuel room right h) fun value => .lift _ _ _
    | binary op mark left right =>
      obtain ⟨hleft, hright⟩ := unlinked_append.1 h
      refine .bind (same_evaluate hr fuel room left hleft) fun value => ?_
      exact .bind (same_evaluate hr fuel room right hright) fun other => .lift _ _ _
    | logical op mark left right =>
      obtain ⟨hleft, hright⟩ := unlinked_append.1 h
      refine .bind (same_evaluate hr fuel room left hleft) fun value => ?_
      split
      · exact .pure value
      · exact same_evaluate hr fuel room right hright
    | ref name => exact same_lookUp h.reference (hr.hops name) (hr.lexeme name)
    | assign name value =>
      obtain ⟨hvalue, hname⟩ := unlinked_append.1 h
      refine .bind (same_evaluate hr fuel room value hvalue) fun value => ?_
      refine .bind (same_assign hname.reference (hr.hops name) (hr.lexeme name) value) fun _ => ?_
      exact .pure value
    | call callee paren args =>
      obtain ⟨hcallee, hargs⟩ := unlinked_append.1 h
      refine .bind (same_evaluate hr fuel room callee hcallee) fun callee => ?_
      refine .bind (same_evaluateArgs hr fuel room args hargs) fun values => ?_
      refine .bind (same_checkCall _ _ _ _) fun _ => ?_
      cases room with
      | zero => exact .fail _ _ _
      | succ room => exact same_call fuel room _ _ callee values
    | get object name =>
      refine .bind (same_evaluate hr fuel room object h) fun object => ?_
      exact same_getProperty (hr.lexeme name) object
    | set object name value =>
      obtain ⟨hvalue, hobject⟩ := unlinked_append.1 h
      refine .bind (same_evaluate hr fuel room object hobject) fun object => ?_
      cases object with
      | «instance» id =>
        refine .bind (same_evaluate hr fuel room value hvalue) fun value => ?_
        rw [hr.lexeme]
        exact fun machine hlinks => .done hlinks
      | _ => exact .fail _ _ _
    | this keyword => exact same_lookUp h.reference (hr.hops keyword) (hr.lexeme keyword)
    | super keyword method => exact same_getSuper h.reference (hr.hops keyword) _ _
termination_by fuel

theorem same_evaluateArgs {r : Relabelling} (hr : Afresh r links) (fuel room : Nat)
    (args : List Expr) (h : Unlinked links (argEvents .top args)) :
    Same links (evaluateArgs fuel room args) (evaluateArgs fuel room (relabelArgs r args)) := by
  cases fuel with
  | zero => exact fun _ _ => .outOfFuel
  | succ fuel =>
    cases args with
    | nil => exact .pure []
    | cons arg args =>
      obtain ⟨harg, hargs⟩ := unlinked_append.1 h
      refine .bind (same_evaluate hr fuel room arg harg) fun value => ?_
      refine .bind (same_evaluateArgs hr fuel room args hargs) fun values => ?_
      exact .pure (value :: values)
termination_by fuel

end

end Eval

end Moth
