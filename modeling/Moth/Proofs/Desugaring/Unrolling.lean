import Moth.Proofs.Execution.Fuel
import Moth.Proofs.Resolving.Events
import Moth.Tree.Grammar.Statement
/-!
# The meaning of a for statement

`ForLoop.run` says directly what a for statement does: the initializer is run once, in a scope
around the loop, and then the condition, the body and the increment take turns in that scope.  The
parser builds a tree of blocks and a while loop instead (`ForLoop.tree`).  This module takes that
tree apart into the same steps, in the scopes that the tree has (`ForLoop.unrolled`), so that the
two differ in nothing but scopes.
-/

namespace Moth

namespace Run

variable {α β : Type}

def inScope (body : Run α) : Run α := do
  let scope ← Run.make fun machine => machine.newScope machine.current
  Run.within scope body

/-- Repeats a step as long as a test gives something truthy and the step does not return, at most
so many times. -/
def repeats (test : Run Value) (step : Run Completion) : Nat → Run Completion
  | 0 => Run.outOfFuel
  | times + 1 => do
    let value ← test
    if value.isTruthy then
      match ← step with
      | .normal => repeats test step times
      | .returned value => return .returned value
    else return .normal

/-- Where the run ends, the other ends in the same way. -/
def Below (run more : Run α) : Prop := ∀ machine, run machine ≠ .outOfFuel →
  more machine = run machine

namespace Below

theorem refl (run : Run α) : run.Below run := fun _ _ => rfl

theorem of_eq {run more : Run α} (h : run = more) : run.Below more := h ▸ refl run

theorem trans {run more most : Run α} (h : run.Below more) (h' : more.Below most) :
    run.Below most := by
  intro machine hends
  rw [h' machine (by rwa [h machine hends]), h machine hends]

theorem outOfFuel (more : Run α) : (Run.outOfFuel : Run α).Below more := fun _ h => absurd rfl h

theorem bind {first more : Run α} {next nextMore : α → Run β} (hfirst : first.Below more)
    (hnext : ∀ value, (next value).Below (nextMore value)) :
    (first >>= next).Below (more >>= nextMore) :=
  fun machine h => Run.bind_agrees h (hfirst machine) fun value after => hnext value after

theorem inScope {body more : Run α} (h : body.Below more) :
    (Run.inScope body).Below (Run.inScope more) :=
  .bind (.refl _) fun scope => Run.within_agrees h scope

theorem ite {p : Prop} [Decidable p] {yes yesMore no noMore : Run α} (hyes : yes.Below yesMore)
    (hno : no.Below noMore) : (if p then yes else no).Below (if p then yesMore else noMore) := by
  split
  · exact hyes
  · exact hno

theorem repeats {test testMore : Run Value} {step stepMore : Run Completion}
    (htest : test.Below testMore) (hstep : step.Below stepMore) {times more : Nat}
    (hle : times ≤ more) :
    (Run.repeats test step times).Below (Run.repeats testMore stepMore more) := by
  induction times generalizing more with
  | zero => exact .outOfFuel _
  | succ times ih =>
    obtain ⟨more, rfl⟩ := Nat.exists_eq_add_of_le' (Nat.le_trans (Nat.le_add_left 1 times) hle)
    refine htest.bind fun value => .ite (hstep.bind fun completion => ?_) (.refl _)
    cases completion with
    | normal => exact ih (Nat.le_of_succ_le_succ hle)
    | returned value => exact .refl _

end Below

end Run

def Run.CompletesNormally (run : Run Completion) : Prop :=
  ∀ machine completion after, run machine = .done completion after → completion = .normal

theorem Run.CompletesNormally.normal : Run.CompletesNormally (pure .normal) := by
  rintro machine completion after ⟨⟩
  rfl

theorem Run.CompletesNormally.bind {α : Type} {first : Run α} {next : α → Run Completion}
    (h : ∀ value, (next value).CompletesNormally) : (first >>= next).CompletesNormally := by
  intro machine completion after hdone
  change Run.bind first next machine = _ at hdone
  unfold Run.bind at hdone
  split at hdone
  · exact h _ _ _ _ hdone
  all_goals cases hdone

structure ForLoop where
  init : Option Stmt
  condition : Option Expr
  increment : Option Expr
  body : Stmt

namespace ForLoop

open Eval

variable (loop : ForLoop) (fuel room : Nat)

def tree : Stmt := Grammar.forLoop loop.init loop.condition loop.increment loop.body

def start : Run Unit :=
  match loop.init with
  | none => pure ()
  | some init => do
    let _ ← execute fuel room init
    return ()

/-- A condition that is absent counts as true. -/
def test : Run Value :=
  match loop.condition with
  | none => pure (.bool true)
  | some condition => evaluate fuel room condition

def advance : Run Completion :=
  match loop.increment with
  | none => return .normal
  | some increment => do
    let _ ← evaluate fuel room increment
    return .normal

/-- One turn of the loop.  A body that returns ends it before the increment. -/
def turn : Run Completion := do
  match ← execute fuel room loop.body with
  | .normal => loop.advance fuel room
  | .returned value => return .returned value

/-- The direct meaning of the for statement. -/
def run : Run Completion := Run.inScope do
  loop.start fuel room
  Run.repeats (loop.test fuel room) (loop.turn fuel room) fuel

/-! ## The tree, unrolled -/

/-- One turn of the tree.  With an increment the body and the increment are in a block. -/
def inner : Run Completion :=
  match loop.increment with
  | none => execute fuel room loop.body
  | some _ => Run.inScope (loop.turn fuel room)

/-- The steps of the tree.  With an initializer the loop is in a block. -/
def unrolled : Run Completion :=
  match loop.init with
  | none => Run.repeats (loop.test fuel room) (loop.inner fuel room) fuel
  | some _ => Run.inScope do
    loop.start fuel room
    Run.repeats (loop.test fuel room) (loop.inner fuel room) fuel

end ForLoop

namespace Eval

variable (room : Nat)

theorem evaluate_below {fuel more : Nat} (hle : fuel ≤ more) (expr : Expr) :
    (evaluate fuel room expr).Below (evaluate more room expr) :=
  Task.run_le hle (.expr room expr)

theorem execute_below {fuel more : Nat} (hle : fuel ≤ more) (stmt : Stmt) :
    (execute fuel room stmt).Below (execute more room stmt) :=
  Task.run_le hle (.stmt room stmt)

/-- A loop is its test and its body, as often as there is fuel. -/
theorem repeatWhile_below (condition : Expr) (body : Stmt) {times fuel : Nat}
    (hle : times ≤ fuel) : (repeatWhile times room condition body).Below
      (Run.repeats (evaluate fuel room condition) (execute fuel room body) times) := by
  induction times with
  | zero => exact .outOfFuel _
  | succ times ih =>
    have hle' : times ≤ fuel := Nat.le_of_succ_le hle
    refine (evaluate_below room hle' condition).bind fun value =>
      .ite ((execute_below room hle' body).bind fun completion => ?_) (.refl _)
    cases completion with
    | normal => exact ih hle'
    | returned value => exact .refl _

theorem below_repeatWhile (condition : Expr) (body : Stmt) (times fuel : Nat) :
    (Run.repeats (evaluate fuel room condition) (execute fuel room body) times).Below
      (repeatWhile (fuel + times) room condition body) := by
  induction times with
  | zero => exact .outOfFuel _
  | succ times ih =>
    have hle : fuel ≤ fuel + times := Nat.le_add_right fuel times
    refine (evaluate_below room hle condition).bind fun value =>
      .ite ((execute_below room hle body).bind fun completion => ?_) (.refl _)
    cases completion with
    | normal => exact ih
    | returned value => exact .refl _

/-- To go on with a completion as it is. -/
theorem bind_completion (run : Run Completion) :
    (run >>= fun completion => match completion with
      | .normal => pure .normal
      | .returned value => pure (.returned value)) = run := by
  funext machine
  show Run.bind run _ machine = run machine
  unfold Run.bind
  cases run machine with
  | done completion after => cases completion <;> rfl
  | _ => rfl

/-- Two statements in a block. -/
theorem execute_pair (fuel : Nat) (first last : Stmt) :
    execute (fuel + 4) room (.block [first, last]) = Run.inScope (do
      match ← execute (fuel + 2) room first with
      | .normal => execute (fuel + 1) room last
      | .returned value => return .returned value) := by
  have hlast : executeAll (fuel + 2) room [last] = execute (fuel + 1) room last :=
    bind_completion (execute (fuel + 1) room last)
  show Run.inScope (executeAll (fuel + 3) room [first, last]) = _
  rw [← hlast]
  rfl

end Eval

namespace ForLoop

open Eval

variable (loop : ForLoop) {fuel more : Nat} (room : Nat)

/-- Whether the for statement could be read: the initializer declares a variable or is an
expression, and so never returns, and the body declares nothing. -/
structure Formed : Prop where
  init : ∀ init ∈ loop.init,
    (∃ name value, init = .var name value) ∨ ∃ value, init = .expression value
  body : loop.body.declared? = none

theorem start_below (hle : fuel ≤ more) : (loop.start fuel room).Below (loop.start more room) := by
  unfold start
  cases loop.init with
  | none => exact .refl _
  | some init => exact (execute_below room hle init).bind fun _ => .refl _

theorem test_below (hle : fuel ≤ more) : (loop.test fuel room).Below (loop.test more room) := by
  unfold test
  cases loop.condition with
  | none => exact .refl _
  | some condition => exact evaluate_below room hle condition

theorem advance_below (hle : fuel ≤ more) :
    (loop.advance fuel room).Below (loop.advance more room) := by
  unfold advance
  cases loop.increment with
  | none => exact .refl _
  | some increment => exact (evaluate_below room hle increment).bind fun _ => .refl _

theorem turn_below (hle : fuel ≤ more) : (loop.turn fuel room).Below (loop.turn more room) := by
  refine (execute_below room hle loop.body).bind fun completion => ?_
  cases completion with
  | normal => exact loop.advance_below room hle
  | returned value => exact .refl _

theorem inner_below (hle : fuel ≤ more) : (loop.inner fuel room).Below (loop.inner more room) := by
  unfold inner
  cases loop.increment with
  | none => exact execute_below room hle loop.body
  | some increment => exact (loop.turn_below room hle).inScope

theorem run_below (hle : fuel ≤ more) : (loop.run fuel room).Below (loop.run more room) :=
  ((loop.start_below room hle).bind fun _ =>
    (loop.test_below room hle).repeats (loop.turn_below room hle) hle).inScope

abbrev treeCondition : Expr := loop.condition.getD (.literal (.bool true))

def treeBody : Stmt :=
  match loop.increment with
  | none => loop.body
  | some increment => .block [loop.body, .expression increment]

theorem tree_of_none (h : loop.init = none) :
    loop.tree = .whileLoop loop.treeCondition loop.treeBody := by
  unfold tree Grammar.forLoop treeBody
  rw [h]
  cases loop.increment <;> rfl

theorem tree_of_some {init : Stmt} (h : loop.init = some init) :
    loop.tree = .block [init, .whileLoop loop.treeCondition loop.treeBody] := by
  unfold tree Grammar.forLoop treeBody
  rw [h]
  cases loop.increment <;> rfl

theorem condition_below (fuel : Nat) :
    (evaluate fuel room loop.treeCondition).Below (loop.test fuel room) := by
  unfold test treeCondition
  cases loop.condition with
  | none => cases fuel with
    | zero => exact .outOfFuel _
    | succ fuel => exact .refl _
  | some condition => exact .refl _

theorem below_condition (fuel : Nat) :
    (loop.test fuel room).Below (evaluate (fuel + 1) room loop.treeCondition) := by
  unfold test treeCondition
  cases loop.condition with
  | none => exact .refl _
  | some condition => exact evaluate_below room (Nat.le_succ fuel) condition

/-- The block of a body and an increment, as a turn in a scope of its own. -/
theorem execute_turn {increment : Expr} (h : loop.increment = some increment) (fuel : Nat) :
    (loop.turn fuel room).Below (do
        match ← execute (fuel + 2) room loop.body with
        | .normal => execute (fuel + 1) room (.expression increment)
        | .returned value => return .returned value) ∧
      Run.Below (do
        match ← execute (fuel + 2) room loop.body with
        | .normal => execute (fuel + 1) room (.expression increment)
        | .returned value => return .returned value) (loop.turn (fuel + 2) room) := by
  have hadvance (fuel : Nat) : loop.advance fuel room =
      execute (fuel + 1) room (.expression increment) := by
    unfold advance
    rw [h]
    rfl
  constructor
  · refine (execute_below room (by omega) loop.body).bind fun completion => ?_
    cases completion with
    | normal => exact .of_eq (hadvance fuel)
    | returned value => exact .refl _
  · refine Run.Below.bind (.refl _) fun completion => ?_
    cases completion with
    | normal =>
      rw [← hadvance]
      exact loop.advance_below room (by omega)
    | returned value => exact .refl _

theorem body_below (fuel : Nat) :
    (execute fuel room loop.treeBody).Below (loop.inner (fuel + 2) room) := by
  unfold treeBody inner
  cases h : loop.increment with
  | none => exact execute_below room (Nat.le_add_right fuel 2) loop.body
  | some increment =>
    refine (execute_below room (Nat.le_add_right fuel 4) _).trans ?_
    rw [execute_pair]
    exact (loop.execute_turn room h fuel).2.inScope

theorem below_body (fuel : Nat) :
    (loop.inner fuel room).Below (execute (fuel + 4) room loop.treeBody) := by
  unfold treeBody inner
  cases h : loop.increment with
  | none => exact execute_below room (Nat.le_add_right fuel 4) loop.body
  | some increment =>
    rw [execute_pair]
    exact (loop.execute_turn room h fuel).1.inScope

/-- The while loop of the tree. -/
theorem loop_below (fuel : Nat) :
    (execute fuel room (.whileLoop loop.treeCondition loop.treeBody)).Below
      (Run.repeats (loop.test (fuel + 2) room) (loop.inner (fuel + 2) room) (fuel + 2)) := by
  cases fuel with
  | zero => exact .outOfFuel _
  | succ fuel =>
    refine (repeatWhile_below room loop.treeCondition loop.treeBody (Nat.le_refl fuel)).trans ?_
    refine Run.Below.repeats ?_ ?_ (by omega)
    · exact (loop.condition_below room fuel).trans (loop.test_below room (by omega))
    · exact (loop.body_below room fuel).trans (loop.inner_below room (by omega))

theorem below_loop (fuel : Nat) :
    (Run.repeats (loop.test fuel room) (loop.inner fuel room) fuel).Below
      (execute (2 * fuel + 5) room (.whileLoop loop.treeCondition loop.treeBody)) := by
  have hpieces : (Run.repeats (loop.test fuel room) (loop.inner fuel room) fuel).Below
      (Run.repeats (evaluate (fuel + 4) room loop.treeCondition)
        (execute (fuel + 4) room loop.treeBody) fuel) :=
    .repeats ((loop.below_condition room fuel).trans (evaluate_below room (by omega) _))
      (loop.below_body room fuel) (Nat.le_refl fuel)
  have hloop := below_repeatWhile room loop.treeCondition loop.treeBody fuel (fuel + 4)
  rw [show fuel + 4 + fuel = 2 * fuel + 4 by omega] at hloop
  exact hpieces.trans hloop

variable {loop}

/-- An initializer completes normally. -/
theorem Formed.completes (h : loop.Formed) {init : Stmt} (hinit : loop.init = some init)
    (fuel : Nat) : (execute fuel room init).CompletesNormally := by
  cases fuel with
  | zero => exact fun _ _ _ hdone => by cases hdone
  | succ fuel =>
    rcases h.init init hinit with ⟨name, value, rfl⟩ | ⟨value, rfl⟩
    · cases value with
      | none => exact .bind fun _ => .normal
      | some value => exact .bind fun _ => .bind fun _ => .normal
    · exact .bind fun _ => .normal

theorem Formed.bind_init (h : loop.Formed) {init : Stmt} (hinit : loop.init = some init)
    (fuel : Nat) (next : Run Completion) :
    (do match ← execute fuel room init with
        | .normal => next
        | .returned value => return .returned value) =
      (loop.start fuel room >>= fun _ => next) := by
  have hstart : loop.start fuel room = (execute fuel room init >>= fun _ => pure ()) := by
    unfold start
    rw [hinit]
  rw [hstart]
  funext machine
  show Run.bind (execute fuel room init) _ machine =
    Run.bind (Run.bind (execute fuel room init) fun _ => Run.pure ()) (fun _ => next) machine
  unfold Run.bind
  cases hrun : execute fuel room init machine with
  | done completion after =>
    obtain rfl := h.completes room hinit fuel machine completion after hrun
    rfl
  | failed | stuck | outOfFuel => rfl

/-- What the tree does when it ends, its steps do. -/
theorem Formed.tree_below (h : loop.Formed) (fuel : Nat) :
    (execute fuel room loop.tree).Below (loop.unrolled (fuel + 3) room) := by
  unfold unrolled
  cases hinit : loop.init with
  | none =>
    rw [loop.tree_of_none hinit]
    refine (loop.loop_below room fuel).trans (Run.Below.repeats ?_ ?_ (by omega))
    · exact loop.test_below room (by omega)
    · exact loop.inner_below room (by omega)
  | some init =>
    rw [loop.tree_of_some hinit]
    refine (execute_below room (Nat.le_add_right fuel 4) _).trans ?_
    rw [execute_pair, h.bind_init room hinit]
    exact ((loop.start_below room (by omega)).bind fun _ => loop.loop_below room (fuel + 1)).inScope

theorem Formed.below_tree (h : loop.Formed) (fuel : Nat) :
    (loop.unrolled fuel room).Below (execute (2 * fuel + 8) room loop.tree) := by
  unfold unrolled
  cases hinit : loop.init with
  | none =>
    rw [loop.tree_of_none hinit]
    exact (loop.below_loop room fuel).trans (execute_below room (by omega) _)
  | some init =>
    rw [loop.tree_of_some hinit, execute_pair, h.bind_init room hinit]
    exact ((loop.start_below room (by omega)).bind fun _ => loop.below_loop room fuel).inScope

end ForLoop

end Moth
