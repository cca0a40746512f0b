import Moth.Proofs.Desugaring.Lockstep
import Moth.Proofs.Desugaring.Unrolling
/-!
# For statements mean what they say

The tree of a for statement has a scope for each turn if there is an increment, and no scope
around the loop if there is no initializer.  The direct meaning has one scope around the loop in
any case, and no others.  So the parts of the statement stand in different layers, and run side by
side all the same.
-/

namespace Moth

open Eval

variable {J : Joint} {layers : List Layer}

namespace RunParallel

variable {α : Type}

/-- In a new scope on either side. -/
theorem inScope {body body' : Run α} (h : RunParallel J (.both :: layers) body body') :
    RunParallel J layers (Run.inScope body) (Run.inScope body') := by
  intro pairing machine other hmachine hchains
  have hwidens := Beside.Widens.child (machine.beside other pairing) machine.current other.current
  have hnew := hmachine.withScopes (hmachine.scopes.child machine.current other.current) hwidens
  exact (Outcome.Parallel.within (h _ _ _ (hnew.enter _ _) hchains.child)).since hwidens rfl rfl

/-- In a new scope that only the first side has. -/
theorem inScopeLeft {body body' : Run α} (h : RunParallel J (.left :: layers) body body') :
    RunParallel J layers (Run.inScope body) body' := by
  intro pairing machine other hmachine hchains
  have hwidens := Beside.Widens.childLeft (machine.beside other pairing) machine.current
  have hnew := hmachine.withScopes (hmachine.scopes.childLeft machine.current) hwidens
  exact (Outcome.Parallel.withinLeft
    (h _ _ _ (hnew.enter machine.scopes.next other.current) hchains.childLeft)).since hwidens
    rfl rfl

/-- In a new scope that only the second side has. -/
theorem inScopeRight {body body' : Run α} (h : RunParallel J (.right :: layers) body body') :
    RunParallel J layers body (Run.inScope body') := by
  intro pairing machine other hmachine hchains
  have hwidens := Beside.Widens.childRight (machine.beside other pairing) other.current
  have hnew := hmachine.withScopes (hmachine.scopes.childRight other.current) hwidens
  exact (Outcome.Parallel.withinRight
    (h _ _ _ (hnew.enter machine.current other.scopes.next) hchains.childRight)).since hwidens
    rfl rfl

theorem repeats {test test' : Run Value} {step step' : Run Completion}
    (htest : RunParallel J layers test test') (hstep : RunParallel J layers step step')
    (times : Nat) :
    RunParallel J layers (Run.repeats test step times) (Run.repeats test' step' times) := by
  induction times with
  | zero => exact .outOfFuel
  | succ times ih =>
    refine htest.bind fun value => .ite (hstep.bind fun completion => ?_) (.pure Completion.normal)
    cases completion with
    | normal => exact ih
    | returned value => exact .pure (Completion.returned value)

end RunParallel

namespace ForLoop

/-- The layers inside the scope of the direct meaning.  The tree has that scope if there is an
initializer. -/
def outerLayers (loop : ForLoop) (layers : List Layer) : List Layer :=
  (if loop.init.isSome then .both else .right) :: layers

/-- The layers around the body.  The tree has a scope for each turn if there is an increment. -/
def innerLayers (loop : ForLoop) (layers : List Layer) : List Layer :=
  if loop.increment.isSome then .left :: loop.outerLayers layers else loop.outerLayers layers

structure Fits (J : Joint) (layers : List Layer) (loop other : ForLoop) : Prop where
  init : Option.Rel (Stmt.Fits J (loop.outerLayers layers)) loop.init other.init
  condition : Option.Rel (Expr.Fits J (loop.outerLayers layers)) loop.condition other.condition
  increment : Option.Rel (Expr.Fits J (loop.innerLayers layers)) loop.increment other.increment
  body : loop.body.Fits J (loop.innerLayers layers) other.body

namespace Fits

variable {loop other : ForLoop} (h : loop.Fits J layers other) (fuel room : Nat)
include h

theorem start : RunParallel J (loop.outerLayers layers) (loop.start fuel room)
    (other.start fuel room) := by
  have hinit := h.init
  unfold ForLoop.start
  generalize loop.init = init at hinit
  generalize other.init = init' at hinit
  cases hinit with
  | none => exact .pure ()
  | some hinit => exact ((lockstep J fuel).execute room hinit).bind fun _ => .pure ()

theorem test : RunParallel J (loop.outerLayers layers) (loop.test fuel room)
    (other.test fuel room) := by
  have hcondition := h.condition
  unfold ForLoop.test
  generalize loop.condition = condition at hcondition
  generalize other.condition = condition' at hcondition
  cases hcondition with
  | none => exact .pure (Value.bool true)
  | some hcondition => exact (lockstep J fuel).evaluate room hcondition

theorem advance : RunParallel J (loop.innerLayers layers) (loop.advance fuel room)
    (other.advance fuel room) := by
  have hincrement := h.increment
  unfold ForLoop.advance
  generalize loop.increment = increment at hincrement
  generalize other.increment = increment' at hincrement
  cases hincrement with
  | none => exact .pure Completion.normal
  | some hincrement =>
    exact ((lockstep J fuel).evaluate room hincrement).bind fun _ => .pure Completion.normal

theorem turn : RunParallel J (loop.innerLayers layers) (loop.turn fuel room)
    (other.turn fuel room) := by
  refine ((lockstep J fuel).execute room h.body).bind fun completion => ?_
  cases completion with
  | normal => exact h.advance fuel room
  | returned value => exact .pure (Completion.returned value)

/-- A turn of the tree, in a scope of its own or not, is a turn of the direct meaning. -/
theorem inner : RunParallel J (loop.outerLayers layers) (loop.inner fuel room)
    (other.turn fuel room) := by
  have hturn := h.turn fuel room
  unfold ForLoop.inner
  unfold innerLayers at hturn
  cases hleft : loop.increment with
  | some increment =>
    rw [hleft] at hturn
    exact hturn.inScopeLeft
  | none =>
    rw [hleft] at hturn
    have hsame : loop.turn fuel room = execute fuel room loop.body := by
      unfold ForLoop.turn ForLoop.advance
      rw [hleft]
      exact bind_completion (execute fuel room loop.body)
    rw [← hsame]
    exact hturn

/-- The steps of the tree and the direct meaning go side by side. -/
theorem unrolled : RunParallel J layers (loop.unrolled fuel room) (other.run fuel room) := by
  have hloop : RunParallel J (loop.outerLayers layers)
      (loop.start fuel room >>= fun _ =>
        Run.repeats (loop.test fuel room) (loop.inner fuel room) fuel)
      (other.start fuel room >>= fun _ =>
        Run.repeats (other.test fuel room) (other.turn fuel room) fuel) :=
    (h.start fuel room).bind fun _ => (h.test fuel room).repeats (h.inner fuel room) fuel
  unfold ForLoop.unrolled ForLoop.run
  unfold outerLayers at hloop
  cases hinit : loop.init with
  | some init =>
    rw [hinit] at hloop
    exact hloop.inScope
  | none =>
    rw [hinit] at hloop
    have hstart : loop.start fuel room = pure () := by
      unfold ForLoop.start
      rw [hinit]
    rw [hstart] at hloop
    exact hloop.inScopeRight

end Fits

/-! ## What the resolver gives the parts -/

def relabel (r : Relabelling) (loop : ForLoop) : ForLoop where
  init := loop.init.map (Stmt.relabel r)
  condition := loop.condition.map (Expr.relabel r)
  increment := loop.increment.map (Expr.relabel r)
  body := loop.body.relabel r

def parts (loop : ForLoop) : List Stmt :=
  loop.init.toList ++
    .whileLoop loop.treeCondition loop.body :: loop.increment.toList.map .expression

/-- The parts in one scope, as they are in the direct meaning. -/
def flat (loop : ForLoop) : Stmt := .block loop.parts

variable {loop : ForLoop} {r : Relabelling} {place other : Place}

theorem fits_condition (hr : r.Moves) (hplace : place.Matched layers other)
    (hsettled : ∀ event ∈ loop.treeCondition.events place, event.Settled J.links)
    (hlinked : Linked J.others ((loop.relabel r).treeCondition.events other)) :
    Option.Rel (Expr.Fits J layers) loop.condition (loop.relabel r).condition := by
  obtain ⟨init, condition, increment, body⟩ := loop
  cases condition with
  | none => exact .none
  | some condition => exact .some (Expr.fits hr hplace condition hsettled hlinked)

/-- The body and the increment.  With an increment the tree has them in a block. -/
theorem Formed.fits_turn (h : loop.Formed) (hbranched : loop.body.Branched) (hr : r.Moves)
    (hplace : place.Matched layers other)
    (hsettled : ∀ event ∈ loop.treeBody.events place, event.Settled J.links)
    (hbody : Linked J.others ((loop.relabel r).body.events other))
    (hincrement : Linked J.others
      (eventsAll other ((loop.relabel r).increment.toList.map .expression))) :
    let inner := if loop.increment.isSome then .left :: layers else layers
    Option.Rel (Expr.Fits J inner) loop.increment (loop.relabel r).increment ∧
      loop.body.Fits J inner (loop.relabel r).body := by
  obtain ⟨init, condition, increment, body⟩ := loop
  cases increment with
  | none => exact ⟨.none, Stmt.fits hr hplace body hbranched (.inl h.body) hsettled hbody⟩
  | some increment =>
    have hinside := hplace.enterLeft (.block [body, .expression increment])
    obtain ⟨hfirst, hrest⟩ := List.forall_mem_append.1 hsettled
    rw [Place.after_of_declared_none h.body] at hrest
    refine ⟨.some (Expr.fits hr hinside increment (List.forall_mem_append.1 hrest).1
      hincrement.left), Stmt.fits hr hinside body hbranched (.inl h.body) hfirst hbody⟩

/-- The tree and the parts in one scope, resolved at the same place. -/
theorem Formed.fits (h : loop.Formed) (hbranched : loop.body.Branched) (hr : r.Moves)
    (hplace : place.Matched layers other)
    (hsettled : ∀ event ∈ loop.tree.events place, event.Settled J.links)
    (hlinked : Linked J.others ((loop.relabel r).flat.events other)) :
    loop.Fits J layers (loop.relabel r) := by
  obtain ⟨init, condition, increment, body⟩ := loop
  cases init with
  | none =>
    rw [tree_of_none _ rfl] at hsettled
    obtain ⟨hcondition, hturn⟩ := List.forall_mem_append.1 hsettled
    have hinside := hplace.enterRight
      (.block (relabel r ⟨none, condition, increment, body⟩).parts)
    obtain ⟨hincrement, hbody⟩ :=
      h.fits_turn hbranched hr hinside hturn hlinked.left.right hlinked.right
    exact ⟨.none, fits_condition hr hinside hcondition hlinked.left.left, hincrement, hbody⟩
  | some init =>
    rw [tree_of_some _ rfl] at hsettled
    obtain ⟨hinit, hloop⟩ := List.forall_mem_append.1 hsettled
    obtain ⟨hcondition, hturn⟩ := List.forall_mem_append.1 (List.forall_mem_append.1 hloop).1
    have hshared : SharedHere (.both :: layers) := trivial
    have hinside := hplace.block
      [init, .whileLoop (treeCondition ⟨some init, condition, increment, body⟩)
        (treeBody ⟨some init, condition, increment, body⟩)]
      (relabel r ⟨some init, condition, increment, body⟩).parts
    have hafter := hinside.after (.inr hshared) (Stmt.declared?_relabel hr init)
    have hplain : init.Branched := by
      rcases h.init init rfl with ⟨name, value, rfl⟩ | ⟨value, rfl⟩ <;> trivial
    obtain ⟨hincrement, hbody⟩ :=
      h.fits_turn hbranched hr hafter hturn hlinked.right.left.right hlinked.right.right
    exact ⟨.some (Stmt.fits hr hinside init hplain (.inr hshared) hinit hlinked.left),
      fits_condition hr hafter hcondition hlinked.right.left.left, hincrement, hbody⟩

end ForLoop

end Moth
