import Moth.Proofs.Desugaring.Meaning
import Moth.Proofs.Session.Calls
/-!
# For statements of a session

Whenever a turn of a session comes to a for statement, its tree does what the statement says: the
initializer once, in a scope around the loop, and then the condition, the body and the increment by
turns, in that one scope.
-/

namespace Moth

open Eval Syntax

variable {turns : List Turn} {session : Session} {request : Request} {fuel : Nat}

/-- The globals stay outermost throughout a turn. -/
theorem Reached.visits_rooted (h : Reached turns session) {task : Task} {there : Machine}
    (hvisit : Turn.Visits ⟨session, request, fuel⟩ task there) : there.scopes.Rooted :=
  (h.sound.visited hvisit).1.rooted

/-! ## Units -/

/-- The links in a turn are those of its unit and of earlier ones. -/
theorem Reached.links_le (h : Reached turns session) {task : Task} {there : Machine}
    (hvisit : Turn.Visits ⟨session, request, fuel⟩ task there) :
    ∀ link ∈ there.resolution.links, link.token.unit ≤ session.report.unit + 1 := by
  obtain ⟨acceptance, hsome, hwithin, -⟩ := h.visits_within (h.orderly request fuel) hvisit
  obtain ⟨hnoted, haccepted⟩ := Session.accepted h.sound.stage hsome
  have hlinks : there.resolution.links =
      acceptance.resolution.links ++ session.machine.resolution.links := by
    rw [hwithin.links, Acceptance.machine, hnoted.machine]
    rfl
  rw [hlinks]
  intro link hlink
  rcases List.mem_append.1 hlink with hnew | hold
  · exact Nat.le_of_eq (haccepted.links link hnew)
  · exact Nat.le_succ_of_le (h.sound.links link hold)

/-- What is known in a turn is in its unit or in an earlier one. -/
theorem Reached.known_unit_le (h : Reached turns session) {reference : Reference}
    (hknown : (pastOf (⟨session, request, fuel⟩ :: turns)).known reference) :
    reference.token.unit ≤ session.report.unit + 1 := by
  rcases Session.mentions_or hknown with ⟨acceptance, hsome, event, hevent, href⟩ | hold
  · obtain ⟨-, haccepted⟩ := Session.accepted h.sound.stage hsome
    exact Nat.le_of_eq (haccepted.references event hevent reference href)
  · exact Nat.le_succ_of_le (h.sound.known reference hold)

/-- A for statement that is about to be run stands at a place of its program: around it are the
scopes that the machine is in, and the resolver has come to all its events there. -/
structure ForLoop.StandsAt (past : Past) (machine : Machine) (place : Place) (loop : ForLoop) :
    Prop where
  chain : Chain past machine.scopes machine.current place.frames
  knows : ∀ event ∈ loop.tree.events place, past.Knows event

/-- A statement that begins with `for` is read as the tree of an initializer, a condition, an
increment and a body.  Whenever a turn of a session, whatever its turns were, is about to execute
such a tree, it stands at some place of its program, and the tree means there what the parts say
directly: run the initializer once in a new scope around the loop, then evaluate the condition and
stop if it is falsey, execute the body and stop if it returns, evaluate the increment in the loop's
scope, and repeat.  The parts are those of a copy in a new unit, and have the hops that the resolver
finds for them in one scope, so that the loop variable is one for all turns of the loop. -/
theorem for_statement_meaning (h : Reached turns session) (request : Request) (steps : Nat) :
    let turn : Turn := ⟨session, request, steps⟩
    let past := pastOf (turn :: turns)
    (∀ opens ts stmt, Derives (.statement opens) ts stmt → ahead ts = some (.keyword .for) →
      ∃ loop : ForLoop, loop.ReadFrom opens ts ∧ loop.Formed ∧ stmt = loop.tree) ∧
    ∀ (loop : ForLoop) (room : Nat) (machine : Machine), loop.Formed →
      turn.Visits (.stmt room loop.tree) machine →
      (∃ place, loop.StandsAt past machine place) ∧
      ∀ place unit, loop.StandsAt past machine place → session.report.unit + 1 < unit →
        SameMeaning past place machine (fun fuel => execute fuel room loop.tree machine)
          (fun fuel => (loop.copy unit).run fuel room
            (machine.addLinks (loop.directLinks unit place))) := by
  intro turn past
  refine ⟨fun opens ts stmt hderives hfor => ?_, fun loop room machine hformed hvisit => ?_⟩
  · obtain ⟨loop, hread, htree⟩ := ForLoop.exists_readFrom hderives hfor
    exact ⟨loop, hread, hread.formed, htree⟩
  obtain ⟨hsound, place, hchain, hknows⟩ := h.sound.visited hvisit
  refine ⟨⟨place, hchain, hknows⟩, fun place unit hstands hunit => ?_⟩
  obtain ⟨_, -, hwithin, horderly⟩ := h.visits_within (h.orderly request steps) hvisit
  have hseen : Happened (turn :: turns) _ machine := ⟨turn, List.mem_cons_self, hvisit⟩
  refine hformed.sameMeaning horderly hsound (h.visits_rooted hvisit) hwithin hstands.chain
    hstands.knows (fun reference hknown => Nat.lt_of_le_of_lt (h.known_unit_le hknown) hunit)
    (fun link hlink => Nat.lt_of_le_of_lt (h.links_le hvisit link hlink) hunit) ?_
  intro fuel there hstuck
  have hyields := (h.chronicle request steps).yields fuel hseen fun _ _ _ => True.intro
  rw [show (Task.stmt room loop.tree).run fuel machine = _ from hstuck] at hyields
  exact hyields

/-- A loop in which functions of two turns capture the loop variable. -/
def countingTurn : Turn := ⟨.empty, .run
  "var f;var g;for(var i=0;i<2;i=i+1)\x7bfun h()\x7bprint i;\x7dif(i==0)f=h;else g=h;\x7df();g();",
  60⟩

/-- The parts of a loop that has all of them and declares a variable. -/
def ForLoop.ofTree? : Stmt → Option ForLoop
  | .block [.var name init, .whileLoop condition (.block [body, .expression increment])] =>
    some ⟨some (.var name init), some condition, some increment, body⟩
  | _ => none

theorem ForLoop.formed_of_ofTree? {tree : Stmt} {loop : ForLoop} (h : ofTree? tree = some loop)
    (hbody : loop.body.declared? = none) : loop.Formed ∧ loop.tree = tree := by
  unfold ofTree? at h
  split at h
  · cases h
    refine ⟨⟨fun init hinit => ?_, hbody⟩, rfl⟩
    cases hinit
    exact .inl ⟨_, _, rfl⟩
  · cases h

def printedBy (room : Nat) (machine : Machine) (id : Nat) : Option String :=
  match call 60 room ⟨.symbol .rightParen, ")", 1, 0, 2⟩ (.function id) [] machine with
  | .done _ after => some after.output
  | _ => none

theorem Machine.Inseparable.printedBy {past : Past} {place : Place} {start after after' : Machine}
    (h : start.Inseparable past place after after') (room id : Nat) :
    printedBy room after' id = printedBy room after id := by
  have hcalls := h.calls 60 room ⟨.symbol .rightParen, ")", 1, 0, 2⟩ (.function id) []
  unfold Moth.printedBy
  generalize call 60 room _ _ _ after = outcome at hcalls
  generalize call 60 room _ _ _ after' = outcome' at hcalls
  cases hcalls with
  | done hsame => exact congrArg some hsame.output
  | failed | stuck | outOfFuel => rfl

theorem SameMeaning.of_done {past : Past} {place : Place} {start after : Machine}
    {runs runs' : Nat → Outcome Completion} {completion : Completion}
    (h : SameMeaning past place start runs runs') (hruns : Settles runs (.done completion after)) :
    ∃ after', Settles runs' (.done completion after') ∧ start.SameOutside after after' ∧
      start.Inseparable past place after after' := by
  obtain ⟨enough, hruns⟩ := hruns
  rcases h with hnever | ⟨_, _, last, last', ⟨more, houtcome⟩, houtcome', hlast, hlast', -, hsame,
    hinseparable⟩
  · have hdone := hruns enough (Nat.le_refl enough)
    rw [(hnever enough).1] at hdone
    cases hdone
  · obtain rfl := (houtcome _ (Nat.le_max_right enough more)).symm.trans
      (hruns _ (Nat.le_max_left enough more))
    cases hsame with
    | done hsame =>
      cases hlast
      cases hlast'
      exact ⟨last', houtcome', hsame, hinseparable⟩

def countsToTwo : Task × Machine → Bool
  | (.stmt room tree, machine) =>
    match ForLoop.ofTree? tree, execute 60 room tree machine with
    | some loop, .done .normal after => loop.body.declared?.isNone &&
      [0, 1].all fun id => printedBy room after id == some "2\n"
    | _, _ => false
  | _ => false

theorem countingTurn_shares : ∃ (loop : ForLoop) (room : Nat) (machine : Machine) (place : Place)
    (after after' : Machine), countingTurn.Visits (.stmt room loop.tree) machine ∧ loop.Formed ∧
      loop.StandsAt (pastOf [countingTurn]) machine place ∧
      execute 60 room loop.tree machine = .done .normal after ∧
      Settles (fun fuel => (loop.copy 2).run fuel room
        (machine.addLinks (loop.directLinks 2 place))) (.done .normal after') ∧
      machine.SameOutside after after' ∧ printedBy room after' 0 = some "2\n" ∧
      printedBy room after' 1 = some "2\n" := by
  have hvisited : countingTurn.visited.any countsToTwo = true := by decide +kernel
  obtain ⟨⟨task, machine⟩, hmem, hcounts⟩ := List.any_eq_true.1 hvisited
  have hvisit := Turn.visits_of_mem hmem
  unfold countsToTwo at hcounts
  split at hcounts
  · next room tree machine heq =>
    cases heq
    split at hcounts
    · next loop after hloop hdone =>
      simp only [Bool.and_eq_true, Option.isNone_iff_eq_none, List.all_eq_true,
        beq_iff_eq] at hcounts
      obtain ⟨hbody, hprinted⟩ := hcounts
      obtain ⟨hformed, rfl⟩ := ForLoop.formed_of_ofTree? hloop hbody
      obtain ⟨-, hmeaning⟩ := for_statement_meaning .empty countingTurn.request 60
      obtain ⟨⟨place, hstands⟩, hsame⟩ := hmeaning loop room machine hformed hvisit
      have htree : Settles (fun fuel => execute fuel room loop.tree machine)
          (.done .normal after) := by
        refine ⟨60, fun more hle => Eq.trans ?_ hdone⟩
        exact execute_below room hle loop.tree machine (by rw [hdone]; nofun)
      obtain ⟨after', hsettles, houtside, hinseparable⟩ :=
        (hsame place 2 hstands (by decide)).of_done htree
      refine ⟨loop, room, machine, place, after, after', hvisit, hformed, hstands, hdone, hsettles,
        houtside, ?_, ?_⟩
      · rw [hinseparable.printedBy, hprinted 0 (by decide)]
      · rw [hinseparable.printedBy, hprinted 1 (by decide)]
    · cases hcounts
  · cases hcounts

end Moth
