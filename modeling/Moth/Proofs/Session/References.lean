import Moth.Proofs.Session.Soundness
/-!
# References lead where the resolver found them

At every step of every turn of a session, a reference with hops leads to a scope that was
opened for the very part of the program in which the resolver found its name.
-/

namespace Moth

open Eval

def Eval.Task.lookUp? : Task → Option (ReferenceSort × Token × String)
  | .expr _ (.ref name) => some (.read, name, name.lexeme)
  | .expr _ (.this keyword) => some (.this, keyword, "this")
  | .expr _ (.super keyword _) => some (.super, keyword, "super")
  | .assign name _ => some (.assign, name, name.lexeme)
  | _ => none

/-- A reference in a program that some turn has run, looked up from a machine, leads `hops`
scopes outward to a scope that was opened for the site of `frame`, where the resolver found the
name.  Unless it is assigned to, the name is bound there. -/
structure Reference.LeadsTo (turns : List Turn) (machine : Machine) (reference : Reference)
    (hops scope : Nat) (frame : Frame) : Prop where
  mentioned : (pastOf turns).known reference
  resolved : reference.place.find? reference.name = some hops
  found : reference.place.frames[hops]? = some frame
  declared : reference.name ∈ frame.site.declares
  ancestor : machine.scopes.ancestor hops machine.current = .ok (some scope)
  opened : (pastOf turns).opened scope frame.site
  bound : reference.sort ≠ .assign → (machine.scopes.bindings scope).binds reference.name

variable {past : Past} {task : Task} {there : Machine} {sort : ReferenceSort} {token : Token}
  {name : String}

/-- A task that is ready stands where the resolver met its reference. -/
theorem Eval.Task.Ready.place (h : task.Ready past there)
    (hlookUp : task.lookUp? = some (sort, token, name)) :
    ∃ place : Place, Chain past there.scopes there.current place.frames ∧
      past.known ⟨sort, token, name, place⟩ := by
  cases task with
  | expr room tree =>
    cases tree with
    | ref | this | super =>
      cases hlookUp
      obtain ⟨place, hchain, hevents⟩ := h
      exact ⟨place, hchain, (List.forall_mem_singleton.1 hevents).2 _ rfl⟩
    | _ => cases hlookUp
  | assign other value =>
    cases hlookUp
    obtain ⟨-, place, hchain, hevents⟩ := h
    exact ⟨place, hchain, (List.forall_mem_singleton.1 hevents).2 _ rfl⟩
  | _ => cases hlookUp

theorem Machine.Sound.leadsTo {turns : List Turn} (h : there.Sound (pastOf turns)) {place : Place}
    (hchain : Chain (pastOf turns) there.scopes there.current place.frames)
    (hknown : (pastOf turns).known ⟨sort, token, name, place⟩) {hops : Nat}
    (hhops : there.resolution.hops? token = some hops) :
    ∃ scope frame, Reference.LeadsTo turns there ⟨sort, token, name, place⟩ hops scope frame := by
  obtain ⟨hsettled, hsame⟩ := h.settled _ hknown
  have hreference : Reference.hops? ⟨sort, token, name, place⟩ = some hops := hsame ▸ hhops
  obtain ⟨frame, hframe, hdeclared, hfinished⟩ := hsettled.found hops hreference
  obtain ⟨scope, hancestor, hopened, hheld⟩ := hchain.ancestor hframe
  exact ⟨scope, frame, hknown, Reference.find?_of_hops? hreference, hframe, hdeclared, hancestor,
    hopened, fun hsort => hheld.finished _ (hfinished hsort)⟩

/-- In a session, whatever its turns were, no turn gets stuck: it ends, or it runs out of fuel.
Wherever it looks up a variable, `this` or `super` that has hops, they lead to the scope that
the resolver found the name in, and `this` and `super` always have hops. -/
theorem references_found {turns : List Turn} {session : Session} (h : Reached turns session)
    (request : Request) (fuel : Nat) :
    (∀ trouble, session.take fuel request = .error trouble → trouble = .outOfFuel) ∧
      ∀ task there sort token name, Turn.Visits ⟨session, request, fuel⟩ task there →
        task.lookUp? = some (sort, token, name) →
        (∀ hops, there.resolution.hops? token = some hops → ∃ place scope frame,
          Reference.LeadsTo (⟨session, request, fuel⟩ :: turns) there ⟨sort, token, name, place⟩
            hops scope frame) ∧
        (sort = .this → ∃ hops, there.resolution.hops? token = some hops) ∧
        (sort = .super → ∃ depth above self, there.resolution.hops? token = some (depth + 1) ∧
          there.scopes.getAt there.current (depth + 1) "super" = .ok (.class above) ∧
          there.scopes.getAt there.current depth "this" = .ok self) := by
  refine ⟨h.sound.take.1, fun task there sort token name hvisit hlookUp => ?_⟩
  obtain ⟨hsound, hready⟩ := h.sound.visited hvisit
  obtain ⟨place, hchain, hknown⟩ := hready.place hlookUp
  refine ⟨fun hops hhops => ⟨place, hsound.leadsTo hchain hknown hhops⟩, ?_, ?_⟩
  · intro hsort
    obtain ⟨hsettled, hhops⟩ := hsound.settled _ hknown
    obtain ⟨hops, hfound⟩ := hsettled.this hsort
    exact ⟨hops, hhops.trans hfound⟩
  · rintro rfl
    exact super_found hsound hchain hknown

/-- A class and its heir, and a function that keeps an instance of the heir alive. -/
def heirText : String :=
  "class A \x7bhi()\x7breturn 1;\x7d\x7d class B<A \x7bhi()\x7breturn super.hi();\x7d
  keep()\x7bfun f()\x7breturn this.hi();\x7d return f;\x7d\x7d var f=B().keep();"

def heirSession : Session := Session.empty.after 40 (.run heirText)

theorem reached_heirSession : Reached [⟨.empty, .run heirText, 40⟩] heirSession :=
  .after .empty (by decide +kernel)

/-- A later unit calls the function, and with it methods of the earlier unit that look up
`super` two scopes outward. -/
theorem heir_references_found : ∃ task there token,
    Turn.Visits ⟨heirSession, .evaluate "f()", 40⟩ task there ∧
      task.lookUp? = some (.super, token, "super") ∧
      there.resolution.hops? token = some 2 ∧
      ∃ place scope frame, Reference.LeadsTo
        [⟨heirSession, .evaluate "f()", 40⟩, ⟨.empty, .run heirText, 40⟩] there
        ⟨.super, token, "super", place⟩ 2 scope frame := by
  have hvisited : (Turn.visited ⟨heirSession, .evaluate "f()", 40⟩).any
      (fun visit => visit.1.lookUp?.any fun found => found.1 = .super && found.2.2 = "super" &&
        visit.2.resolution.hops? found.2.1 = some 2) = true := by
    decide +kernel
  obtain ⟨⟨task, there⟩, hmem, hany⟩ := List.any_eq_true.1 hvisited
  obtain ⟨⟨sort, token, name⟩, hlookUp, hfound⟩ := (Option.any_eq_true _ _).1 hany
  simp only [Bool.and_eq_true, decide_eq_true_eq] at hfound
  obtain ⟨⟨rfl, rfl⟩, hhops⟩ := hfound
  have hvisit := Turn.visits_of_mem hmem
  obtain ⟨hleads, -, -⟩ :=
    (references_found reached_heirSession (.evaluate "f()") 40).2 _ _ _ _ _ hvisit hlookUp
  exact ⟨task, there, token, hvisit, hlookUp, hhops, hleads 2 hhops⟩

end Moth
