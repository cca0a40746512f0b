import Moth.Proofs.Binding.Chronicle
import Moth.Proofs.Session.References
/-!
# Chains of scopes and classes end

Every link leads to something made earlier, so the way along links falls and comes to an end.  A
search along it that is given as many steps as there are scopes or classes has enough of them: it
tries the whole way in order.  No link is ever changed once it has been made.
-/

namespace Moth

open Eval

/-! ## Trails -/

/-- The numbers that links lead to one after the other, from a number to one without a link. -/
inductive Trail (link : Nat → Option Nat) : Nat → List Nat → Prop where
  | last {number : Nat} : link number = none → Trail link number [number]
  | onward {number next : Nat} {rest : List Nat} : link number = some next →
      Trail link next rest → Trail link number (number :: rest)

namespace Trail

variable {link : Nat → Option Nat} {number : Nat} {trail : List Nat}

theorem falling (hfalls : ∀ number next, link number = some next → next < number)
    (h : Trail link number trail) : trail.Pairwise (· > ·) := by
  refine List.isChain_iff_pairwise.1 ?_
  induction h with
  | last => exact .singleton _
  | onward hlink hrest ih => cases hrest <;> exact .cons_cons (hfalls _ _ hlink) ih

theorem length_le (hfalls : ∀ number next, link number = some next → next < number)
    (h : Trail link number trail) : trail.length ≤ number + 1 := by
  induction h with
  | last => simp
  | onward hlink _ ih =>
    have hless := hfalls _ _ hlink
    rw [List.length_cons]
    omega

/-- The way along links that fall comes to an end. -/
theorem exist (hfalls : ∀ number next, link number = some next → next < number) (number : Nat) :
    ∃ trail, Trail link number trail := by
  induction number using Nat.strongRecOn with
  | ind number ih =>
    cases hlink : link number with
    | none => exact ⟨_, .last hlink⟩
    | some next =>
      obtain ⟨rest, hrest⟩ := ih next (hfalls number next hlink)
      exact ⟨_, .onward hlink hrest⟩

end Trail

/-! ## Searches -/

theorem find?_bind_eq_findSome? {α β : Type} (f : α → Option β) (items : List α) :
    (items.find? fun item => (f item).isSome).bind f = items.findSome? f := by
  induction items with
  | nil => rfl
  | cons item items ih => cases hitem : f item <;> simp [hitem, ih]

namespace Forest

variable {α : Type} {forest : Forest α} {scope : Nat} {trail : List Nat}

theorem holderWithin_eq_find? (h : Trail forest.enclosing? scope trail) (name : String)
    {steps : Nat} (hsteps : trail.length ≤ steps) : forest.holderWithin name steps scope =
      trail.find? fun place => (forest.bindings place).binds name := by
  induction h generalizing steps with
  | last hlink =>
    obtain ⟨steps, rfl⟩ := Nat.exists_eq_add_of_le' hsteps
    rw [List.length_singleton, holderWithin, hlink, List.find?_singleton]
  | onward hlink _ ih =>
    obtain ⟨steps, rfl⟩ := Nat.exists_eq_add_of_le' hsteps
    rw [List.length_cons, ← Nat.add_assoc, holderWithin, hlink, List.find?_cons]
    dsimp only
    rw [ih (Nat.le_add_left ..)]
    cases (forest.bindings _).binds name <;> rfl

theorem ancestor_eq_some_iff (h : Trail forest.enclosing? scope trail) (depth found : Nat) :
    forest.ancestor depth scope = .ok (some found) ↔ trail[depth]? = some found := by
  induction h generalizing depth with
  | last hlink =>
    cases depth with
    | zero => simp [ancestor]
    | succ depth => cases depth <;> simp [ancestor, hlink]
  | onward hlink _ ih =>
    cases depth with
    | zero => simp [ancestor]
    | succ depth => rw [ancestor_succ hlink, ih, List.getElem?_cons_succ]

/-- Going outward from a scope goes along the trail, and so does searching for a name. -/
structure Follows (forest : Forest α) (scope : Nat) (trail : List Nat) : Prop where
  ancestor : ∀ depth found,
    forest.ancestor depth scope = .ok (some found) ↔ trail[depth]? = some found
  get : ∀ name, forest.get scope name =
    (trail.findSome? fun place => (forest.bindings place).find? name).elim
      (.error (.undefined name)) .ok
  assign : ∀ name value, forest.assign scope name value =
    (trail.find? fun place => (forest.bindings place).binds name).elim
      (.error (.undefined name)) fun holder => .ok (forest.define holder name value)

theorem Descends.follows (hfalls : forest.Descends) (hscope : scope < forest.next)
    (h : Trail forest.enclosing? scope trail) : forest.Follows scope trail := by
  have hholder (name : String) : forest.holder? scope name =
      trail.find? fun place => (forest.bindings place).binds name :=
    holderWithin_eq_find? h name (Nat.le_trans (h.length_le hfalls) hscope)
  refine ⟨ancestor_eq_some_iff h, fun name => ?_, fun name value => ?_⟩
  · have hfound : (forest.holder? scope name).bind (fun holder =>
        (forest.bindings holder).find? name) =
        trail.findSome? fun place => (forest.bindings place).find? name := by
      rw [hholder, ← find?_bind_eq_findSome?]
      rfl
    rw [get, hfound]
    cases trail.findSome? _ <;> rfl
  · rw [Forest.assign, hholder]
    cases trail.find? _ <;> rfl

end Forest

namespace Machine

variable {machine : Machine}

def superclass? (machine : Machine) (id : Nat) : Option Nat :=
  machine.classes[id]?.bind (·.superclass)

theorem methodWithin_eq_findSome? {id : Nat} {trail : List Nat}
    (h : Trail machine.superclass? id trail) (name : String) {steps : Nat}
    (hsteps : trail.length ≤ steps) : methodWithin machine.classes name steps id =
      trail.findSome? fun id => machine.classes[id]?.bind (·.methods.find? name) := by
  induction h generalizing steps with
  | @last id hlink =>
    obtain ⟨steps, rfl⟩ := Nat.exists_eq_add_of_le' hsteps
    rw [List.length_singleton, methodWithin, List.findSome?_singleton]
    cases hentry : machine.classes[id]? with
    | none => rfl
    | some entry =>
      have hsuperclass : entry.superclass = none := by simpa [superclass?, hentry] using hlink
      cases hmethod : entry.methods.find? name <;> simp [hmethod, hsuperclass]
  | onward hlink _ ih =>
    obtain ⟨steps, rfl⟩ := Nat.exists_eq_add_of_le' hsteps
    rw [List.length_cons, ← Nat.add_assoc, methodWithin, List.findSome?_cons]
    obtain ⟨entry, hentry, hsuperclass⟩ := Option.bind_eq_some_iff.1 hlink
    rw [hentry, Option.bind_some]
    cases hmethod : entry.methods.find? name <;> simp [hmethod, hsuperclass, ih]

/-- A machine on which every way along links falls and ends, wherever it begins: at the current
scope, at that of a function or a method, or at the class of an instance.  The searches of the
machine go along these ways. -/
structure Grounded (machine : Machine) : Prop where
  links : machine.Descends
  current : machine.current < machine.scopes.next
  functions : ∀ (id : Nat) (closure : Closure), machine.functions[id]? = some closure →
    closure.scope < machine.scopes.next
  methods : ∀ (id : Nat) (entry : ClassEntry) (name : String) (method : Closure),
    machine.classes[id]? = some entry → entry.methods.find? name = some method →
      method.scope < machine.scopes.next
  scopes : ∀ scope < machine.scopes.next, ∃ trail, Trail machine.scopes.enclosing? scope trail ∧
    trail.Pairwise (· > ·) ∧ machine.scopes.Follows scope trail
  classes : ∀ id, ∃ trail, Trail machine.superclass? id trail ∧
    trail.Pairwise (· > ·) ∧ ∀ name, machine.method? id name =
      trail.findSome? fun id => machine.classes[id]?.bind (·.methods.find? name)

theorem Sound.grounded {past : Past} (h : machine.Sound past)
    (hcurrent : machine.current < machine.scopes.next) : machine.Grounded where
  links := h.links
  current := hcurrent
  functions id closure hclosure := by
    obtain ⟨place, context, hchain, -⟩ := (h.functions id closure hclosure).placed
    exact h.lt_next hchain
  methods id entry name method hentry hmethod := by
    obtain ⟨place, context, _, _, hchain, -⟩ := h.methods id entry name method hentry hmethod
    exact h.lt_next hchain
  scopes scope hscope := by
    obtain ⟨trail, htrail⟩ := Trail.exist h.links.scopes scope
    exact ⟨trail, htrail, htrail.falling h.links.scopes, h.links.scopes.follows hscope htrail⟩
  classes id := by
    have hfalls : ∀ id above, machine.superclass? id = some above → above < id := by
      intro id above hlink
      obtain ⟨entry, hentry, hsuperclass⟩ := Option.bind_eq_some_iff.1 hlink
      exact h.links.classes id entry hentry above hsuperclass
    obtain ⟨trail, htrail⟩ := Trail.exist hfalls id
    refine ⟨trail, htrail, htrail.falling hfalls, fun name => ?_⟩
    by_cases hid : id < machine.classes.size
    · exact methodWithin_eq_findSome? htrail name (Nat.le_trans (htrail.length_le hfalls) hid)
    · have hnone : machine.classes[id]? = none := Array.getElem?_eq_none (Nat.not_lt.1 hid)
      cases htrail with
      | last => cases hsize : machine.classes.size <;> simp [method?, methodWithin, hsize, hnone]
      | onward hlink => simp [superclass?, hnone] at hlink

end Machine

/-! ## Sessions -/

theorem Eval.Course.pairwise {seen : Task → Machine → Prop} {start : Machine}
    {visits : List (Task × Machine)} {stop : Option Machine} (h : Course seen start visits stop) :
    (visits.map Prod.snd).Pairwise Machine.Evolves :=
  List.pairwise_map.2 (h.ordered.imp_of_mem fun hvisit _ hlater =>
    (h.strides _ hvisit).trans hlater)

/-- At all visits of a session's turns, between two turns and at all visits of the turn that comes
next, every link leads to something made earlier and every chain ends; and from each of these
machines to any later one, no link of what was there is changed. -/
theorem chains_finite {turns : List Turn} {session : Session} (h : Reached turns session)
    (request : Request) (fuel : Nat) :
    let machines := (history turns).map Prod.snd ++
      session.machine :: (Turn.visited ⟨session, request, fuel⟩).map Prod.snd
    (∀ machine ∈ machines, machine.Grounded) ∧ machines.Pairwise Machine.Evolves := by
  obtain ⟨start, htraced, hplain, hpast⟩ :=
    h.course fun task there hearlier => hearlier.cons ⟨session, request, fuel⟩
  have hproceeds := hpast.through session.machine rfl
  obtain ⟨stop, hnext⟩ := h.sound.visited_course (fun task there hvisit =>
    ⟨_, List.mem_cons_self, hvisit⟩) (hproceeds.traced htraced) (hplain.evolve hproceeds.evolves)
  have hvisits : ∀ visit ∈ history (⟨session, request, fuel⟩ :: turns), visit.2.Grounded := by
    rintro ⟨task, there⟩ hvisit
    obtain ⟨before, -, hsound, -⟩ := (h.chronicle request fuel).sound _ _ (mem_history.1 hvisit)
    exact hsound.grounded ((hpast.append hnext).plain _ hvisit).1
  obtain ⟨hbefore, hturn⟩ := List.forall_mem_append.1 hvisits
  have hsession : session.machine.Grounded :=
    h.sound.machine.grounded (h.sound.current ▸ h.sound.machine.links.globals)
  refine ⟨List.forall_mem_append.2 ⟨List.forall_mem_map.2 hbefore,
    List.forall_mem_cons.2 ⟨hsession, List.forall_mem_map.2 hturn⟩⟩, ?_⟩
  have hupTo : ∀ visit ∈ history turns, visit.2.Evolves session.machine := fun visit hvisit =>
    (hpast.strides visit hvisit).trans (hpast.upTo _ rfl visit hvisit)
  have hsince : ∀ visit ∈ Turn.visited ⟨session, request, fuel⟩,
      session.machine.Evolves visit.2 := fun visit hvisit => (hnext.since visit hvisit).evolves
  refine List.pairwise_append.2 ⟨hpast.pairwise, List.pairwise_cons.2
    ⟨List.forall_mem_map.2 hsince, hnext.pairwise⟩, List.forall_mem_map.2 fun visit hvisit => ?_⟩
  exact List.forall_mem_cons.2 ⟨hupTo visit hvisit, List.forall_mem_map.2 fun later hlater =>
    (hupTo visit hvisit).trans (hsince later hlater)⟩

/-- A turn that declares a class below another and calls its methods. -/
theorem heir_chains_finite : Reached [] .empty ∧
    ∃ visit ∈ Turn.visited ⟨.empty, .run heirText, 40⟩,
      visit.2.superclass? 1 = some 0 ∧ 2 ≤ visit.2.current ∧ visit.2.Grounded := by
  have hreached : Reached [] .empty := .empty
  have hvisited : (Turn.visited ⟨.empty, .run heirText, 40⟩).any
      (fun visit => visit.2.superclass? 1 == some 0 && Nat.ble 2 visit.2.current) = true := by
    decide +kernel
  obtain ⟨visit, hvisit, hlinks⟩ := List.any_eq_true.1 hvisited
  rw [Bool.and_eq_true, beq_iff_eq, Nat.ble_eq] at hlinks
  have hgrounded := (chains_finite hreached (.run heirText) 40).1 visit.2
    (List.mem_append_right _ (List.mem_cons_of_mem _ (List.mem_map_of_mem hvisit)))
  exact ⟨hreached, visit, hvisit, hlinks.1, hlinks.2, hgrounded⟩

end Moth
