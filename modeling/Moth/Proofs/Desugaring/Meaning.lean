import Moth.Proofs.Binding.Course
import Moth.Proofs.Desugaring.Apart
import Moth.Proofs.Desugaring.ForLoop
import Moth.Proofs.Twins.Units
/-!
# The tree of a for statement and its direct meaning

From a sound machine the tree of a for statement is run under the hops that the resolver gave it.
Beside it the direct meaning is run, from the same machine, on a copy of the parts in a unit of its
own, under the hops that the resolver finds for the parts in one scope.  Either both run on
forever, or both end alike: as seen from outside of the loop the two are the same, and nothing that
is run afterwards can tell them apart.
-/

namespace Moth

open Eval

/-! ## For statements that can be read -/

namespace Syntax

theorem Derives.declared? {opens : Bool} {ts : List Token} {stmt : Stmt}
    (h : Derives (.statement opens) ts stmt) : stmt.declared? = none := by
  cases h with
  | expression hstmt =>
    cases hstmt
    rfl
  | @forLoop _ _ _ _ _ _ _ _ init => cases init <;> rfl
  | _ => rfl

end Syntax

namespace ForLoop

open Syntax

/-- The tokens of a for statement and the parts that are read from them. -/
inductive ReadFrom (opens : Bool) : List Token → ForLoop → Prop where
  | mk {keyword left middle right : Token} {is cs ns bs : List Token} {loop : ForLoop} :
      keyword.kind = .keyword .for → left.kind = .symbol .leftParen →
      Derives .initializer is loop.init → Derives .optional cs loop.condition →
      middle.kind = .symbol .semicolon → Derives .optional ns loop.increment →
      right.kind = .symbol .rightParen → Derives (.statement opens) bs loop.body →
      ReadFrom opens (keyword :: left :: (is ++ (cs ++ middle :: (ns ++ right :: bs)))) loop

theorem ReadFrom.formed {opens : Bool} {ts : List Token} {loop : ForLoop}
    (h : loop.ReadFrom opens ts) : loop.Formed := by
  cases h with
  | @mk _ _ _ _ _ _ _ _ loop _ _ hinit _ _ _ _ hbody =>
    refine ⟨fun init hsome => ?_, hbody.declared?⟩
    rw [Option.mem_def.1 hsome] at hinit
    cases hinit with
    | variableInitializer hvariable =>
      cases hvariable with
      | plainVariable => exact .inl ⟨_, _, rfl⟩
      | initialVariable => exact .inl ⟨_, _, rfl⟩
    | expressionInitializer hexpression =>
      cases hexpression
      exact .inr ⟨_, rfl⟩

/-- A statement that begins with `for` is the tree of the parts that are read. -/
theorem exists_readFrom {opens : Bool} {ts : List Token} {stmt : Stmt}
    (h : Derives (.statement opens) ts stmt) (hfor : ahead ts = some (.keyword .for)) :
    ∃ loop : ForLoop, loop.ReadFrom opens ts ∧ stmt = loop.tree := by
  cases h with
  | @forLoop _ _ _ _ _ _ _ _ init condition increment body _ hkeyword hleft hinit hcondition
      hmiddle hincrement hright hbody =>
    exact ⟨⟨init, condition, increment, body⟩,
      .mk hkeyword hleft hinit hcondition hmiddle hincrement hright hbody,
      (forLoop_eq_loop init condition increment body).symm⟩
  | expression hstmt =>
    obtain ⟨kind, hkind, hbegins⟩ := hstmt.starts
    rw [hfor, Option.some.injEq] at hkind
    rw [← hkind] at hbegins
    cases hbegins
  | print h | returns h | block h | whileLoop h | ifThen h | ifElse h =>
    rw [ahead_cons, h] at hfor
    cases hfor

end ForLoop

/-! ## A machine beside itself -/

def Forest.Itself (scopes : Forest Value) (scope scope' : Nat) : Prop :=
  scope' = scope ∧ scope < scopes.next

theorem Forest.Rooted.paired {scopes : Forest Value} (h : scopes.Rooted) :
    Beside.Paired ⟨scopes, scopes, scopes.Itself⟩ where
  globals := ⟨rfl, h.rooted⟩
  inside := by
    rintro scope _ ⟨rfl, hlt⟩
    exact ⟨hlt, hlt⟩
  unique := by
    rintro scope _ other _ ⟨rfl, -⟩ ⟨rfl, -⟩
    exact .rfl
  bindings := by
    rintro scope _ ⟨rfl, -⟩
    rfl
  root := h.root
  root' := h.root

section

variable {past : Past}

theorem Chain.chains {scopes : Forest Value} {scope : Nat} {frames : List Frame}
    (h : Chain past scopes scope frames) :
    Beside.Chains ⟨scopes, scopes, scopes.Itself⟩ (frames.map fun _ => .both) scope scope := by
  induction h with
  | globals => exact .globals
  | inner henclosing _ _ _ ih =>
    exact .both ⟨rfl, Forest.lt_next_of_enclosing? henclosing⟩ henclosing henclosing ih

theorem sharedHere_both (frames : List Frame) :
    SharedHere (frames.map fun _ => Layer.both) := by
  cases frames <;> trivial

variable {machine : Machine} {others : Resolution}

/-- Known events are settled in the resolution of a sound machine. -/
theorem Machine.Sound.settles (h : machine.Sound past) {events : List Event}
    (hknows : ∀ event ∈ events, past.Knows event) :
    ∀ event ∈ events, event.Settled machine.resolution :=
  fun event hevent => ⟨(hknows event hevent).1,
    fun reference href => (h.settled reference ((hknows event hevent).2 reference href)).1,
    fun reference href => (h.settled reference ((hknows event hevent).2 reference href)).2⟩

/-- They keep their hops in a resolution that agrees about them. -/
theorem Machine.Sound.linked (h : machine.Sound past)
    (hagrees : ∀ reference, past.known reference →
      others.hops? reference.token = machine.resolution.hops? reference.token)
    {events : List Event} (hknows : ∀ event ∈ events, past.Knows event) :
    Linked others events := by
  intro event hevent reference href
  have hknown := (hknows event hevent).2 reference href
  rw [hagrees reference hknown, (h.settled reference hknown).2]

theorem Machine.Sound.functionFits (h : machine.Sound past)
    (hagrees : ∀ reference, past.known reference →
      others.hops? reference.token = machine.resolution.hops? reference.token)
    {declaration : FunctionDecl} (horderly : declaration.Orderly) {context : Context}
    {place : Place} (hknows : ∀ event ∈ functionEvents context place declaration,
      past.Knows event) :
    FunctionFits ⟨machine.resolution, others⟩ (place.frames.map fun _ => .both) declaration
      declaration := by
  have hfits := Moth.functionFits (J := ⟨machine.resolution, others⟩) Relabelling.moves_same
    context (.refl place) declaration horderly.branched (h.settles hknows)
    (by rw [relabelFunction_same]; exact h.linked hagrees hknows)
  rwa [relabelFunction_same] at hfits

/-- A sound machine goes side by side with itself, under another resolution that agrees about what
is known. -/
theorem Machine.Sound.parallel (h : machine.Sound past) (hrooted : machine.scopes.Rooted)
    {links : Resolution} (hwithin : machine.Within orderlyCode links)
    (hagrees : ∀ reference, past.known reference →
      others.hops? reference.token = machine.resolution.hops? reference.token) :
    Machine.Parallel ⟨machine.resolution, others⟩ machine.scopes.Itself machine
      { machine with resolution := others } where
  scopes := hrooted.paired
  functions := by
    refine List.forall₂_same.2 fun closure hclosure => ?_
    obtain ⟨id, hid⟩ := List.mem_iff_getElem?.1 hclosure
    have hid : machine.functions[id]? = some closure := by simpa using hid
    obtain ⟨place, context, hchain, hknows⟩ := (h.functions id closure hid).placed
    exact ⟨rfl, _, hchain.chains, h.functionFits hagrees (hwithin.functions id closure hid) hknows,
      fun _ => sharedHere_both place.frames⟩
  classes := by
    refine List.forall₂_same.2 fun entry hentry => ⟨rfl, rfl, fun name => ?_⟩
    obtain ⟨id, hid⟩ := List.mem_iff_getElem?.1 hentry
    have hid : machine.classes[id]? = some entry := by simpa using hid
    cases hmethod : entry.methods.find? name with
    | none => exact .none
    | some method =>
      obtain ⟨place, context, className, methods, hchain, -, hknows⟩ :=
        h.methods id entry name method hid hmethod
      exact .some ⟨rfl, _, hchain.chains, h.functionFits hagrees
        (hwithin.methods id entry name method hid hmethod) hknows, fun _ => trivial⟩
  instances := rfl
  links := rfl
  others := rfl
  sources := rfl
  output := rfl

end

/-! ## The links of the parts in one scope -/

theorem OffsetsApart.nodup_spots {events : List Event} (h : OffsetsApart events) :
    (eventSpots events).Nodup := by
  rw [eventSpots_eq_map]
  exact List.pairwise_map.2 ((List.pairwise_map.1 h).imp
    fun hne heq => hne (Prod.mk.inj heq).2)

/-- Events of a new unit have their hops when their links are added to older ones. -/
theorem linked_merge {events : List Event} {unit : Nat} {older : Resolution}
    (hapart : OffsetsApart events) (hunit : ∀ token ∈ eventTokens events, token.unit = unit)
    (holder : ∀ link ∈ older.links, link.token.unit < unit) :
    Linked (older.merge ⟨events.filterMap Event.link?⟩) events := by
  intro event hevent reference href
  have htoken : reference.token.unit = unit :=
    hunit _ (List.mem_map.2 ⟨event, hevent, Event.token_of_reference? href⟩)
  have hnone : older.hops? reference.token = none :=
    Resolution.hops?_eq_none_of_unit fun link hlink heq =>
      absurd (holder link hlink) (by rw [heq, htoken]; exact Nat.lt_irrefl unit)
  rw [Resolution.hops?_merge, hnone, Option.or_none]
  exact Resolution.hops?_eventLinks hapart.nodup_spots hevent href

section

variable {r : Relabelling}

theorem Stmt.declared?_relabel_none {stmt : Stmt} (h : stmt.declared? = none) :
    (stmt.relabel r).declared? = none := by
  cases stmt with
  | var | function | classDef => cases h
  | _ => rfl

mutual

theorem Stmt.branched_relabel : ∀ stmt : Stmt, stmt.Branched → (stmt.relabel r).Branched
  | .block body, h => branchedAll_relabel body h
  | .ifElse _ yes no, ⟨hnone, hyes, hno⟩ =>
    ⟨Stmt.declared?_relabel_none hnone, yes.branched_relabel hyes, branchedElse_relabel no hno⟩
  | .whileLoop _ body, ⟨hnone, hbody⟩ =>
    ⟨Stmt.declared?_relabel_none hnone, body.branched_relabel hbody⟩
  | .function declaration, h => branchedFunction_relabel declaration h
  | .classDef _ _ methods, h => branchedMethods_relabel methods h
  | .expression _, _ | .print _, _ | .var _ _, _ | .returns _ _, _ => trivial

theorem branchedElse_relabel : ∀ no : Option Stmt, BranchedElse no →
    BranchedElse (relabelElse r no)
  | none, _ => trivial
  | some no, ⟨hnone, hno⟩ => ⟨Stmt.declared?_relabel_none hnone, no.branched_relabel hno⟩

theorem branchedAll_relabel : ∀ body : List Stmt, BranchedAll body → BranchedAll (relabelAll r body)
  | [], _ => trivial
  | first :: rest, ⟨hfirst, hrest⟩ =>
    ⟨first.branched_relabel hfirst, branchedAll_relabel rest hrest⟩

theorem branchedFunction_relabel : ∀ declaration : FunctionDecl, BranchedFunction declaration →
    BranchedFunction (relabelFunction r declaration)
  | ⟨_, _, body⟩, h => branchedAll_relabel body h

theorem branchedMethods_relabel : ∀ methods : List FunctionDecl, BranchedMethods methods →
    BranchedMethods (relabelMethods r methods)
  | [], _ => trivial
  | first :: rest, ⟨hfirst, hrest⟩ =>
    ⟨branchedFunction_relabel first hfirst, branchedMethods_relabel rest hrest⟩

end

end

theorem Expr.exists_tokens (expr : Expr) :
    ∃ tokens, ∀ place, eventTokens (expr.events place) = tokens := by
  refine ⟨eventTokens (expr.events .top), fun place => ?_⟩
  have htokens := expr.eventTokens_relabel .same .top place
  rwa [expr.relabel_same, Relabelling.label_same, List.map_id] at htokens

theorem Stmt.exists_tokens (stmt : Stmt) :
    ∃ tokens, ∀ place, eventTokens (stmt.events place) = tokens :=
  ⟨_, stmt.eventTokens_eq .top⟩

namespace ForLoop

/-- The resolver comes to the same tokens in the tree and in the parts in one scope. -/
theorem eventTokens_flat (loop : ForLoop) (place other : Place) :
    eventTokens (loop.flat.events other) = eventTokens (loop.tree.events place) := by
  obtain ⟨init, condition, increment, body⟩ := loop
  obtain ⟨conditions, hconditions⟩ :=
    (treeCondition ⟨init, condition, increment, body⟩).exists_tokens
  obtain ⟨bodies, hbodies⟩ := body.exists_tokens
  have hturn (place : Place) : eventTokens ((treeBody ⟨init, condition, increment, body⟩).events
      place) = bodies ++ eventTokens (initEvents .top increment) := by
    cases increment with
    | none => exact (hbodies place).trans (List.append_nil _).symm
    | some increment =>
      obtain ⟨increments, hincrements⟩ := increment.exists_tokens
      simp only [treeBody, Stmt.events, eventsAll, eventTokens_append, List.append_nil, hbodies,
        hincrements, initEvents]
  have hincrement (place : Place) : eventTokens (eventsAll place
      (increment.toList.map .expression)) = eventTokens (initEvents .top increment) := by
    cases increment with
    | none => rfl
    | some increment =>
      obtain ⟨increments, hincrements⟩ := increment.exists_tokens
      simp only [Option.toList_some, List.map_cons, List.map_nil, Stmt.events, eventsAll,
        List.append_nil, hincrements, initEvents]
  cases init with
  | none =>
    rw [tree_of_none _ rfl]
    simp only [flat, parts, Option.toList_none, List.nil_append, Stmt.events, eventsAll,
      eventTokens_append, hconditions, hbodies, hturn, hincrement, List.append_assoc]
  | some init =>
    obtain ⟨inits, hinits⟩ := init.exists_tokens
    rw [tree_of_some _ rfl]
    simp only [flat, parts, Option.toList_some, List.cons_append, List.nil_append, Stmt.events,
      eventsAll, eventTokens_append, hinits, hconditions, hbodies, hturn, hincrement,
      List.append_assoc, List.append_nil]

theorem flat_relabel (r : Relabelling) (loop : ForLoop) :
    (loop.relabel r).flat = loop.flat.relabel r := by
  obtain ⟨init, condition, increment, body⟩ := loop
  cases init <;> cases condition <;> cases increment <;> rfl

/-- In the parts in one scope branches and loops declare nothing, as in the tree. -/
theorem Formed.branched_flat {loop : ForLoop} (h : loop.Formed) (hbody : loop.body.Branched) :
    loop.flat.Branched := by
  obtain ⟨init, condition, increment, body⟩ := loop
  have hrest : BranchedAll (.whileLoop (treeCondition ⟨init, condition, increment, body⟩) body ::
      increment.toList.map .expression) := by
    refine ⟨⟨h.body, hbody⟩, ?_⟩
    cases increment <;> trivial
  cases init with
  | none => exact hrest
  | some init =>
    refine ⟨?_, hrest⟩
    rcases h.init init rfl with ⟨name, value, rfl⟩ | ⟨value, rfl⟩ <;> trivial

variable (loop : ForLoop) (unit : Nat) (place : Place)

def copy : ForLoop := loop.relabel (.toUnit unit)

/-- The links that the resolver finds when it comes to a copy of the parts in one scope. -/
def directLinks : Resolution :=
  ⟨((loop.copy unit).flat.resolve place.context ⟨place.scopes, #[], #[]⟩).links.toList⟩

variable {loop}

theorem Formed.directLinks_eq (h : loop.Formed) (hbody : loop.body.Branched) :
    loop.directLinks unit place =
      ⟨((loop.copy unit).flat.events place).filterMap Event.link?⟩ := by
  have hbranched : (loop.copy unit).flat.Branched := by
    rw [copy, flat_relabel]
    exact Stmt.branched_relabel _ (h.branched_flat hbody)
  have hresolve := (loop.copy unit).flat.resolve_moveTo place .start hbranched
  rw [Resolver.noteAll_eq] at hresolve
  have hlinks := congrArg (fun r : Resolver => (⟨r.links.toList⟩ : Resolution)) hresolve
  exact hlinks.trans (by simp [Resolver.moveTo, Resolver.start])

variable (loop)

theorem eventTokens_copy : eventTokens ((loop.copy unit).flat.events place) =
    (eventTokens (loop.tree.events place)).map (Relabelling.toUnit unit).label := by
  rw [copy, flat_relabel, Stmt.eventTokens_relabel _ place, loop.eventTokens_flat place]

variable {loop}

/-- The direct links give the copy its hops. -/
theorem Formed.linked_copy (h : loop.Formed) (hbody : loop.body.Branched)
    (hapart : OffsetsApart (loop.tree.events place)) {older : Resolution}
    (holder : ∀ link ∈ older.links, link.token.unit < unit) :
    Linked (older.merge (loop.directLinks unit place)) ((loop.copy unit).flat.events place) := by
  rw [h.directLinks_eq unit place hbody]
  refine linked_merge ?_ ?_ holder
  · unfold OffsetsApart
    rw [eventTokens_copy, List.map_map]
    exact hapart
  · rw [eventTokens_copy]
    intro token htoken
    obtain ⟨original, -, rfl⟩ := List.mem_map.1 htoken
    rfl

/-- What is known in earlier units keeps its hops. -/
theorem Formed.hops?_merge_direct (h : loop.Formed) (hbody : loop.body.Branched)
    {older : Resolution} {token : Token} (htoken : token.unit < unit) :
    (older.merge (loop.directLinks unit place)).hops? token = older.hops? token := by
  have hnone : (loop.directLinks unit place).hops? token = none := by
    rw [h.directLinks_eq unit place hbody]
    refine Resolution.hops?_eq_none_of_unit fun link hlink heq => ?_
    obtain ⟨event, hevent, hlink⟩ := List.mem_filterMap.1 hlink
    obtain ⟨reference, href, hlink⟩ := Option.bind_eq_some_iff.1 hlink
    have hmem : reference.token ∈ eventTokens ((loop.copy unit).flat.events place) :=
      List.mem_map.2 ⟨event, hevent, Event.token_of_reference? href⟩
    rw [eventTokens_copy] at hmem
    obtain ⟨original, -, heq'⟩ := List.mem_map.1 hmem
    have hunit : reference.token.unit = unit := (congrArg Token.unit heq').symm
    rw [Reference.token_of_link? hlink, hunit] at heq
    omega
  rw [Resolution.hops?_merge, hnone, Option.none_or]

end ForLoop

/-! ## The same as seen from outside -/

/-- Machines after two runs from one start that are the same to all that was there before: in the
same scope, with the same bindings in all older scopes and the same objects, having read and
printed the same. -/
structure Machine.SameOutside (start after after' : Machine) : Prop where
  current : after.current = start.current
  current' : after'.current = start.current
  bindings : ∀ scope < start.scopes.next,
    after'.scopes.bindings scope = after.scopes.bindings scope
  instances : after'.instances = after.instances
  display : ∀ value, after'.display value = after.display value
  world : after'.world = after.world
  input : after'.input = after.input
  output : after'.output = after.output
  clockReadings : after'.clockReadings = after.clockReadings
  draws : after'.draws = after.draws

/-- The same outcome, and the same as seen from outside after it.  A failure has the same fault at
the same token, but for the unit of the token. -/
inductive Outcome.SameOutside {α : Type} (start : Machine) : Outcome α → Outcome α → Prop where
  | done {value : α} {after after' : Machine} : start.SameOutside after after' →
      SameOutside start (.done value after) (.done value after')
  | failed {failure failure' : Failure} {after after' : Machine} :
      failure.token.Alike failure'.token → failure'.fault = failure.fault →
      start.SameOutside after after' →
      SameOutside start (.failed failure after) (.failed failure' after')
  | stuck {after after' : Machine} : SameOutside start (.stuck after) (.stuck after')
  | outOfFuel : SameOutside start .outOfFuel .outOfFuel

/-- Nothing that is run afterwards can tell the machines apart, from outside: neither a call of any
value nor any known statement at the place. -/
structure Machine.Inseparable (past : Past) (place : Place) (start after after' : Machine) :
    Prop where
  calls : ∀ (fuel room : Nat) (paren : Token) (callee : Value) (args : List Value),
    (call fuel room paren callee args after).SameOutside start
      (call fuel room paren callee args after')
  stmts : ∀ (fuel room : Nat) (stmt : Stmt), stmt.Branched →
    (∀ event ∈ stmt.events place, past.Knows event) →
    (execute fuel room stmt after).SameOutside start (execute fuel room stmt after')

/-- Runs that mean the same.  Either neither ends, whatever its fuel is, or both end with the same
outcome, are not stuck, and nothing can tell afterwards which of them was run. -/
def SameMeaning (past : Past) (place : Place) (start : Machine)
    (runs runs' : Nat → Outcome Completion) : Prop :=
  (∀ fuel, runs fuel = .outOfFuel ∧ runs' fuel = .outOfFuel) ∨
  ∃ outcome outcome' after after', Settles runs outcome ∧ Settles runs' outcome' ∧
    after ∈ outcome.machine? ∧ after' ∈ outcome'.machine? ∧ (∀ there, outcome ≠ .stuck there) ∧
    outcome.SameOutside start outcome' ∧ start.Inseparable past place after after'

section

variable {J : Joint} {start other : Machine}

theorem Machine.Parallel.sameOutside {later : Nat → Nat → Prop} {after after' : Machine}
    (h : Machine.Parallel J later after after')
    (hwidens : (start.beside other start.scopes.Itself).Widens (after.beside after' later))
    (hcurrent : after.current = start.current) (hcurrent' : after'.current = start.current) :
    start.SameOutside after after' where
  current := hcurrent
  current' := hcurrent'
  bindings scope hlt := h.scopes.bindings (hwidens.pairing scope scope ⟨rfl, hlt⟩)
  instances := h.instances
  display := h.display
  world := congrArg (·.world) h.sources
  input := h.input
  output := h.output
  clockReadings := congrArg (·.clockReadings) h.sources
  draws := congrArg (·.draws) h.sources

theorem Outcome.Parallel.sameOutside {α : Type} {outcome outcome' : Outcome α}
    (h : outcome.Parallel J start.scopes.Itself start other outcome')
    (hother : other.current = start.current) : outcome.SameOutside start outcome' := by
  cases h with
  | done hwidens hafter hcurrent hcurrent' =>
    exact .done (hafter.sameOutside hwidens hcurrent (hcurrent'.trans hother))
  | failed htoken hfault hwidens hafter hcurrent hcurrent' =>
    exact .failed htoken hfault (hafter.sameOutside hwidens hcurrent (hcurrent'.trans hother))
  | stuck => exact .stuck
  | outOfFuel => exact .outOfFuel

theorem Outcome.Parallel.outOfFuel_iff {α : Type} {pairing : Nat → Nat → Prop}
    {outcome outcome' : Outcome α} (h : outcome.Parallel J pairing start other outcome') :
    outcome = .outOfFuel ↔ outcome' = .outOfFuel := by
  cases h <;> simp

/-- Machines that go side by side cannot be told apart. -/
theorem Machine.Parallel.inseparable {past : Past} {place : Place} (hstart : start.Sound past)
    {others : Resolution} (hagrees : ∀ reference, past.known reference →
      others.hops? reference.token = start.resolution.hops? reference.token)
    (hchain : Chain past start.scopes start.current place.frames) {later : Nat → Nat → Prop}
    {after after' : Machine}
    (hafter : Machine.Parallel ⟨start.resolution, others⟩ later after after')
    (hwidens : (start.beside start start.scopes.Itself).Widens (after.beside after' later))
    (hcurrent : after.current = start.current) (hcurrent' : after'.current = start.current) :
    start.Inseparable past place after after' := by
  have hchains : (after.beside after' later).Chains (place.frames.map fun _ => .both)
      after.current after'.current := by
    rw [hcurrent, hcurrent']
    exact hchain.chains.mono hwidens
  refine ⟨fun fuel room paren callee args => ?_, fun fuel room stmt hbranched hknows => ?_⟩
  · have hcall := (lockstep ⟨start.resolution, others⟩ fuel).call room (.refl paren) callee args
      later after after' hafter hchains
    exact (hcall.since hwidens hcurrent hcurrent').sameOutside rfl
  · have hfits := Stmt.fits (J := ⟨start.resolution, others⟩) Relabelling.moves_same
      (.refl place) stmt hbranched (.inr (sharedHere_both place.frames)) (hstart.settles hknows)
      (by rw [stmt.relabel_same]; exact hstart.linked hagrees hknows)
    rw [stmt.relabel_same] at hfits
    have hrun := (lockstep _ fuel).execute room hfits later after after' hafter hchains
    exact (hrun.since hwidens hcurrent hcurrent').sameOutside rfl

theorem Outcome.Parallel.exists_inseparable {past : Past} {place : Place}
    (hstart : start.Sound past) {others : Resolution}
    (hagrees : ∀ reference, past.known reference →
      others.hops? reference.token = start.resolution.hops? reference.token)
    (hchain : Chain past start.scopes start.current place.frames) {α : Type}
    {outcome outcome' : Outcome α}
    (h : outcome.Parallel ⟨start.resolution, others⟩ start.scopes.Itself start
      { start with resolution := others } outcome')
    (hstuck : ∀ there, outcome ≠ .stuck there) (hends : outcome ≠ .outOfFuel) :
    ∃ after after', after ∈ outcome.machine? ∧ after' ∈ outcome'.machine? ∧
      start.Inseparable past place after after' := by
  cases h with
  | done hwidens hafter hcurrent hcurrent' | failed _ _ hwidens hafter hcurrent hcurrent' =>
    exact ⟨_, _, rfl, rfl, hafter.inseparable hstart hagrees hchain hwidens hcurrent hcurrent'⟩
  | stuck => exact absurd rfl (hstuck _)
  | outOfFuel => exact absurd rfl hends

end

namespace ForLoop

variable {loop : ForLoop} {past : Past} {place : Place} {machine : Machine} {unit : Nat}

theorem branched_body (h : loop.tree.Branched) : loop.body.Branched := by
  obtain ⟨init, condition, increment, body⟩ := loop
  cases init <;> cases increment
  · exact h.2
  · exact h.2.1
  · exact h.2.1.2
  · exact h.2.1.2.1

/-- The tree means what the parts say, from a sound machine that is not to get stuck. -/
theorem Formed.sameMeaning (h : loop.Formed) (horderly : loop.tree.Orderly)
    (hsound : machine.Sound past) (hrooted : machine.scopes.Rooted)
    {links : Resolution} (hwithin : machine.Within orderlyCode links)
    (hchain : Chain past machine.scopes machine.current place.frames)
    (hknows : ∀ event ∈ loop.tree.events place, past.Knows event)
    (hknown : ∀ reference, past.known reference → reference.token.unit < unit)
    (hlinks : ∀ link ∈ machine.resolution.links, link.token.unit < unit) {room : Nat}
    (hends : ∀ fuel there, execute fuel room loop.tree machine ≠ .stuck there) :
    SameMeaning past place machine (fun fuel => execute fuel room loop.tree machine)
      (fun fuel => (loop.copy unit).run fuel room
        (machine.addLinks (loop.directLinks unit place))) := by
  have hbody := branched_body horderly.branched
  have hagrees : ∀ reference, past.known reference →
      (machine.resolution.merge (loop.directLinks unit place)).hops? reference.token =
        machine.resolution.hops? reference.token :=
    fun reference href => h.hops?_merge_direct unit place hbody (hknown reference href)
  have hmachines := hsound.parallel hrooted hwithin hagrees
  have hfits : loop.Fits ⟨machine.resolution,
      machine.resolution.merge (loop.directLinks unit place)⟩ (place.frames.map fun _ => .both)
      (loop.copy unit) :=
    h.fits hbody (Relabelling.moves_toUnit unit) (.refl place) (hsound.settles hknows)
      (h.linked_copy unit place hbody (horderly.apart place) hlinks)
  have hside (fuel : Nat) : (loop.unrolled fuel room machine).Parallel _ _ machine
      (machine.addLinks (loop.directLinks unit place)) ((loop.copy unit).run fuel room _) :=
    hfits.unrolled fuel room _ _ _ hmachines hchain.chains
  by_cases hfuel : ∃ fuel, execute fuel room loop.tree machine ≠ .outOfFuel
  · -- what the tree does its steps do, and beside them the direct meaning
    obtain ⟨fuel, hfuel⟩ := hfuel
    have hruns := hside (fuel + 3)
    rw [h.tree_below room fuel machine hfuel] at hruns
    have hfuel' := mt hruns.outOfFuel_iff.2 hfuel
    obtain ⟨after, after', hafter, hafter', hinseparable⟩ :=
      hruns.exists_inseparable hsound hagrees hchain (hends fuel) hfuel
    exact .inr ⟨_, _, after, after',
      ⟨fuel, fun more hle => execute_below room hle loop.tree machine hfuel⟩,
      ⟨fuel + 3, fun more hle => (loop.copy unit).run_below room hle _ hfuel'⟩,
      hafter, hafter', hends fuel, hruns.sameOutside rfl, hinseparable⟩
  · -- were the direct meaning to end, so would the steps of the tree, and the tree
    have htree (fuel : Nat) : execute fuel room loop.tree machine = .outOfFuel :=
      Classical.not_not.1 fun hne => hfuel ⟨fuel, hne⟩
    refine .inl fun fuel => ⟨htree fuel, (hside fuel).outOfFuel_iff.1 ?_⟩
    refine Classical.not_not.1 fun hne => hne ?_
    rw [← h.below_tree room fuel machine hne]
    exact htree _

end ForLoop

end Moth
