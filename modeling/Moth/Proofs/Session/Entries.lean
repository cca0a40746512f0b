import Moth.Proofs.Desugaring.Apart
import Moth.Proofs.Parsing.Advancing
import Moth.Proofs.Resolving.Lexical
import Moth.Proofs.Session.Diagnostics
import Moth.Proofs.Session.References
/-!
# Every reference has an entry of its own

The resolution is keyed by tokens.  No two nodes that refer to something are at one token, whether
or not the text was parsed without complaint, and no two units of a session have a token in common.
So the links of one unit never take the place of another's, and each node is looked up with what
the resolver found for it.
-/

namespace Moth

open Eval Syntax Uses

/-! ## One text -/

theorem uses_programFrom {rules : Rules} {limit : Nat}
    (h : Advances limit 0 (fun _ => 0) rules.declaration) (token : Token) (steps : Nat)
    (body : Array Stmt) (cursor : Cursor) : uses token (programFrom rules steps body cursor).tree ≤
      uses token body + cursor.rest.count token := by
  fun_induction programFrom rules steps body cursor with
  | case1 | case2 | case5 | case6 => exact Nat.le_add_right _ _
  | case3 _ _ _ _ _ _ hreply ih | case4 _ _ _ _ _ hreply ih =>
    have hspent := (h _).spent _ _ hreply token
    grind

/-- The nodes of a program that refer to something are at tokens of the unit, and no two of them
at the same offset. -/
structure ReferencesApart (unit : Nat) (program : List Stmt) : Prop where
  unit : ∀ mention ∈ programMentions program, mention.token.unit = unit
  offsets : ((programMentions program).map (·.token.offset)).Nodup

namespace Request

variable {limits : Limits} {request : Request} {unit : Nat} {draft : Draft}

theorem eventTokens_subperm {scan : Scan} (h : (request.parsed limits scan).tree = some draft) :
    (eventTokens (programEvents draft.program)).Subperm scan.tokens.toList := by
  have honward := onward_nested scan.tokens.toList.length limits.nesting
  refine List.subperm_ext_iff.2 fun token _ => ?_
  rw [programEvents, count_eventsAll]
  cases request with
  | run text =>
    cases h
    refine Nat.le_trans (uses_programFrom honward.declaration token _ _ _) ?_
    exact Nat.le_of_eq (Nat.zero_add _)
  | evaluate text =>
    obtain ⟨expr, hexpr, rfl⟩ := Option.map_eq_some_iff.1 h
    rw [parseExpression] at hexpr
    split at hexpr <;> cases hexpr
    next hreply =>
    have hspent := (advances_wholeExpression honward _).spent _ _ hreply token
    rw [Nat.zero_add] at hspent
    exact Nat.le_trans (Nat.le_add_right _ _) hspent

theorem referencesApart (h : (request.parsed limits (request.scanned unit)).tree = some draft) :
    ReferencesApart unit draft.program := by
  have hsubperm := eventTokens_subperm h
  constructor
  · intro mention hmention
    obtain ⟨event, hevent, reference, href, rfl⟩ := mem_programMentions.1 hmention
    have htoken := hsubperm.subset (List.mem_map_of_mem hevent)
    rw [Event.token_of_reference? href] at htoken
    exact unit_of_scan htoken
  · have hoffsets := OffsetsApart.of_subperm hsubperm
    rw [OffsetsApart, eventTokens, List.map_map] at hoffsets
    rw [← programEvents_mention?]
    refine hoffsets.sublist (picked_sublist (fun event mention hmention => ?_) _)
    obtain ⟨reference, href, rfl⟩ := Option.map_eq_some_iff.1 hmention
    exact congrArg Token.offset (Event.token_of_reference? href).symm

end Request

/-! ## Sessions -/

theorem Reached.units_rise {turns : List Turn} {session : Session} (h : Reached turns session) :
    turns.Pairwise fun later earlier => earlier.unit < later.unit := by
  induction h with
  | start => exact .nil
  | take hreached _ ih =>
    exact .cons (fun old hold => Nat.lt_succ_of_le (hreached.unit_le old hold)) ih
  | setFlags _ _ ih | complain _ ih | takeText _ ih => exact ih

/-- In what is parsed of any text, and in the programs of all turns of a session, no two references
are at one token.  The units of turns differ.  The links of a unit are added to those of earlier
ones, and none is at the token of another.  Whatever a turn looks up is a node of some turn's
program, and it has the hops, or the absence of hops, that the resolver found for that node. -/
theorem entries_distinct {turns : List Turn} {session : Session} (h : Reached turns session)
    (request : Request) (fuel : Nat) :
    let turn : Turn := ⟨session, request, fuel⟩
    (∀ (other : Request) (limits : Limits) (unit : Nat) (draft : Draft),
      (other.parsed limits (other.scanned unit)).tree = some draft →
        ReferencesApart unit draft.program) ∧
    (turn :: turns).Pairwise (fun later earlier => earlier.unit < later.unit) ∧
    (∀ old ∈ turn :: turns, ∀ acceptance, old.session.accept? old.request = some acceptance →
      ReferencesApart old.unit acceptance.program) ∧
    (∀ acceptance, session.accept? request = some acceptance →
      acceptance.machine.resolution.links =
          acceptance.resolution.links ++ session.machine.resolution.links ∧
        (acceptance.machine.resolution.links.map (·.token.spot)).Nodup) ∧
    ∀ task there sort token name, turn.Visits task there →
      task.lookUp? = some (sort, token, name) →
      ∃ old ∈ turn :: turns, ∃ acceptance, old.session.accept? old.request = some acceptance ∧
        ∃ event ∈ programEvents acceptance.program, ∃ place,
          event.reference? = some ⟨sort, token, name, place⟩ ∧
          acceptance.resolution.hops? token = Reference.hops? ⟨sort, token, name, place⟩ ∧
          there.resolution.hops? token = acceptance.resolution.hops? token := by
  refine ⟨fun _ _ _ _ => Request.referencesApart,
    .cons (fun old hold => Nat.lt_succ_of_le (h.unit_le old hold)) h.units_rise, ?_,
    fun _ => h.sound.merged, ?_⟩
  · intro old hold acceptance hsome
    obtain ⟨draft, resolution, hcheck, hprogram⟩ :=
      Session.check_of_accept? (h.ready_upTo old hold) hsome
    obtain ⟨-, hparse, -⟩ := Request.check_eq_accepted.1 hcheck
    exact hprogram ▸ Request.referencesApart (congrArg Parsed.tree hparse)
  · intro task there sort token name hvisit hlookUp
    obtain ⟨hsound, hready⟩ := h.sound.visited hvisit
    obtain ⟨place, -, hknown⟩ := hready.place hlookUp
    obtain ⟨old, hold, acceptance, hsome, event, hevent, href⟩ := id hknown
    have hhops :=
      ((Session.accepted (h.ready_upTo old hold) hsome).2.settled event hevent).hops _ href
    exact ⟨old, hold, acceptance, hsome, event, hevent, place, href, hhops,
      (hsound.settled _ hknown).2.trans hhops.symm⟩

/-- A later unit that reads a variable of its own and calls a function of the earlier unit. -/
def heirTurn : Turn := ⟨heirSession, .run "\x7bvar a=f(); print a;\x7d", 40⟩

/-- Both units have links, and none takes the place of another.  `super` is looked up while the
later unit runs, and with the hops that were found for it in the earlier one. -/
theorem heir_entries_distinct : ∃ acceptance first,
    heirTurn.session.accept? heirTurn.request = some acceptance ∧
      Session.empty.accept? (.run heirText) = some first ∧
      acceptance.machine.resolution.links =
        acceptance.resolution.links ++ heirSession.machine.resolution.links ∧
      (acceptance.machine.resolution.links.map (·.token.spot)).Nodup ∧
      (∃ link ∈ acceptance.resolution.links, link.token.unit = 2) ∧
      (∃ link ∈ heirSession.machine.resolution.links, link.token.unit = 1) ∧
      ∃ task there token, heirTurn.Visits task there ∧
        task.lookUp? = some (.super, token, "super") ∧ token.unit = 1 ∧
        first.resolution.hops? token = some 2 ∧ there.resolution.hops? token = some 2 := by
  obtain ⟨-, -, hapart, hmerged, hfound⟩ :=
    entries_distinct reached_heirSession heirTurn.request heirTurn.fuel
  obtain ⟨hlinks, hlinks', hvisited⟩ :
      (heirTurn.session.accept? heirTurn.request).any
        (fun acceptance => acceptance.resolution.links.any (·.token.unit = 2)) = true ∧
      heirSession.machine.resolution.links.any (·.token.unit = 1) = true ∧
      heirTurn.visited.any (fun visit => visit.1.lookUp?.any fun found => found.1 = .super &&
        found.2.2 = "super" && found.2.1.unit = 1 &&
          visit.2.resolution.hops? found.2.1 = some 2) = true := by
    decide +kernel
  simp only [List.any_eq_true, Option.any_eq_true, Bool.and_eq_true, decide_eq_true_eq,
    Prod.exists] at hlinks hlinks' hvisited
  obtain ⟨acceptance, hsome, hnew⟩ := hlinks
  obtain ⟨task, there, hmem, sort, token, name, hlookUp, ⟨⟨rfl, rfl⟩, hunit⟩, hhops⟩ := hvisited
  have hvisit := Turn.visits_of_mem hmem
  obtain ⟨old, hold, first, hfirst, event, hevent, place, href, -, hsame⟩ :=
    hfound _ _ _ _ _ hvisit hlookUp
  have hmention := mem_programMentions.2 ⟨event, hevent, _, href, rfl⟩
  have holder : old.unit = 1 := ((hapart old hold first hfirst).unit _ hmention).symm.trans hunit
  have hnewer : heirTurn.unit = 2 := by decide +kernel
  rcases List.mem_cons.1 hold with rfl | hold
  · cases hnewer.symm.trans holder
  · obtain rfl := List.mem_singleton.1 hold
    obtain ⟨hadded, hnodup⟩ := hmerged acceptance hsome
    exact ⟨acceptance, first, hsome, hfirst, hadded, hnodup, hnew, hlinks', task, there, token,
      hvisit, hlookUp, hunit, hsame ▸ hhops, hhops⟩

end Moth
