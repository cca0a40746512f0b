import Moth.Proofs.Renaming.Fresh
import Moth.Proofs.Resolving.Accepted
/-!
# Resolving a renamed program

The resolver accepts the renamed program, and it finds the variable of every reference as many
scopes out as before.
-/

namespace Moth

section

variable {r : LocalRenaming}

theorem Stmt.declared?_rename {depth : Option Nat} {stmt : Stmt} (h : stmt.declared? = none) :
    (stmt.rename r depth).declared? = none := by
  cases stmt <;> cases h <;> rfl

mutual

theorem Stmt.rename_branched : ∀ (depth : Option Nat) (stmt : Stmt), stmt.Branched →
    (stmt.rename r depth).Branched
  | _, .block body, h => renameAll_branched _ body h
  | depth, .ifElse _ yes no, ⟨hnone, hyes, hno⟩ =>
    ⟨Stmt.declared?_rename hnone, Stmt.rename_branched depth yes hyes,
      renameElse_branched depth no hno⟩
  | depth, .whileLoop _ body, ⟨hnone, hbody⟩ =>
    ⟨Stmt.declared?_rename hnone, Stmt.rename_branched depth body hbody⟩
  | depth, .function declaration, h => renameFunction_branched depth declaration h
  | _, .classDef _ _ methods, h => renameMethods_branched _ methods h
  | _, .expression _, _ | _, .print _, _ | _, .var .., _ | _, .returns .., _ => trivial
termination_by structural _ stmt => stmt

theorem renameElse_branched : ∀ (depth : Option Nat) (no : Option Stmt), BranchedElse no →
    BranchedElse (renameElse r depth no)
  | _, none, _ => trivial
  | depth, some no, ⟨hnone, hno⟩ =>
    ⟨Stmt.declared?_rename hnone, Stmt.rename_branched depth no hno⟩
termination_by structural _ no => no

theorem renameAll_branched : ∀ (depth : Option Nat) (body : List Stmt), BranchedAll body →
    BranchedAll (renameAll r depth body)
  | _, [], _ => trivial
  | depth, first :: rest, ⟨hfirst, hrest⟩ =>
    ⟨Stmt.rename_branched depth first hfirst, renameAll_branched depth rest hrest⟩
termination_by structural _ body => body

theorem renameFunction_branched : ∀ (depth : Option Nat) (declaration : FunctionDecl),
    BranchedFunction declaration → BranchedFunction (renameFunction r depth declaration)
  | _, ⟨_, _, body⟩, h => renameAll_branched _ body h
termination_by structural _ declaration => declaration

theorem renameMethods_branched : ∀ (depth : Option Nat) (methods : List FunctionDecl),
    BranchedMethods methods → BranchedMethods (renameMethods r depth methods)
  | _, [], _ => trivial
  | depth, first :: rest, ⟨hfirst, hrest⟩ =>
    ⟨renameFunction_branched depth first hfirst, renameMethods_branched depth rest hrest⟩
termination_by structural _ methods => methods

end

end

/-! ## Links -/

def Link.Alike (link other : Link) : Prop :=
  other.token.spot = link.token.spot ∧ other.hops = link.hops

theorem Resolution.hops?_congr {links others : List Link}
    (h : List.Forall₂ Link.Alike links others) (token : Token) :
    Resolution.hops? ⟨others⟩ token = Resolution.hops? ⟨links⟩ token := by
  induction h with
  | nil => rfl
  | @cons link other links others halike _ ih =>
    by_cases hspot : link.token.spot = token.spot
    · simp [Resolution.hops?, Link.spot_eq_iff.2 hspot,
        Link.spot_eq_iff.2 (halike.1.trans hspot), halike.2]
    · rw [Resolution.hops?_cons_of_ne hspot,
        Resolution.hops?_cons_of_ne (halike.1 ▸ hspot), ih]

/-- Events whose references are at the same places have the same links. -/
theorem EventTwins.links {M : Matching}
    (hspot : ∀ {ρs token name token' name'}, M.pairs ρs token name token' name' →
      token'.spot = token.spot)
    {events others : List Event} (h : EventTwins M events others) :
    List.Forall₂ Link.Alike (events.filterMap Event.link?) (others.filterMap Event.link?) := by
  refine List.rel_filterMap (fun event other hevent => ?_) h
  have href := hevent.reference
  unfold Event.link?
  revert href
  cases event.reference? <;> cases other.reference? <;> intro href <;> cases href
  case none.none => exact .none
  case some.some reference reference' href =>
    obtain ⟨hhops, -, ρs, name, name', hpair⟩ := href
    simp only [Option.bind_some, Reference.link?, hhops]
    cases reference.hops? with
    | none => exact .none
    | some hops => exact .some ⟨hspot hpair, rfl⟩

/-! ## The renamed program -/

structure LocalRenaming.Applies (r : LocalRenaming) (program : List Stmt) : Prop where
  plain : r.Plain
  branched : BranchedAll program
  quiet : Quiet (programEvents program)
  formed : ∀ event ∈ programEvents program, event.Formed
  evades : EvadesAll r.fresh (programEvents program)
  linked : Linked r.links (programEvents program)

namespace LocalRenaming.Applies

variable {r : LocalRenaming} {program : List Stmt}

theorem twins (h : r.Applies program) {links : Resolution}
    (hlinks : Linked links (programEvents program)) :
    stmtTwins (h.plain.matching links) [] program (renameAll r none program) := by
  refine renameAll_twin none [] .top program .nil h.branched nofun fun event hevent => ?_
  have hevades := h.evades event hevent
  refine ⟨h.quiet event hevent, h.formed event hevent, fun reference href => ?_, ?_⟩
  · exact ⟨(hevades.reference href).1, (hlinks event hevent reference href).trans
      (h.linked event hevent reference href).symm⟩
  · rintro name place rfl
    exact hevades

theorem events (h : r.Applies program) :
    EventTwins (h.plain.matching r.links) (programEvents program)
      (programEvents (renameAll r none program)) := by
  have hnamed : (h.plain.matching r.links).Named r.links := fun hpair => hpair.2
  have hsame : (h.plain.matching r.links).allows .same := Or.inl rfl
  exact (stmtTwins_together hnamed hsame [] .top .top program .top (h.twins h.linked) h.linked
    (h.plain.clear h.evades)).events

/-- The resolver does not complain about the renamed program. -/
theorem accepted (h : r.Applies program) :
    (resolveProgram (renameAll r none program)).complaints = #[] :=
  (resolveProgram_quiet_iff (renameAll_branched none program h.branched)).2
    (h.events.quiet h.quiet)

/-- At every token the resolver finds the same hops. -/
theorem hops? (h : r.Applies program) (token : Token) :
    (resolveProgram (renameAll r none program)).resolution.hops? token =
      (resolveProgram program).resolution.hops? token := by
  rw [resolveProgram_eq h.branched,
    resolveProgram_eq (renameAll_branched none program h.branched)]
  have hspot : ∀ {ρs token name token' name'},
      (h.plain.matching r.links).pairs ρs token name token' name' → token'.spot = token.spot :=
    fun hpair => hpair.1
  exact Resolution.hops?_congr (h.events.links hspot) token

end LocalRenaming.Applies

end Moth
