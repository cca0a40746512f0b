import Moth.Proofs.Parsing.First
/-!
# Derived expressions are read

An expression that the grammar derives is read by the parser as the tree of its
derivation, with no complaint.  The grammar is left recursive where the parser goes on in
steps, so a derived expression is first shown to bring the rule of its level to the point
where it may go on (`Completes`).
-/

namespace Moth.Syntax

open Rule

def Completes (level : Level) (ts : List Token) (expr : Expr) : Prop :=
  ∀ bound n rest, ts.length ≤ bound → Settles level rest →
    ∃ steps, bound ≤ steps + ts.length ∧ ∀ stop complaints,
      level.rule bound (Rules.nested bound n) ⟨ts ++ rest, stop, complaints⟩ =
          level.more bound (Rules.nested bound n) steps expr ⟨rest, stop, complaints⟩ ∨
        n + 1 ≤ ts.length ∧ ∃ cursor,
          level.rule bound (Rules.nested bound n) ⟨ts ++ rest, stop, complaints⟩ =
            .tooDeep cursor

variable {level : Level} {ts us rest : List Token} {expr left right value : Expr}

theorem Completes.reads (h : Completes level ts expr) {bound : Nat} (n : Nat)
    (hbound : ts.length ≤ bound) (hstops : Stops level rest) :
    Reads (level.rule bound (Rules.nested bound n)) (n + 1) ts expr rest := by
  obtain ⟨steps, -, hread⟩ := h bound n rest hbound hstops.settles
  intro stop complaints
  rcases hread stop complaints with hread | hdeep
  · left
    rw [hread, more_of_stops hstops]
  · exact .inr hdeep

theorem completes_primary
    (h : ∀ bound n rest, ts.length ≤ bound →
      Reads (Grammar.primary (Rules.nested bound n)) (n + 1) ts expr rest) :
    Completes .primary ts expr :=
  fun bound n rest hbound _ => ⟨bound, Nat.le_add_right _ _, h bound n rest hbound⟩

theorem completes_unary
    (h : ∀ bound n rest, ts.length ≤ bound → Stops .unary rest →
      Reads (Grammar.unary bound (Rules.nested bound n)) (n + 1) ts expr rest) :
    Completes .unary ts expr :=
  fun bound n rest hbound hstops =>
    ⟨bound, Nat.le_add_right _ _, h bound n rest hbound hstops⟩

theorem completes_assignment
    (h : ∀ bound n rest, ts.length ≤ bound → Stops .assignment rest →
      Reads (Grammar.expression bound (Rules.nested bound n)) (n + 1) ts expr rest) :
    Completes .assignment ts expr :=
  fun bound n rest hbound hstops =>
    ⟨bound, Nat.le_add_right _ _, h bound n rest hbound hstops⟩

theorem Completes.nested (h : Completes .assignment ts expr) {bound : Nat} (n : Nat)
    (hbound : ts.length ≤ bound) (hstops : Stops .assignment rest) :
    Reads (Rules.nested bound n).expression n ts expr rest :=
  reads_nested Rules.expression rfl fun n => h.reads n hbound hstops

theorem Completes.nested_unary (h : Completes .unary ts expr) {bound : Nat} (n : Nat)
    (hbound : ts.length ≤ bound) (hstops : Stops .unary rest) :
    Reads (Rules.nested bound n).unary n ts expr rest :=
  reads_nested Rules.unary rfl fun n => h.reads n hbound hstops

/-! ## Primary expressions -/

theorem completes_literal {token : Token} {literal : Literal}
    (h : Writes token.kind literal) : Completes .primary [token] (.literal literal) := by
  apply completes_primary
  intro bound n rest _
  exact Reads.pick (literal?_eq_some_iff.2 h) (.done _ _ _)

theorem completes_this {keyword : Token} (h : keyword.kind = .keyword .this) :
    Completes .primary [keyword] (.this keyword) := by
  apply completes_primary
  intro bound n rest _
  apply Reads.pass (by simp [h, Grammar.literal?])
  exact Reads.take h (.done _ _ _)

theorem completes_ref {name : Token} (h : name.kind = .identifier) :
    Completes .primary [name] (.ref name) := by
  apply completes_primary
  intro bound n rest _
  apply Reads.pass (by simp [h, Grammar.literal?])
  apply Reads.skip (by simp [h])
  exact Reads.take h (.done _ _ _)

theorem completes_super {keyword dot method : Token} (hsuper : keyword.kind = .keyword .super)
    (hdot : dot.kind = .symbol .dot) (hmethod : method.kind = .identifier) :
    Completes .primary [keyword, dot, method] (.super keyword method) := by
  apply completes_primary
  intro bound n rest _
  apply Reads.pass (by simp [hsuper, Grammar.literal?])
  iterate 2 apply Reads.skip (by simp [hsuper])
  apply Reads.take hsuper
  apply Reads.expect hdot
  exact Reads.expect hmethod (.done _ _ _)

theorem Completes.grouping {open_ close : Token} (hopen : open_.kind = .symbol .leftParen)
    (h : Completes .assignment ts expr) (hclose : close.kind = .symbol .rightParen) :
    Completes .primary (open_ :: (ts ++ [close])) (.grouping expr) := by
  apply completes_primary
  intro bound n rest hbound
  simp only [List.length_cons, List.length_append] at hbound
  have hstops : Stops .assignment (close :: rest) :=
    stops_closing .rightParen (by simp) (by simp [hclose])
  apply Reads.pass (by simp [hopen, Grammar.literal?])
  iterate 3 apply Reads.skip (by simp [hopen])
  apply Reads.takePaid hopen
  apply Reads.bind (h.nested n (by omega) hstops)
  exact Reads.expect hclose (.done _ _ _)

/-! ## Steps behind an expression -/

theorem settles_iff_of_groups (h : level.Groups) :
    Settles level rest ↔ Stops level.tighter rest := by
  obtain ⟨kind, join, hjoin⟩ := h
  cases hjoin <;> rfl

theorem Completes.joined {mark : Token} {join : Token → Expr → Expr → Expr}
    (hmark : Joins level mark.kind join) (hleft : Completes level ts left)
    (hright : Completes level.tighter us right) :
    Completes level (ts ++ mark :: us) (join mark left right) := by
  have hgroups : level.Groups := ⟨_, _, hmark⟩
  intro bound n rest hbound hsettles
  simp only [List.length_append, List.length_cons] at hbound
  obtain ⟨steps, hsteps, hread⟩ := hleft bound n (mark :: (us ++ rest)) (by omega)
    ((settles_iff_of_groups hgroups).2 (hmark.stops _))
  have hoperand : Reads (level.tighter.rule bound (Rules.nested bound n)) (n + 1) us right
      rest := hright.reads n (by omega) ((settles_iff_of_groups hgroups).1 hsettles)
  -- the mark and what follows it fit, so at least one step is left
  obtain ⟨steps, rfl⟩ : ∃ fewer, steps = fewer + 1 := ⟨steps - 1, by omega⟩
  refine ⟨steps, by simp only [List.length_append, List.length_cons]; omega, ?_⟩
  intro stop complaints
  simp only [List.append_assoc, List.cons_append, List.length_append, List.length_cons]
  rcases hread stop complaints with hread | ⟨hlevels, hdeep⟩
  · rw [hread, more_of_groups hgroups, more_of_groups hgroups, Grammar.operands,
      bind_ok (takePicked_some (join?_eq_some_iff.2 hmark) _ stop complaints)]
    simp only
    rcases hoperand stop complaints with hok | ⟨hlevels, cursor, hdeep⟩
    · exact .inl (bind_ok hok)
    · exact .inr ⟨by omega, cursor, bind_tooDeep hdeep⟩
  · exact .inr ⟨by omega, hdeep⟩

theorem Completes.get {dot name : Token} (h : Completes .call ts expr)
    (hdot : dot.kind = .symbol .dot) (hname : name.kind = .identifier) :
    Completes .call (ts ++ [dot, name]) (.get expr name) := by
  intro bound n rest hbound _
  simp only [List.length_append, List.length_cons, List.length_nil] at hbound
  obtain ⟨steps, hsteps, hread⟩ :=
    h bound n (dot :: name :: rest) (by omega) (stops_primary _)
  obtain ⟨steps, rfl⟩ : ∃ fewer, steps = fewer + 1 := ⟨steps - 1, by omega⟩
  refine ⟨steps, by simp only [List.length_append, List.length_cons]; omega, ?_⟩
  intro stop complaints
  have hparen : ahead (dot :: name :: rest) ≠ some (.symbol .leftParen) := by simp [hdot]
  simp only [List.append_assoc, List.cons_append, List.nil_append, List.length_append]
  rcases hread stop complaints with hread | ⟨hlevels, hdeep⟩
  · left
    rw [hread]
    simp only [Level.more]
    rw [Grammar.accesses, bind_ok (take?_other hparen stop complaints)]
    simp only
    rw [bind_ok (take?_same hdot _ stop complaints)]
    simp only
    rw [bind_ok (expect_same hname _ _ stop complaints)]
  · exact .inr ⟨by omega, hdeep⟩

theorem Completes.call {open_ close : Token} {args : List Expr}
    (h : Completes .call ts expr) (hopen : open_.kind = .symbol .leftParen)
    (hargs : ∀ bound n rest, us.length ≤ bound →
      Reads (Grammar.finishCall bound (Rules.nested bound n) expr) n (us ++ [close])
        (.call expr close args) rest) :
    Completes .call (ts ++ open_ :: (us ++ [close])) (.call expr close args) := by
  intro bound n rest hbound _
  simp only [List.length_append, List.length_cons, List.length_nil] at hbound
  obtain ⟨steps, hsteps, hread⟩ :=
    h bound n (open_ :: (us ++ close :: rest)) (by omega) (stops_primary _)
  have hfinish := hargs bound n rest (by omega)
  obtain ⟨steps, rfl⟩ : ∃ fewer, steps = fewer + 1 := ⟨steps - 1, by omega⟩
  refine ⟨steps, by simp only [List.length_append, List.length_cons]; omega, ?_⟩
  intro stop complaints
  have hfinish := hfinish stop complaints
  simp only [List.append_assoc, List.cons_append, List.nil_append, List.length_append,
    List.length_cons] at hfinish ⊢
  rcases hread stop complaints with hread | ⟨hlevels, hdeep⟩
  · rw [hread]
    simp only [Level.more]
    rw [Grammar.accesses, bind_ok (take?_same hopen _ stop complaints)]
    simp only
    rcases hfinish with hok | ⟨hlevels, cursor, hdeep⟩
    · exact .inl (bind_ok hok)
    · exact .inr ⟨by omega, cursor, bind_tooDeep hdeep⟩
  · exact .inr ⟨by omega, hdeep⟩

/-! ## From one level to the next -/

theorem Completes.unary {mark : Token} {op : UnaryOp} (hmark : Prefixes mark.kind op)
    (h : Completes .unary ts expr) : Completes .unary (mark :: ts) (.unary op mark expr) := by
  apply completes_unary
  intro bound n rest hbound hstops
  rw [List.length_cons] at hbound
  apply Reads.pickPaid (ofKind?_eq_some_iff.2 hmark)
  exact Reads.last (h.nested_unary n (by omega) hstops) (.done _ _ _)

theorem Completes.looser_group (level : Level) (h : Completes level.tighter ts expr)
    (hgroups : level.Groups) : Completes level ts expr := by
  intro bound n rest hbound hsettles
  have hread := h.reads n hbound ((settles_iff_of_groups hgroups).1 hsettles)
  refine ⟨bound, Nat.le_add_right _ _, fun stop complaints => ?_⟩
  rw [rule_of_groups hgroups, more_of_groups hgroups]
  rcases hread stop complaints with hok | ⟨hlevels, cursor, hdeep⟩
  · exact .inl (bind_ok hok)
  · exact .inr ⟨hlevels, cursor, bind_tooDeep hdeep⟩

theorem Completes.looser_call (h : Completes .primary ts expr) : Completes .call ts expr := by
  intro bound n rest hbound _
  have hread := h.reads n hbound (stops_primary rest)
  refine ⟨bound, Nat.le_add_right _ _, fun stop complaints => ?_⟩
  rcases hread stop complaints with hok | ⟨hlevels, cursor, hdeep⟩
  · exact .inl (bind_ok hok)
  · exact .inr ⟨hlevels, cursor, bind_tooDeep hdeep⟩

theorem Completes.looser_unary (h : Completes .call ts expr)
    (hbegins : Starts (.phrase .call) (ahead ts)) : Completes .unary ts expr := by
  apply completes_unary
  intro bound n rest hbound hstops
  obtain ⟨kind, hkind, hbegins⟩ := hbegins
  have hnone : UnaryOp.ofKind? kind = none := by
    simp only [Level.begins, Level.rank] at hbegins
    unfold beginsPrimary at hbegins
    unfold UnaryOp.ofKind?
    split at hbegins <;> simp_all
  apply Reads.pass
  · intro found hfound
    rw [ahead_append hkind, Option.some.injEq] at hfound
    exact hfound ▸ hnone
  · exact h.reads n hbound hstops.tighter

theorem Completes.looser_assignment (h : Completes .disjunction ts expr) :
    Completes .assignment ts expr := by
  apply completes_assignment
  intro bound n rest hbound hstops
  apply Reads.last (h.reads n hbound hstops.tighter)
  exact Reads.skip hstops.not_equal (.done _ _ _)

theorem Completes.looser (h : Completes level.tighter ts expr)
    (hbegins : Starts (.phrase level.tighter) (ahead ts)) : Completes level ts expr := by
  cases level with
  | assignment => exact h.looser_assignment
  | disjunction => exact h.looser_group .disjunction ⟨_, _, .or⟩
  | conjunction => exact h.looser_group .conjunction ⟨_, _, .and⟩
  | equality => exact h.looser_group .equality ⟨_, _, .equal⟩
  | comparison => exact h.looser_group .comparison ⟨_, _, .less⟩
  | term => exact h.looser_group .term ⟨_, _, .add⟩
  | factor => exact h.looser_group .factor ⟨_, _, .multiply⟩
  | unary => exact h.looser_unary hbegins
  | call => exact h.looser_call
  | primary => exact h

theorem Completes.looser_all (h : Completes .call ts expr)
    (hbegins : Starts (.phrase .call) (ahead ts)) : Completes .disjunction ts expr := by
  have hfactor : Completes .factor ts expr :=
    (h.looser_unary hbegins).looser_group .factor ⟨_, _, .multiply⟩
  have hcomparison : Completes .comparison ts expr :=
    (hfactor.looser_group .term ⟨_, _, .add⟩).looser_group .comparison ⟨_, _, .less⟩
  have hconjunction : Completes .conjunction ts expr :=
    (hcomparison.looser_group .equality ⟨_, _, .equal⟩).looser_group .conjunction ⟨_, _, .and⟩
  exact hconjunction.looser_group .disjunction ⟨_, _, .or⟩

/-! ## Assignments -/

theorem Completes.assign {name mark : Token} (hname : name.kind = .identifier)
    (hmark : mark.kind = .symbol .equal) (h : Completes .assignment ts value) :
    Completes .assignment (name :: mark :: ts) (.assign name value) := by
  have hderives : Derives (.phrase .call) [name] (.ref name) := .looser (.ref hname)
  have htarget : Completes .disjunction [name] (.ref name) :=
    (completes_ref hname).looser_call.looser_all hderives.starts
  apply completes_assignment
  intro bound n rest hbound hstops
  simp only [List.length_cons] at hbound
  rw [← List.singleton_append]
  apply Reads.bind (htarget.reads n (by simp only [List.length_singleton]; omega)
    (stops_equal hmark _))
  apply Reads.takePaid hmark
  exact Reads.last (h.nested n (by omega) hstops) (.done _ _ _)

theorem Completes.set {dot name mark : Token} (hobject : Completes .call ts expr)
    (hbegins : Starts (.phrase .call) (ahead ts)) (hdot : dot.kind = .symbol .dot)
    (hname : name.kind = .identifier) (hmark : mark.kind = .symbol .equal)
    (h : Completes .assignment us value) :
    Completes .assignment (ts ++ dot :: name :: mark :: us) (.set expr name value) := by
  have hbegins : Starts (.phrase .call) (ahead (ts ++ [dot, name])) := by
    obtain ⟨kind, hkind, hbegins⟩ := hbegins
    exact ⟨kind, ahead_append hkind _, hbegins⟩
  have htarget : Completes .disjunction (ts ++ [dot, name]) (.get expr name) :=
    (hobject.get hdot hname).looser_all hbegins
  apply completes_assignment
  intro bound n rest hbound hstops
  rw [show ts ++ dot :: name :: mark :: us = (ts ++ [dot, name]) ++ mark :: us by simp]
    at hbound ⊢
  rw [List.length_append, List.length_cons] at hbound
  apply Reads.bind (htarget.reads n (by omega) (stops_equal hmark _))
  apply Reads.takePaid hmark
  exact Reads.last (h.nested n (by omega) hstops) (.done _ _ _)

/-! ## Lists

The rules for lists gather what they find in an array, so they are described for any
array that they start from. -/

def CompletesArguments (ts : List Token) (args : List Expr) : Prop :=
  ∀ bound n steps rest (found : Array Expr), ts.length ≤ bound → ts.length ≤ steps →
    found.size + args.length ≤ maxArgs → ahead rest = some (.symbol .rightParen) →
    Reads (Grammar.arguments (Rules.nested bound n) steps found) n ts
      (found ++ args.toArray) rest

theorem ahead_ne_nil {kind : Kind} (h : ahead ts = some kind) : 0 < ts.length := by
  cases ts with
  | nil => simp at h
  | cons token ts => simp

theorem Completes.argument (h : Completes .assignment ts expr)
    (hbegins : Starts (.phrase .assignment) (ahead ts)) : CompletesArguments ts [expr] := by
  intro bound n steps rest found hbound hsteps hcount hclose
  obtain ⟨kind, hkind, -⟩ := hbegins
  have hpos := ahead_ne_nil hkind
  obtain ⟨steps, rfl⟩ : ∃ fewer, steps = fewer + 1 := ⟨steps - 1, by omega⟩
  rw [List.length_singleton] at hcount
  apply Reads.noComplaint (by simp; omega)
  apply Reads.last (h.nested n hbound (stops_closing .rightParen (by simp) hclose))
  apply Reads.skip (by simp [hclose])
  simpa using Reads.done (found.push expr) n rest

theorem Completes.moreArguments {comma : Token} {args : List Expr}
    (h : Completes .assignment ts expr) (hcomma : comma.kind = .symbol .comma)
    (hargs : CompletesArguments us args) :
    CompletesArguments (ts ++ comma :: us) (expr :: args) := by
  intro bound n steps rest found hbound hsteps hcount hclose
  simp only [List.length_append, List.length_cons] at hbound hsteps hcount
  obtain ⟨steps, rfl⟩ : ∃ fewer, steps = fewer + 1 := ⟨steps - 1, by omega⟩
  have hrest := hargs bound n steps rest (found.push expr) (by omega) (by omega)
    (by rw [Array.size_push]; omega) hclose
  apply Reads.noComplaint (by simp; omega)
  apply Reads.bind (h.nested n (by omega)
    (stops_closing .comma (by simp) (by simp [hcomma])))
  apply Reads.take hcomma
  simpa using hrest

def CompletesParameters (ts params : List Token) : Prop :=
  ∀ levels steps rest (found : Array Token), ts.length ≤ steps →
    found.size + params.length ≤ maxArgs → ahead rest = some (.symbol .rightParen) →
    Reads (Grammar.parameters steps found) levels ts (found ++ params.toArray) rest

theorem completes_parameter {param : Token} (hparam : param.kind = .identifier) :
    CompletesParameters [param] [param] := by
  intro levels steps rest found hsteps hcount hclose
  rw [List.length_singleton] at hsteps hcount
  obtain ⟨steps, rfl⟩ : ∃ fewer, steps = fewer + 1 := ⟨steps - 1, by omega⟩
  apply Reads.noComplaint (by simp; omega)
  apply Reads.expect hparam
  apply Reads.skip (by simp [hclose])
  simpa using Reads.done (found.push param) levels rest

theorem completes_moreParameters {param comma : Token} {params : List Token}
    (hparam : param.kind = .identifier) (hcomma : comma.kind = .symbol .comma)
    (h : CompletesParameters ts params) :
    CompletesParameters (param :: comma :: ts) (param :: params) := by
  intro levels steps rest found hsteps hcount hclose
  simp only [List.length_cons] at hsteps hcount
  obtain ⟨steps, rfl⟩ : ∃ fewer, steps = fewer + 1 := ⟨steps - 1, by omega⟩
  have hrest := h levels steps rest (found.push param) (by omega)
    (by rw [Array.size_push]; omega) hclose
  apply Reads.noComplaint (by simp; omega)
  apply Reads.expect hparam
  apply Reads.take hcomma
  simpa using hrest

end Moth.Syntax
