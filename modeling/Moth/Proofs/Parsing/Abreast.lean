import Moth.Proofs.Parsing.Advancing
/-!
# Two runs abreast

Two runs read the same tokens with different ends behind them.  An end is the end of the text, or a
semicolon and what follows it: a rule for expressions makes nothing of either.  While they are in
front of the ends the runs go on abreast: they make the same of the tokens, complain as often, and
are nested as deeply.
-/

namespace Moth.Syntax

open Rule Grammar

/-- What stands behind the tokens of two runs, and how their complaints compare. -/
structure Fork where
  alone : List Token
  joined : List Token
  inert : ∀ kind, ahead alone = some kind → kind = .symbol .semicolon
  inert' : ∀ kind, ahead joined = some kind → kind = .symbol .semicolon
  agree : Array ParseComplaint → Array ParseComplaint → Prop
  push : ∀ {noted noted' : Array ParseComplaint}, agree noted noted' →
    ∀ complaint, agree (noted.push complaint) (noted'.push complaint)
  /-- A complaint about what stands at the end. -/
  pushEnd : ∀ {noted noted' : Array ParseComplaint}, agree noted noted' →
    ∀ stop stop' fault, agree (noted.push ⟨alone.headD stop, fault⟩)
      (noted'.push ⟨joined.headD stop', fault⟩)

inductive Beside (fork : Fork) (common : List Token) : Cursor → Cursor → Prop where
  | mk {stop stop' : Token} {noted noted' : Array ParseComplaint} : fork.agree noted noted' →
      Beside fork common ⟨common ++ fork.alone, stop, noted⟩ ⟨common ++ fork.joined, stop', noted'⟩

inductive Alike (fork : Fork) (common : List Token) {α : Type} : Reply α → Reply α → Prop where
  | ok {value : α} {rest : List Token} {alone joined : Cursor} : rest <:+ common →
      Beside fork rest alone joined → Alike fork common (.ok value alone) (.ok value joined)
  | failed {rest : List Token} {alone joined : Cursor} : rest <:+ common →
      Beside fork rest alone joined → Alike fork common (.failed alone) (.failed joined)
  | tooDeep {alone joined : Cursor} : Alike fork common (.tooDeep alone) (.tooDeep joined)

/-- The rules do the same where they have fewer than `fits` tokens in common. -/
def Abreast (fork : Fork) (fits : Nat) {α : Type} (rule rule' : Rule α) : Prop :=
  ∀ common alone joined, common.length < fits → Beside fork common alone joined →
    Alike fork common (rule alone) (rule' joined)

variable {fork : Fork} {α β : Type} {fits less limit : Nat} {rule rule' : Rule α}
  {next next' : α → Rule β} {kind : Kind} {fault : ParseFault} {common : List Token}

theorem Fork.ahead_ne (hkind : kind ≠ .symbol .semicolon) :
    ahead fork.alone ≠ some kind ∧ ahead fork.joined ≠ some kind :=
  ⟨fun h => hkind (fork.inert kind h), fun h => hkind (fork.inert' kind h)⟩

namespace Beside

variable {alone joined : Cursor} (h : Beside fork common alone joined)

include h

theorem rest : alone.rest = common ++ fork.alone := by
  cases h
  rfl

theorem rest' : joined.rest = common ++ fork.joined := by
  cases h
  rfl

theorem agree : fork.agree alone.complaints joined.complaints := by
  cases h with
  | mk hagree => exact hagree

theorem complain (fault : ParseFault) : Beside fork common (alone.complainAt alone.peek fault)
    (joined.complainAt joined.peek fault) := by
  obtain ⟨hagree⟩ := h
  cases common with
  | nil => exact ⟨fork.pushEnd hagree _ _ fault⟩
  | cons token common => exact ⟨fork.push hagree ⟨token, fault⟩⟩

end Beside

theorem Alike.behind {reply reply' : Reply α} {rest : List Token}
    (h : Alike fork rest reply reply') (hsuffix : rest <:+ common) :
    Alike fork common reply reply' := by
  cases h with
  | ok hrest hbeside => exact .ok (hrest.trans hsuffix) hbeside
  | failed hrest hbeside => exact .failed (hrest.trans hsuffix) hbeside
  | tooDeep => exact .tooDeep

namespace Abreast

theorem fewer (h : Abreast fork fits rule rule') (hless : less ≤ fits) :
    Abreast fork less rule rule' :=
  fun common alone joined hfits => h common alone joined (Nat.lt_of_lt_of_le hfits hless)

theorem none_fit : Abreast fork 0 rule rule' :=
  fun _ _ _ hfits => absurd hfits (Nat.not_lt_zero _)

theorem deep : Abreast fork fits (tooDeep : Rule α) tooDeep := fun _ _ _ _ _ => .tooDeep

theorem fails : Abreast fork fits (fail fault : Rule α) (fail fault) :=
  fun _ _ _ _ hbeside => .failed List.suffix_rfl (hbeside.complain fault)

theorem done (value : α) : Abreast fork fits (pure value) (pure value) :=
  fun _ _ _ _ hbeside => .ok List.suffix_rfl hbeside

theorem bind (h : Abreast fork fits rule rule')
    (hnext : ∀ value, Abreast fork fits (next value) (next' value)) :
    Abreast fork fits (rule >>= next) (rule' >>= next') := by
  intro common alone joined hfits hbeside
  have hfirst := h common alone joined hfits hbeside
  rw [bind_apply, bind_apply]
  generalize rule alone = reply, rule' joined = reply' at hfirst ⊢
  cases hfirst with
  | ok hsuffix hbetween =>
    have hless := Nat.lt_of_le_of_lt hsuffix.length_le hfits
    exact (hnext _ _ _ _ hless hbetween).behind hsuffix
  | failed hsuffix hbetween => exact .failed hsuffix hbetween
  | tooDeep => exact .tooDeep

/-- Behind a first rule that takes a token there is one token less. -/
theorem bindPaid [Uses α] (hadvances : Advances limit 1 (fun _ => 0) rule)
    (h : Abreast fork (fits + 1) rule rule')
    (hnext : ∀ value, Abreast fork fits (next value) (next' value)) :
    Abreast fork (fits + 1) (rule >>= next) (rule' >>= next') := by
  intro common alone joined hfits hbeside
  have hfirst := h common alone joined hfits hbeside
  have htaken := (hadvances alone).taken
  rw [bind_apply, bind_apply]
  generalize rule alone = reply, rule' joined = reply' at hfirst htaken ⊢
  cases hfirst with
  | ok hsuffix hbetween =>
    have hlength := htaken _ _ rfl
    rw [hbeside.rest, hbetween.rest, List.length_append, List.length_append] at hlength
    exact (hnext _ _ _ _ (by omega) hbetween).behind hsuffix
  | failed hsuffix hbetween => exact .failed hsuffix hbetween
  | tooDeep => exact .tooDeep

theorem map (f : α → β) (h : Abreast fork fits rule rule') :
    Abreast fork fits (f <$> rule) (f <$> rule') := by
  rw [map_eq_bind, map_eq_bind]
  exact bind h fun value => done (f value)

/-! ## Single tokens -/

theorem pickPaid {γ : Type} {pick : Kind → Option γ} {next next' : Option (γ × Token) → Rule β}
    (hpick : pick (.symbol .semicolon) = none)
    (hsome : ∀ choice token, Abreast fork fits (next (some (choice, token)))
      (next' (some (choice, token))))
    (hnone : Abreast fork (fits + 1) (next none) (next' none)) :
    Abreast fork (fits + 1) (takePicked pick >>= next) (takePicked pick >>= next') := by
  rintro common _ _ hfits ⟨hagree⟩
  cases common with
  | nil =>
    have hend (kind : Kind) (h : ahead fork.alone = some kind) : pick kind = none :=
      fork.inert kind h ▸ hpick
    have hend' (kind : Kind) (h : ahead fork.joined = some kind) : pick kind = none :=
      fork.inert' kind h ▸ hpick
    rw [List.nil_append, List.nil_append, bind_ok (takePicked_none hend _ _),
      bind_ok (takePicked_none hend' _ _)]
    exact hnone [] _ _ hfits ⟨hagree⟩
  | cons token rest =>
    cases hchoice : pick token.kind with
    | none =>
      rw [bind_ok (takePicked_none (by simp [hchoice]) _ _),
        bind_ok (takePicked_none (by simp [hchoice]) _ _)]
      exact hnone _ _ _ hfits ⟨hagree⟩
    | some choice =>
      rw [List.cons_append, bind_ok (takePicked_some hchoice _ _ _), List.cons_append,
        bind_ok (takePicked_some hchoice _ _ _)]
      exact (hsome choice token rest _ _ (Nat.lt_of_succ_lt_succ hfits) ⟨hagree⟩).behind
        (List.suffix_cons token rest)

theorem pick {γ : Type} {pick : Kind → Option γ} {next next' : Option (γ × Token) → Rule β}
    (hpick : pick (.symbol .semicolon) = none)
    (hsome : ∀ choice token, Abreast fork fits (next (some (choice, token)))
      (next' (some (choice, token))))
    (hnone : Abreast fork fits (next none) (next' none)) :
    Abreast fork fits (takePicked pick >>= next) (takePicked pick >>= next') := by
  cases fits with
  | zero => exact none_fit
  | succ fits =>
    exact pickPaid hpick (fun choice token => (hsome choice token).fewer (Nat.le_succ _)) hnone

theorem takePaid {next next' : Option Token → Rule β} (hkind : kind ≠ .symbol .semicolon)
    (hsome : ∀ token, Abreast fork fits (next (some token)) (next' (some token)))
    (hnone : Abreast fork (fits + 1) (next none) (next' none)) :
    Abreast fork (fits + 1) (take? kind >>= next) (take? kind >>= next') := by
  rw [take?_bind, take?_bind]
  exact pickPaid (if_neg hkind.symm) (fun _ token => hsome token) hnone

theorem take {next next' : Option Token → Rule β} (hkind : kind ≠ .symbol .semicolon)
    (hsome : ∀ token, Abreast fork fits (next (some token)) (next' (some token)))
    (hnone : Abreast fork fits (next none) (next' none)) :
    Abreast fork fits (take? kind >>= next) (take? kind >>= next') := by
  rw [take?_bind, take?_bind]
  exact pick (if_neg hkind.symm) (fun _ token => hsome token) hnone

theorem token (hkind : kind ≠ .symbol .semicolon) :
    Abreast fork fits (Rule.expect kind fault) (Rule.expect kind fault) := by
  rw [expect_eq_bind]
  exact take hkind done fails

theorem expect {next next' : Token → Rule β} (hkind : kind ≠ .symbol .semicolon)
    (hnext : ∀ token, Abreast fork fits (next token) (next' token)) :
    Abreast fork fits (Rule.expect kind fault >>= next) (Rule.expect kind fault >>= next') :=
  bind (token hkind) hnext

/-- Something may be absent, if the same can be seen at both ends. -/
theorem orAbsent {absent : α}
    (hends : ahead fork.alone = some kind ↔ ahead fork.joined = some kind)
    (h : Abreast fork fits rule rule') :
    Abreast fork fits (Rule.orAbsent kind absent rule) (Rule.orAbsent kind absent rule') := by
  have hsees : Abreast fork fits (Rule.sees kind) (Rule.sees kind) := by
    rintro common _ _ - ⟨hagree⟩
    have hsame : decide (ahead (common ++ fork.alone) = some kind) =
        decide (ahead (common ++ fork.joined) = some kind) := by
      cases common with
      | nil => exact decide_eq_decide.2 hends
      | cons token rest => rfl
    rw [sees_apply, sees_apply, hsame]
    exact .ok List.suffix_rfl ⟨hagree⟩
  apply bind hsees
  intro seen
  cases seen with
  | true => exact done absent
  | false => exact h

theorem behind (hkind : kind ≠ .symbol .semicolon) (h : Abreast fork fits rule rule') :
    Abreast fork fits (Rule.behind kind rule) (Rule.behind kind rule') := by
  apply take hkind
  · intro token
    exact map some h
  · exact done none

/-! ## Complaints -/

theorem complainAt (token : Token) :
    Abreast fork fits (Rule.complainAt token fault) (Rule.complainAt token fault) := by
  rintro common _ _ - ⟨hagree⟩
  exact .ok List.suffix_rfl ⟨fork.push hagree _⟩

theorem complainIf (reason : Bool) :
    Abreast fork fits (Rule.complainIf reason fault) (Rule.complainIf reason fault) := by
  cases reason with
  | false => exact done ()
  | true => exact fun _ _ _ _ hbeside => .ok List.suffix_rfl (hbeside.complain fault)

end Abreast

/-! ## Expressions -/

section

variable {bound bound' steps steps' : Nat} {inner inner' : Rules}

theorem abreast_operands {operand operand' : Rule Expr}
    {join? : Kind → Option (Token → Expr → Expr → Expr)}
    (hjoin : join? (.symbol .semicolon) = none) (hoperand : Abreast fork fits operand operand')
    (left : Expr) (hsteps : fits ≤ steps) (hsteps' : fits ≤ steps') :
    Abreast fork fits (operands operand join? steps left)
      (operands operand' join? steps' left) := by
  induction fits generalizing steps steps' left with
  | zero => exact .none_fit
  | succ fits ih =>
    obtain ⟨steps, rfl⟩ : ∃ fewer, steps = fewer + 1 := ⟨steps - 1, by omega⟩
    obtain ⟨steps', rfl⟩ : ∃ fewer, steps' = fewer + 1 := ⟨steps' - 1, by omega⟩
    have hfewer := hoperand.fewer (Nat.le_succ fits)
    refine .pickPaid hjoin (fun join mark => ?_) (.done left)
    exact .bind hfewer fun right => ih hfewer (join mark left right) (by omega) (by omega)

theorem abreast_leftGrouped {operand operand' : Rule Expr}
    {join? : Kind → Option (Token → Expr → Expr → Expr)}
    (hjoin : join? (.symbol .semicolon) = none) (hbound : bound ≤ bound')
    (hadvances : Advances limit 1 (fun _ => 0) operand)
    (hoperand : Abreast fork (bound + 1) operand operand') :
    Abreast fork (bound + 1) (leftGrouped bound operand join?)
      (leftGrouped bound' operand' join?) :=
  .bindPaid hadvances hoperand fun first =>
    abreast_operands hjoin (hoperand.fewer (Nat.le_succ _)) first (Nat.le_refl _) hbound

section

variable (hexpression : Abreast fork fits inner.expression inner'.expression)

include hexpression

theorem abreast_primary : Abreast fork fits (primary inner) (primary inner') := by
  refine .pick rfl (fun value token => .done _) ?_
  refine .take (by decide) (fun keyword => .done _) ?_
  refine .take (by decide) (fun name => .done _) ?_
  refine .take (by decide) (fun keyword => ?_) ?_
  · refine .expect (by decide) fun dot => ?_
    exact .expect (by decide) fun method => .done _
  refine .take (by decide) (fun left => ?_) .fails
  refine .bind hexpression fun expr => ?_
  exact .expect (by decide) fun right => .done _

/-- A list of arguments is never longer than its tokens, so neither bound is met. -/
theorem abreast_arguments (args : Array Expr) (hsteps : fits ≤ steps) (hsteps' : fits ≤ steps') :
    Abreast fork fits (arguments inner steps args) (arguments inner' steps' args) := by
  induction fits generalizing steps steps' args with
  | zero => exact .none_fit
  | succ fits ih =>
    obtain ⟨steps, rfl⟩ : ∃ fewer, steps = fewer + 1 := ⟨steps - 1, by omega⟩
    obtain ⟨steps', rfl⟩ : ∃ fewer, steps' = fewer + 1 := ⟨steps' - 1, by omega⟩
    refine .bind (.complainIf _) fun _ => ?_
    refine .bind hexpression fun arg => ?_
    refine .takePaid (by decide) (fun comma => ?_) (.done _)
    exact ih (hexpression.fewer (Nat.le_succ _)) (args.push arg) (by omega) (by omega)

theorem abreast_finishCall (callee : Expr) (hbound : fits ≤ bound) (hbound' : fits ≤ bound') :
    Abreast fork fits (finishCall bound inner callee) (finishCall bound' inner' callee) := by
  have hends := fork.ahead_ne (show Kind.symbol .rightParen ≠ .symbol .semicolon by decide)
  refine .bind (.orAbsent (iff_of_false hends.1 hends.2)
    (abreast_arguments hexpression #[] hbound hbound')) fun args => ?_
  exact .expect (by decide) fun paren => .done _

theorem abreast_accesses (expr : Expr) (hbound : fits ≤ bound) (hbound' : fits ≤ bound')
    (hsteps : fits ≤ steps) (hsteps' : fits ≤ steps') :
    Abreast fork fits (accesses bound inner steps expr)
      (accesses bound' inner' steps' expr) := by
  induction fits generalizing steps steps' expr with
  | zero => exact .none_fit
  | succ fits ih =>
    obtain ⟨steps, rfl⟩ : ∃ fewer, steps = fewer + 1 := ⟨steps - 1, by omega⟩
    obtain ⟨steps', rfl⟩ : ∃ fewer, steps' = fewer + 1 := ⟨steps' - 1, by omega⟩
    have hfewer := hexpression.fewer (Nat.le_succ fits)
    have hnext (expr : Expr) : Abreast fork fits (accesses bound inner steps expr)
        (accesses bound' inner' steps' expr) :=
      ih hfewer expr (by omega) (by omega) (by omega) (by omega)
    refine .takePaid (by decide) (fun left => ?_) ?_
    · exact .bind (abreast_finishCall hfewer expr (by omega) (by omega)) hnext
    refine .takePaid (by decide) (fun dot => ?_) (.done _)
    exact .expect (by decide) fun name => hnext (.get expr name)

end

section

variable (honward : Onward limit inner) (hbound : bound ≤ bound')
  (hexpression : Abreast fork (bound + 1) inner.expression inner'.expression)
  (hunary : Abreast fork (bound + 1) inner.unary inner'.unary)

include honward hbound hexpression hunary

theorem abreast_unary : Abreast fork (bound + 1) (unary bound inner) (unary bound' inner') := by
  refine .pick rfl (fun op mark => ?_) ?_
  · exact .bind hunary fun right => .done _
  · exact .bindPaid (advances_primary honward) (abreast_primary hexpression) fun first =>
      abreast_accesses (hexpression.fewer (Nat.le_succ _)) first (Nat.le_refl _) hbound
        (Nat.le_refl _) hbound

theorem abreast_disjunction :
    Abreast fork (bound + 1) (disjunction bound inner) (disjunction bound' inner') := by
  have hlevel (level : Level) {operand operand' : Rule Expr}
      (h : Advances (limit + 1) 1 (fun _ => 0) operand ∧
        Abreast fork (bound + 1) operand operand') :
      Advances (limit + 1) 1 (fun _ => 0) (leftGrouped bound operand (join? level)) ∧
        Abreast fork (bound + 1) (leftGrouped bound operand (join? level))
          (leftGrouped bound' operand' (join? level)) :=
    ⟨advances_leftGrouped level h.1,
      abreast_leftGrouped (by cases level <;> rfl) hbound h.1 h.2⟩
  exact (hlevel .disjunction <| hlevel .conjunction <| hlevel .equality <| hlevel .comparison <|
    hlevel .term <| hlevel .factor
    ⟨advances_unary honward, abreast_unary honward hbound hexpression hunary⟩).2

theorem abreast_expression :
    Abreast fork (bound + 1) (expression bound inner) (expression bound' inner') := by
  refine .bind (abreast_disjunction honward hbound hexpression hunary) fun target => ?_
  refine .take (by decide) (fun mark => ?_) (.done _)
  refine .bind hexpression fun value => ?_
  cases target
  case ref name => exact .done _
  case get object name => exact .done _
  -- no other expression can be assigned to
  all_goals exact .bind (.complainAt mark) fun _ => .done _

end

/-- Expressions are read alike at every level of nesting. -/
theorem abreast_nested (hbound : bound ≤ bound') (levels : Nat) :
    Abreast fork (bound + 1) (Rules.nested bound levels).expression
        (Rules.nested bound' levels).expression ∧
      Abreast fork (bound + 1) (Rules.nested bound levels).unary
        (Rules.nested bound' levels).unary := by
  induction levels with
  | zero => exact ⟨.deep, .deep⟩
  | succ levels ih =>
    have honward := onward_nested bound levels
    exact ⟨abreast_expression honward hbound ih.1 ih.2, abreast_unary honward hbound ih.1 ih.2⟩

end

end Moth.Syntax
