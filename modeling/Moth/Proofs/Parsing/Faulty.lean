import Moth.Proofs.Parsing.Abreast
/-!
# Faulty statements with tokens behind them

A statement is read once alone and once in front of more tokens.  Either it is read to its end
alone, or something is wrong with it before its semicolon is taken.  Then both runs fail with the
same complaints, and both go on right behind the semicolon.
-/

namespace Moth.Syntax

open Rule Grammar

/-- What the second run has more: the tokens behind the semicolon, and earlier complaints. -/
structure Tail where
  semicolon : Token
  kind_semicolon : semicolon.kind = .symbol .semicolon
  more : List Token
  lead : Array ParseComplaint

def Tail.fork (tail : Tail) : Fork where
  alone := [tail.semicolon]
  joined := tail.semicolon :: tail.more
  inert := by
    rintro _ ⟨⟩
    exact tail.kind_semicolon
  inert' := by
    rintro _ ⟨⟩
    exact tail.kind_semicolon
  agree noted noted' := noted' = tail.lead ++ noted
  push := by
    rintro noted _ rfl complaint
    rw [Array.append_push]
  pushEnd := by
    rintro noted _ rfl stop stop' fault
    rw [Array.append_push]
    rfl

/-- The tokens may stand inside a statement: they are no semicolons and no braces, and begin no
statement. -/
def Inside (common : List Token) : Prop :=
  ∀ token ∈ common, token.kind ≠ .symbol .semicolon ∧ token.kind ≠ .symbol .leftBrace ∧
    startsStatement token.kind = false

variable {tail : Tail} {common : List Token} {alone joined : Cursor}
  {α β : Type} {fits : Nat} {rule rule' : Rule α} {next next' : α → Rule β}
  {kind : Kind} {fault : ParseFault}

namespace Inside

theorem ahead_ne (h : Inside common) (tail : Tail) (hkind : kind ≠ .symbol .semicolon)
    (hnone : kind = .symbol .leftBrace ∨ startsStatement kind = true) :
    ahead (common ++ tail.fork.alone) ≠ some kind ∧
      ahead (common ++ tail.fork.joined) ≠ some kind := by
  cases common with
  | nil => exact tail.fork.ahead_ne hkind
  | cons token rest =>
    obtain ⟨-, hbrace, hstart⟩ := h token List.mem_cons_self
    have hother : token.kind ≠ kind := by
      rintro rfl
      rcases hnone with hnone | hnone
      · exact hbrace hnone
      · rw [hnone] at hstart
        cases hstart
    exact ⟨fun heq => hother (Option.some.inj heq), fun heq => hother (Option.some.inj heq)⟩

/-! ## Skipping -/

theorem skipAfter_semicolon {token : Token} {more : List Token}
    (hkind : token.kind = .symbol .semicolon) : skipAfter token more = more := by
  cases more with
  | nil => rfl
  | cons next more => simp [skipAfter, hkind]

theorem skipAfter_append (h : Inside common) {token semicolon : Token} {more : List Token}
    (hkind : token.kind ≠ .symbol .semicolon) (hsemicolon : semicolon.kind = .symbol .semicolon) :
    skipAfter token (common ++ semicolon :: more) = more := by
  induction common generalizing token with
  | nil =>
    have hstart : startsStatement semicolon.kind = false := by rw [hsemicolon]; rfl
    simp only [List.nil_append, skipAfter, hkind, hstart]
    exact skipAfter_semicolon hsemicolon
  | cons next rest ih =>
    obtain ⟨⟨hother, -, hstart⟩, hrest⟩ := List.forall_mem_cons.1 h
    simp only [List.cons_append, skipAfter, hkind, hstart]
    exact ih hrest hother

/-- Skipping stops right behind the semicolon. -/
theorem skip_append (h : Inside common) {semicolon : Token}
    (hsemicolon : semicolon.kind = .symbol .semicolon) (more : List Token) :
    skip (common ++ semicolon :: more) = more := by
  cases common with
  | nil => exact skipAfter_semicolon hsemicolon
  | cons token rest =>
    obtain ⟨⟨hother, -⟩, hrest⟩ := List.forall_mem_cons.1 h
    exact skipAfter_append hrest hother hsemicolon

end Inside

/-! ## Statements -/

/-- If alone a rule gives something, it has taken all tokens up to the semicolon.  If not, the
other rule ends in the same way, inside the statement. -/
inductive Concluded (tail : Tail) {α : Type} : Reply α → Reply α → Prop where
  | ok {value : α} {alone : Cursor} {reply : Reply α} : alone.rest = [] →
      Concluded tail (.ok value alone) reply
  | failed {common : List Token} {alone joined : Cursor} : Inside common →
      Beside tail.fork common alone joined → Concluded tail (.failed alone) (.failed joined)
  | tooDeep {alone joined : Cursor} : Concluded tail (.tooDeep alone) (.tooDeep joined)

def Concludes (tail : Tail) (fits : Nat) {α : Type} (rule rule' : Rule α) : Prop :=
  ∀ common alone joined, Inside common → common.length < fits →
    Beside tail.fork common alone joined → Concluded tail (rule alone) (rule' joined)

namespace Concludes

theorem bind (h : Abreast tail.fork fits rule rule')
    (hnext : ∀ value, Concludes tail fits (next value) (next' value)) :
    Concludes tail fits (rule >>= next) (rule' >>= next') := by
  intro common alone joined hinside hfits hbeside
  have hfirst := h common alone joined hfits hbeside
  rw [bind_apply, bind_apply]
  generalize rule alone = reply, rule' joined = reply' at hfirst ⊢
  cases hfirst with
  | ok hsuffix hbetween =>
    exact hnext _ _ _ _ (fun token htoken => hinside token (hsuffix.subset htoken))
      (Nat.lt_of_le_of_lt hsuffix.length_le hfits) hbetween
  | failed hsuffix hbetween =>
    exact .failed (fun token htoken => hinside token (hsuffix.subset htoken)) hbetween
  | tooDeep => exact .tooDeep

/-- Behind a whole statement a rule takes nothing more. -/
theorem last (h : Concludes tail fits rule rule')
    (hnext : ∀ value stop complaints, ∃ result,
      next value ⟨[], stop, complaints⟩ = .ok result ⟨[], stop, complaints⟩) :
    Concludes tail fits (rule >>= next) (rule' >>= next') := by
  intro common alone joined hinside hfits hbeside
  have hfirst := h common alone joined hinside hfits hbeside
  rw [bind_apply, bind_apply]
  generalize rule alone = reply, rule' joined = reply' at hfirst ⊢
  cases hfirst with
  | @ok value between _ hrest =>
    obtain ⟨rest, stop, complaints⟩ := between
    obtain rfl : rest = [] := hrest
    obtain ⟨result, hresult⟩ := hnext value stop complaints
    simp only [hresult]
    exact .ok rfl
  | failed hinside hbetween => exact .failed hinside hbetween
  | tooDeep => exact .tooDeep

theorem map (f : α → β) (h : Concludes tail fits rule rule') :
    Concludes tail fits (f <$> rule) (f <$> rule') := by
  rw [map_eq_bind, map_eq_bind]
  apply last h
  intro value stop complaints
  exact ⟨f value, rfl⟩

theorem expect {next next' : Token → Rule β} (hkind : kind ≠ .symbol .semicolon)
    (hnext : ∀ token, Concludes tail fits (next token) (next' token)) :
    Concludes tail fits (Rule.expect kind fault >>= next) (Rule.expect kind fault >>= next') :=
  bind (.token hkind) hnext

/-- A token is expected in vain. -/
theorem missing {next next' : Token → Rule β} (hinside : Inside common)
    (hnone : ahead (common ++ tail.fork.alone) ≠ some kind)
    (hnone' : ahead (common ++ tail.fork.joined) ≠ some kind)
    (hbeside : Beside tail.fork common alone joined) :
    Concluded tail ((Rule.expect kind fault >>= next) alone)
      ((Rule.expect kind fault >>= next') joined) := by
  have hfailed := hbeside.complain fault
  obtain ⟨hagree⟩ := hbeside
  rw [bind_apply, bind_apply, expect_other hnone, expect_other hnone']
  exact .failed hinside hfailed

/-- The rule that takes the semicolon is the last, or fails. -/
theorem semicolon (f : Token → α) :
    Concludes tail fits
      (Rule.expect (.symbol .semicolon) fault >>= fun token => pure (f token))
      (Rule.expect (.symbol .semicolon) fault >>= fun token => pure (f token)) := by
  intro common alone joined hinside _ hbeside
  cases common with
  | nil =>
    obtain ⟨hagree⟩ := hbeside
    have htaken := expect_same tail.kind_semicolon fault []
    exact (bind_ok (htaken _ _)).symm ▸ .ok rfl
  | cons token rest =>
    have hother := (hinside token List.mem_cons_self).1
    exact missing hinside (fun heq => hother (Option.some.inj heq))
      (fun heq => hother (Option.some.inj heq)) hbeside

/-- No brace is found inside a statement that has none. -/
theorem brace {next next' : Token → Rule β} :
    Concludes tail fits (Rule.expect (.symbol .leftBrace) fault >>= next)
      (Rule.expect (.symbol .leftBrace) fault >>= next') := by
  intro common alone joined hinside _ hbeside
  have hnone := hinside.ahead_ne tail (by decide) (.inl rfl)
  exact missing hinside hnone.1 hnone.2 hbeside

/-- A token is looked for in vain that does not stand inside such statements. -/
theorem pass {next next' : Option Token → Rule β} (hkind : kind ≠ .symbol .semicolon)
    (hnone : kind = .symbol .leftBrace ∨ startsStatement kind = true)
    (hnext : Concludes tail fits (next none) (next' none)) :
    Concludes tail fits (take? kind >>= next) (take? kind >>= next') := by
  rintro common _ _ hinside hfits ⟨hagree⟩
  have hahead := hinside.ahead_ne tail hkind hnone
  rw [bind_ok (take?_other hahead.1 _ _), bind_ok (take?_other hahead.2 _ _)]
  exact hnext _ _ _ hinside hfits ⟨hagree⟩

end Concludes

section

variable {expression expression' : Rule Expr} {branch branch' : Rule Stmt}
  (hexpression : Abreast tail.fork fits expression expression')
  (hbranch : Concludes tail fits branch branch')

include hexpression

theorem concludes_expressionStatement : Concludes tail fits (expressionStatement expression)
    (expressionStatement expression') := by
  apply Concludes.bind hexpression
  intro value
  exact .semicolon _

theorem concludes_varDeclaration : Concludes tail fits (varDeclaration expression)
    (varDeclaration expression') := by
  refine .expect (by decide) fun name => ?_
  refine .bind (.behind (by decide) hexpression) fun init => ?_
  exact .semicolon _

theorem concludes_printStatement : Concludes tail fits (printStatement expression)
    (printStatement expression') := by
  apply Concludes.bind hexpression
  intro value
  exact .semicolon _

theorem concludes_returnStatement (keyword : Token) :
    Concludes tail fits (returnStatement keyword expression)
      (returnStatement keyword expression') := by
  apply Concludes.bind (.orAbsent .rfl (hexpression.map some))
  intro value
  exact .semicolon _

include hbranch

/-- Alone, there is no `else` behind the semicolon. -/
theorem concludes_ifStatement : Concludes tail fits (ifStatement expression branch)
    (ifStatement expression' branch') := by
  refine .expect (by decide) fun left => ?_
  refine .bind hexpression fun condition => ?_
  refine .expect (by decide) fun right => ?_
  apply Concludes.last hbranch
  intro yes stop complaints
  exact ⟨_, rfl⟩

theorem concludes_whileStatement : Concludes tail fits (whileStatement expression branch)
    (whileStatement expression' branch') := by
  refine .expect (by decide) fun left => ?_
  refine .bind hexpression fun condition => ?_
  refine .expect (by decide) fun right => ?_
  apply Concludes.last hbranch
  intro body stop complaints
  exact ⟨_, rfl⟩

end

section

variable {bound bound' : Nat} {inner inner' : Rules}
  (hexpression : Abreast tail.fork fits (expression bound inner) (expression bound' inner'))

include hexpression

/-- Inside a statement only expressions can begin. -/
theorem concludes_statement :
    Concludes tail fits (statement bound inner) (statement bound' inner') := by
  iterate 5 refine .pass (by decide) (.inr rfl) ?_
  refine .pass (by decide) (.inl rfl) ?_
  exact concludes_expressionStatement hexpression

end

theorem concludes_nested {bound bound' : Nat} (hbound : bound ≤ bound') (levels : Nat) :
    Concludes tail bound (Rules.nested bound levels).statement
      (Rules.nested bound' levels).statement := by
  cases levels with
  | zero => exact fun _ _ _ _ _ _ => .tooDeep
  | succ levels =>
    exact concludes_statement ((abreast_nested hbound (levels + 1)).1.fewer (Nat.le_succ _))

/-! ## Declarations -/

theorem abreast_parameters {steps steps' : Nat} (params : Array Token) (hsteps : fits ≤ steps)
    (hsteps' : fits ≤ steps') :
    Abreast tail.fork fits (parameters steps params) (parameters steps' params) := by
  induction fits generalizing steps steps' params with
  | zero => exact .none_fit
  | succ fits ih =>
    obtain ⟨steps, rfl⟩ : ∃ fewer, steps = fewer + 1 := ⟨steps - 1, by omega⟩
    obtain ⟨steps', rfl⟩ : ∃ fewer, steps' = fewer + 1 := ⟨steps' - 1, by omega⟩
    apply Abreast.bind (.complainIf _)
    intro
    refine .expect (by decide) fun param => ?_
    refine .takePaid (by decide) (fun comma => ?_) ?_
    · exact ih (params.push param) (by omega) (by omega)
    · exact .done _

section

variable {bound bound' : Nat} {inner inner' : Rules}

/-- A function without a body. -/
theorem concludes_function (sort : FunctionSort) (hbound : fits ≤ bound) (hbound' : fits ≤ bound') :
    Concludes tail fits (function bound inner sort) (function bound' inner' sort) := by
  have hends := tail.fork.ahead_ne (show Kind.symbol .rightParen ≠ .symbol .semicolon by decide)
  refine .expect (by decide) fun name => ?_
  refine .expect (by decide) fun left => ?_
  refine .bind (.orAbsent (iff_of_false hends.1 hends.2)
    (abreast_parameters #[] hbound hbound')) fun params => ?_
  refine .expect (by decide) fun right => ?_
  exact .brace

/-- A class without a body. -/
theorem concludes_classDeclaration :
    Concludes tail fits (classDeclaration bound inner) (classDeclaration bound' inner') := by
  refine .expect (by decide) fun name => ?_
  refine .bind (.behind (by decide) (.token (by decide))) fun superclass => ?_
  exact .brace

end

/-- A rule for a whole statement that begins with the token `first`, the cursors being given
behind that token. -/
def OpensWith (tail : Tail) (fits : Nat) (first : Token) {α : Type} (rule rule' : Rule α) : Prop :=
  ∀ common alone joined, Inside common → common.length < fits →
    Beside tail.fork common alone joined →
    Concluded tail (rule { alone with rest := first :: alone.rest })
      (rule' { joined with rest := first :: joined.rest })

theorem OpensWith.take {first : Token} {next next' : Option Token → Rule β}
    (hsome : first.kind = kind → Concludes tail fits (next (some first)) (next' (some first)))
    (hnone : first.kind ≠ kind → OpensWith tail fits first (next none) (next' none)) :
    OpensWith tail fits first (take? kind >>= next) (take? kind >>= next') := by
  intro common alone joined hinside hfits hbeside
  by_cases hkind : first.kind = kind
  · rw [bind_ok (take?_same hkind _ _ _), bind_ok (take?_same hkind _ _ _)]
    exact hsome hkind common alone joined hinside hfits hbeside
  · rw [bind_ok (take?_other (by simpa using hkind) _ _),
      bind_ok (take?_other (by simpa using hkind) _ _)]
    exact hnone hkind common alone joined hinside hfits hbeside

theorem mem_of_startsStatement (h : startsStatement kind = true) :
    kind ∈ [.keyword .class, .keyword .fun, .keyword .var, .keyword .for, .keyword .if,
      .keyword .print, .keyword .return, .keyword .while] := by
  unfold startsStatement at h
  split at h <;> simp at h ⊢

/-- What becomes of a statement.  Alone it is read to its end; or both times it is left out, with
the same complaints, and the parser goes on behind its semicolon. -/
inductive Recovered (more : List Token) (lead : Array ParseComplaint) :
    Reply (Option Stmt) → Reply (Option Stmt) → Prop where
  | kept {stmt : Stmt} {alone : Cursor} {reply : Reply (Option Stmt)} : alone.rest = [] →
      Recovered more lead (.ok (some stmt) alone) reply
  | leftOut (complaints : Array ParseComplaint) (stop stop' : Token) :
      Recovered more lead (.ok none ⟨[], stop, complaints⟩)
        (.ok none ⟨more, stop', lead ++ complaints⟩)
  | tooDeep {alone joined : Cursor} : Recovered more lead (.tooDeep alone) (.tooDeep joined)

theorem Concluded.recover {rule rule' : Rule Stmt}
    (h : Concluded tail (rule alone) (rule' joined)) :
    Recovered tail.more tail.lead (recover rule alone) (recover rule' joined) := by
  rw [Grammar.recover, Grammar.recover]
  generalize rule alone = reply, rule' joined = reply' at h ⊢
  cases h with
  | ok hrest => exact .kept hrest
  | failed hinside hbeside =>
    obtain ⟨hagree⟩ := hbeside
    have hskip := hinside.skip_append tail.kind_semicolon
    simp only [Tail.fork, hskip, show _ = tail.lead ++ _ from hagree]
    exact .leftOut _ _ _
  | tooDeep => exact .tooDeep

section

variable {bound bound' : Nat} {inner inner' : Rules}
  (hexpression : Abreast tail.fork fits (expression bound inner) (expression bound' inner'))

include hexpression

/-- A statement that begins with a keyword. -/
theorem recovered_opening (hstatement : Concludes tail fits inner.statement inner'.statement)
    (hbound : fits ≤ bound) (hbound' : fits ≤ bound') {first : Token}
    (hfirst : startsStatement first.kind = true) (hfor : first.kind ≠ .keyword .for)
    (hinside : Inside common) (hfits : common.length < fits)
    (hbeside : Beside tail.fork common alone joined) :
    Recovered tail.more tail.lead
      (declaration bound inner { alone with rest := first :: alone.rest })
      (declaration bound' inner' { joined with rest := first :: joined.rest }) := by
  refine Concluded.recover (OpensWith.take (fun _ => concludes_classDeclaration) (fun hclass => ?_)
    common alone joined hinside hfits hbeside)
  refine .take (fun _ => (concludes_function _ hbound hbound').map _) fun hfun => ?_
  refine .take (fun _ => concludes_varDeclaration hexpression) fun hvar => ?_
  refine .take (fun hkind => absurd hkind hfor) fun _ => ?_
  refine .take (fun _ => concludes_ifStatement hexpression hstatement) fun hif => ?_
  refine .take (fun _ => concludes_printStatement hexpression) fun hprint => ?_
  refine .take (fun _ => concludes_returnStatement hexpression first) fun hreturn => ?_
  refine .take (fun _ => concludes_whileStatement hexpression hstatement) fun hwhile => ?_
  -- there is no other keyword that begins a statement
  have hmem := mem_of_startsStatement hfirst
  simp only [List.mem_cons, List.not_mem_nil, hclass, hfun, hvar, hfor, hif, hprint, hreturn,
    hwhile, or_false] at hmem

/-- A statement that begins with some other token. -/
theorem recovered_calm (hinside : Inside common) (hfits : common.length < fits)
    (hbeside : Beside tail.fork common alone joined) :
    Recovered tail.more tail.lead (declaration bound inner alone)
      (declaration bound' inner' joined) := by
  refine Concluded.recover (Concludes.pass (by decide) (.inr rfl) ?_ common alone joined hinside
    hfits hbeside)
  iterate 2 refine .pass (by decide) (.inr rfl) ?_
  exact concludes_statement hexpression

end

/-- The tokens of a statement up to its only semicolon, without braces, with no keyword that
begins a statement but perhaps the first token, and that is not `for`. -/
inductive Single : List Token → Prop where
  | calm {common : List Token} {semicolon : Token} : Inside common →
      semicolon.kind = .symbol .semicolon → Single (common ++ [semicolon])
  | opening {first : Token} {common : List Token} {semicolon : Token} :
      startsStatement first.kind = true → first.kind ≠ .keyword .for → Inside common →
      semicolon.kind = .symbol .semicolon → Single (first :: (common ++ [semicolon]))

/-- The statement alone, and in front of more tokens. -/
theorem Single.recovered {tokens : List Token} (h : Single tokens) (levels : Nat) {bound : Nat}
    (hbound : tokens.length ≤ bound) (more : List Token) (lead : Array ParseComplaint)
    (stop stop' : Token) :
    Recovered more lead
      ((Rules.nested tokens.length levels).declaration ⟨tokens, stop, #[]⟩)
      ((Rules.nested bound levels).declaration ⟨tokens ++ more, stop', lead⟩) := by
  cases levels with
  | zero => exact .tooDeep
  | succ levels =>
    have hexpression (tail : Tail) :
        Abreast tail.fork tokens.length
          (expression tokens.length (Rules.nested tokens.length levels))
          (expression bound (Rules.nested bound levels)) :=
      (abreast_nested hbound (levels + 1)).1.fewer (Nat.le_succ _)
    cases h with
    | @calm common semicolon hinside hsemicolon =>
      let tail : Tail := ⟨semicolon, hsemicolon, more, lead⟩
      have hbeside : Beside tail.fork common ⟨common ++ [semicolon], stop, #[]⟩
          ⟨common ++ semicolon :: more, stop', lead⟩ := ⟨Array.append_empty.symm⟩
      rw [List.append_assoc]
      exact recovered_calm (hexpression tail) hinside (by simp) hbeside
    | @opening first common semicolon hfirst hfor hinside hsemicolon =>
      let tail : Tail := ⟨semicolon, hsemicolon, more, lead⟩
      have hbeside : Beside tail.fork common ⟨common ++ [semicolon], stop, #[]⟩
          ⟨common ++ semicolon :: more, stop', lead⟩ := ⟨Array.append_empty.symm⟩
      have hlength : common.length < (first :: (common ++ [semicolon])).length := by
        rw [List.length_cons, List.length_append]
        omega
      rw [List.cons_append, List.append_assoc]
      exact recovered_opening (hexpression tail) (concludes_nested hbound levels) (Nat.le_refl _)
        hbound hfirst hfor hinside hlength hbeside

end Moth.Syntax
