import Moth.Proofs.Parsing.Advancing
/-!
# Loops of the parser

The lists of the grammar are read in loops that make rounds until one of them ends the loop.  The
rules for them take a bound on the number of rounds; `Loops` knows none.  As every round that does
not end its loop takes a token, a loop comes to an end before the bound is met, and the rules do
what the loops do.
-/

namespace Moth.Syntax

open Rule Grammar

variable {σ α β γ : Type}

/-- What a round has used does not matter. -/
instance : Uses (σ ⊕ α) := ⟨fun _ _ => 0⟩

theorem Advances.round {limit least : Nat} {hand : Token → Nat} {rule : Rule (σ ⊕ α)}
    (h : Advances limit least hand rule) : Advances limit least (fun _ => 0) rule := by
  refine fun cursor => ⟨(h cursor).toComes, fun value after hreply token => ?_⟩
  have hrest := (h cursor).leads.rest
  rw [hreply] at hrest
  exact Nat.add_le_add_left (hrest.sublist.count_le token) 0

/-- A loop without a bound comes to a reply: each round gives a new state to go on with, or what
the loop ends with. -/
inductive Loops (round : σ → Rule (σ ⊕ α)) : σ → Cursor → Reply α → Prop where
  | last {state : σ} {cursor after : Cursor} {value : α}
      (hround : round state cursor = .ok (.inr value) after) :
      Loops round state cursor (.ok value after)
  | again {state next : σ} {cursor between : Cursor} {reply : Reply α}
      (hround : round state cursor = .ok (.inl next) between)
      (hmore : Loops round next between reply) : Loops round state cursor reply
  | failed {state : σ} {cursor after : Cursor} (hround : round state cursor = .failed after) :
      Loops round state cursor (.failed after)
  | tooDeep {state : σ} {cursor after : Cursor} (hround : round state cursor = .tooDeep after) :
      Loops round state cursor (.tooDeep after)

def Turns (rule : Rule (σ ⊕ α)) : Prop :=
  ∀ cursor next after, rule cursor = .ok (.inl next) after →
    after.rest.length < cursor.rest.length

/-- What goes on round by round, as many rounds as the tokens ahead allow, is the loop. -/
theorem loops_of_turns {round : σ → Rule (σ ⊕ α)} {loop : Nat → σ → Rule α}
    (hloop : ∀ steps state, loop (steps + 1) state = round state >>= Sum.elim (loop steps) pure)
    (hround : ∀ state, Turns (round state)) (steps : Nat) (state : σ) (cursor : Cursor)
    (hsteps : cursor.rest.length < steps) : Loops round state cursor (loop steps state cursor) := by
  induction steps generalizing state cursor with
  | zero => exact absurd hsteps (Nat.not_lt_zero _)
  | succ steps ih =>
    rw [hloop, bind_apply]
    cases hreply : round state cursor with
    | failed after => exact .failed hreply
    | tooDeep after => exact .tooDeep hreply
    | ok result after =>
      cases result with
      | inr value => exact .last hreply
      | inl next =>
        have hless := hround state cursor next after hreply
        exact .again hreply (ih next after (by omega))

/-! ## Rounds -/

theorem bind_assoc (first : Rule α) (next : α → Rule β) (last : β → Rule γ) :
    (first >>= next) >>= last = first >>= fun value => next value >>= last := by
  funext cursor
  simp only [bind_apply]
  cases first cursor <;> rfl

theorem bind_congr {first : Rule α} {next other : α → Rule β}
    (h : ∀ value, next value = other value) : first >>= next = first >>= other :=
  congrArg (first >>= ·) (funext h)

namespace Turns

variable {least : Nat} {kind : Kind}

theorem last (value : α) : Turns (pure (.inr value) : Rule (σ ⊕ α)) := by
  intro cursor next after hreply
  cases hreply

theorem of_advances {limit : Nat} {rule : Rule (σ ⊕ α)} (h : Advances limit 1 (fun _ => 0) rule) :
    Turns rule :=
  fun cursor next after hreply => (h cursor).taken (.inl next) after hreply

theorem before [Uses β] (limit : Nat) {rule : Rule β} {next : β → Rule (σ ⊕ α)}
    (h : Advances limit least (fun _ => 0) rule) (hnext : ∀ value, Turns (next value)) :
    Turns (rule >>= next) := by
  intro cursor state after hreply
  obtain ⟨value, between, hfirst, hreply⟩ := ok_of_bind hreply
  have hleads := (h cursor).leads
  rw [hfirst] at hleads
  exact Nat.lt_of_lt_of_le (hnext value between state after hreply) hleads.rest.length_le

theorem pick (limit : Nat) {γ : Type} {pick : Kind → Option γ}
    {next : Option (γ × Token) → Rule (σ ⊕ α)}
    (hsome : ∀ choice token, Advances limit 0 (fun _ => 0) (next (some (choice, token))))
    (hnone : Turns (next none)) : Turns (takePicked pick >>= next) := by
  rintro ⟨rest, stop, complaints⟩
  cases rest with
  | nil =>
    rw [bind_ok (takePicked_none (by simp) stop complaints)]
    exact hnone _
  | cons token rest =>
    cases hpick : pick token.kind with
    | none =>
      rw [bind_ok (takePicked_none (by simp [hpick]) stop complaints)]
      exact hnone _
    | some choice =>
      rw [bind_ok (takePicked_some hpick rest stop complaints)]
      intro state after hreply
      exact Nat.lt_succ_of_le ((hsome choice token _).taken (.inl state) after hreply)

/-- Where a token is taken the round may go on, and where none is it has to end. -/
theorem take (limit : Nat) {next : Option Token → Rule (σ ⊕ α)}
    (hsome : ∀ token, Advances limit 0 (fun _ => 0) (next (some token)))
    (hnone : Turns (next none)) : Turns (take? kind >>= next) := by
  rw [take?_bind]
  exact pick limit (fun _ token => hsome token) hnone

end Turns

def operandsRound (operand : Rule Expr) (join? : Kind → Option (Token → Expr → Expr → Expr))
    (left : Expr) : Rule (Expr ⊕ Expr) := do
  match ← takePicked join? with
  | none => return .inr left
  | some (join, mark) =>
    let right ← operand
    return .inl (join mark left right)

theorem operands_loops {limit : Nat} {operand : Rule Expr}
    {join? : Kind → Option (Token → Expr → Expr → Expr)}
    (hoperand : Advances limit 1 (fun _ => 0) operand)
    {steps : Nat} {cursor : Cursor} (hsteps : cursor.rest.length < steps) (left : Expr) :
    Loops (operandsRound operand join?) left cursor (operands operand join? steps left cursor) := by
  refine loops_of_turns (fun steps left => ?_) (fun left => ?_) steps left cursor hsteps
  · rw [operands, operandsRound, bind_assoc]
    apply bind_congr
    intro found
    cases found with
    | none => rfl
    | some found => rw [bind_assoc]; rfl
  · refine .pick limit (fun join mark => ?_) (.last left)
    exact .before hoperand fun right => .done fun _ => Nat.zero_le _

def argumentsRound (inner : Rules) (args : Array Expr) : Rule (Array Expr ⊕ Array Expr) := do
  complainIf (maxArgs ≤ args.size) .tooManyArgs
  let arg ← inner.expression
  match ← take? (.symbol .comma) with
  | some _ => return .inl (args.push arg)
  | none => return .inr (args.push arg)

def accessesRound (bound : Nat) (inner : Rules) (expr : Expr) : Rule (Expr ⊕ Expr) := do
  if let some _ ← take? (.symbol .leftParen) then
    .inl <$> finishCall bound inner expr
  else if let some _ ← take? (.symbol .dot) then
    let name ← expect .identifier .expectPropertyName
    return .inl (.get expr name)
  else
    return .inr expr

def declarationsRound (inner : Rules) (body : Array Stmt) : Rule (Array Stmt ⊕ Array Stmt) := do
  if (← sees (.symbol .rightBrace)) || (← atEnd) then
    return .inr body
  match ← inner.declaration with
  | some stmt => return .inl (body.push stmt)
  | none => return .inl body

def parametersRound (params : Array Token) : Rule (Array Token ⊕ Array Token) := do
  complainIf (maxArgs ≤ params.size) .tooManyParams
  let param ← expect .identifier .expectParamName
  match ← take? (.symbol .comma) with
  | some _ => return .inl (params.push param)
  | none => return .inr (params.push param)

def methodsRound (bound : Nat) (inner : Rules) (found : Array FunctionDecl) :
    Rule (Array FunctionDecl ⊕ Array FunctionDecl) := do
  if (← sees (.symbol .rightBrace)) || (← atEnd) then
    return .inr found
  let method ← function bound inner .method
  return .inl (found.push method)

section

variable {limit bound steps : Nat} {inner : Rules} {cursor : Cursor}
  (hsteps : cursor.rest.length < steps)

include hsteps

theorem parameters_loops (params : Array Token) :
    Loops parametersRound params cursor (parameters steps params cursor) := by
  refine loops_of_turns (fun steps params => ?_) (fun params => ?_) steps params cursor hsteps
  · rw [parameters, parametersRound, bind_assoc]
    refine bind_congr fun _ => ?_
    rw [bind_assoc]
    refine bind_congr fun param => ?_
    rw [bind_assoc]
    refine bind_congr fun comma => ?_
    cases comma <;> rfl
  · refine .before 0 (.complainIf _) fun _ => ?_
    refine .before 0 .token fun param => ?_
    exact .take 0 (fun comma => .done fun _ => Nat.zero_le _) (.last _)

variable (h : Onward limit inner)

include h

theorem arguments_loops (args : Array Expr) :
    Loops (argumentsRound inner) args cursor (arguments inner steps args cursor) := by
  refine loops_of_turns (fun steps args => ?_) (fun args => ?_) steps args cursor hsteps
  · rw [arguments, argumentsRound, bind_assoc]
    refine bind_congr fun _ => ?_
    rw [bind_assoc]
    refine bind_congr fun arg => ?_
    rw [bind_assoc]
    refine bind_congr fun comma => ?_
    cases comma <;> rfl
  · refine .before limit (.complainIf _) fun _ => ?_
    refine .before limit h.expression fun arg => ?_
    exact .take limit (fun comma => .done fun _ => Nat.zero_le _) (.last _)

theorem accesses_loops (expr : Expr) :
    Loops (accessesRound bound inner) expr cursor (accesses bound inner steps expr cursor) := by
  refine loops_of_turns (fun steps expr => ?_) (fun expr => ?_) steps expr cursor hsteps
  · rw [accesses, accessesRound, bind_assoc]
    refine bind_congr fun paren => ?_
    cases paren with
    | some paren => rw [map_eq_bind, bind_assoc]; rfl
    | none =>
      simp only
      rw [bind_assoc]
      refine bind_congr fun dot => ?_
      cases dot with
      | some dot => simp only; rw [bind_assoc]; rfl
      | none => rfl
  · refine .take limit (fun paren => ?_) ?_
    · exact ((advances_finishCall h expr).map .inl fun _ _ => Nat.zero_le _).round
    refine .take limit (fun dot => ?_) (.last expr)
    exact .pass fun name => .done fun _ => Nat.zero_le _

theorem methods_loops (found : Array FunctionDecl) :
    Loops (methodsRound bound inner) found cursor (methods bound inner steps found cursor) := by
  refine loops_of_turns (fun steps found => ?_) (fun found => ?_) steps found cursor hsteps
  · rw [methods, methodsRound, bind_assoc]
    refine bind_congr fun seen => ?_
    rw [bind_assoc]
    refine bind_congr fun ended => ?_
    cases seen || ended with
    | true => rfl
    | false =>
      simp only [Bool.false_eq_true, if_false]
      rw [bind_assoc]
      rfl
  · refine .before limit .sees fun seen => ?_
    refine .before limit .atEnd fun ended => ?_
    cases seen || ended with
    | true => exact .last found
    | false =>
      exact .of_advances (.lead (advances_function h .method) fun method =>
        .done fun _ => Nat.zero_le _)

end

/-- A rule for declarations takes a token at least, where there is one. -/
def Eats (rule : Rule (Option Stmt)) : Prop :=
  ∀ cursor found after, cursor.rest ≠ [] → rule cursor = .ok found after →
    after.rest.length < cursor.rest.length

theorem eats_nested (bound levels : Nat) : Eats (Rules.nested bound levels).declaration := by
  intro cursor found after hcursor hreply
  cases levels with
  | zero => cases hreply
  | succ levels =>
    exact recover_eats (advances_declaring (onward_nested bound levels)) hcursor hreply

theorem declarationsRound_turns {inner : Rules} (heats : Eats inner.declaration)
    (body : Array Stmt) : Turns (declarationsRound inner body) := by
  rintro ⟨rest, stop, complaints⟩ next after hreply
  rw [declarationsRound, bind_ok (sees_apply _ rest stop complaints),
    bind_ok (rfl : atEnd ⟨rest, stop, complaints⟩ = .ok rest.isEmpty ⟨rest, stop, complaints⟩)]
    at hreply
  cases hend : decide (ahead rest = some (.symbol .rightBrace)) || rest.isEmpty with
  | true =>
    rw [hend] at hreply
    cases hreply
  | false =>
    rw [hend] at hreply
    have hrest : rest ≠ [] := by
      rintro rfl
      cases hend
    obtain ⟨found, between, hdeclaration, hreply⟩ := ok_of_bind hreply
    have hless := heats _ found between hrest hdeclaration
    cases found <;> cases hreply <;> exact hless

theorem declarations_loops {steps : Nat} {inner : Rules} {cursor : Cursor}
    (hsteps : cursor.rest.length < steps) (heats : Eats inner.declaration) (body : Array Stmt) :
    Loops (declarationsRound inner) body cursor (declarations inner steps body cursor) := by
  refine loops_of_turns (fun steps body => ?_) (declarationsRound_turns heats) steps body cursor
    hsteps
  rw [declarations, declarationsRound, bind_assoc]
  refine bind_congr fun seen => ?_
  rw [bind_assoc]
  refine bind_congr fun ended => ?_
  cases seen || ended with
  | true => rfl
  | false =>
    simp only [Bool.false_eq_true, if_false]
    rw [bind_assoc]
    refine bind_congr fun found => ?_
    cases found <;> rfl

end Moth.Syntax
