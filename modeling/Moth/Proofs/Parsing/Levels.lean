import Moth.Proofs.Parsing.Reading
/-!
# Levels of precedence

The rule of the parser for each level of precedence, and the tokens that would make a
phrase of a level longer.  A phrase is read to its end only if no such token follows.
-/

namespace Moth.Syntax

open Rule

def join? : Level → Kind → Option (Token → Expr → Expr → Expr)
  | .disjunction => Grammar.logical .or
  | .conjunction => Grammar.logical .and
  | .equality => Grammar.binary BinaryOp.equality?
  | .comparison => Grammar.binary BinaryOp.comparison?
  | .term => Grammar.binary BinaryOp.term?
  | .factor => Grammar.binary BinaryOp.factor?
  | _ => fun _ => none

theorem join?_eq_some_iff {level : Level} {kind : Kind} {join : Token → Expr → Expr → Expr} :
    join? level kind = some join ↔ Joins level kind join := by
  constructor
  · intro h
    cases level
    case disjunction | conjunction =>
      simp only [join?, Grammar.logical] at h
      split at h
      · next hkind =>
        cases h
        subst hkind
        constructor
      · cases h
    case equality | comparison | term | factor =>
      simp only [join?, Grammar.binary, Option.map_eq_some_iff] at h
      obtain ⟨op, hop, rfl⟩ := h
      simp only [BinaryOp.equality?, BinaryOp.comparison?, BinaryOp.term?,
        BinaryOp.factor?] at hop
      split at hop <;> cases hop <;> constructor
    all_goals cases h
  · intro h
    cases h <;> rfl

theorem literal?_eq_some_iff {kind : Kind} {literal : Literal} :
    Grammar.literal? kind = some literal ↔ Writes kind literal := by
  constructor
  · intro h
    simp only [Grammar.literal?] at h
    split at h <;> cases h <;> constructor
  · intro h
    cases h <;> rfl

theorem ofKind?_eq_some_iff {kind : Kind} {op : UnaryOp} :
    UnaryOp.ofKind? kind = some op ↔ Prefixes kind op := by
  constructor
  · intro h
    simp only [UnaryOp.ofKind?] at h
    split at h <;> cases h <;> constructor
  · intro h
    cases h <;> rfl

def Level.Groups (level : Level) : Prop := ∃ kind join, Joins level kind join

def Level.rule : Level → Nat → Rules → Rule Expr
  | assignment => Grammar.expression
  | disjunction => Grammar.disjunction
  | conjunction => Grammar.conjunction
  | equality => Grammar.equality
  | comparison => Grammar.comparison
  | term => Grammar.term
  | factor => Grammar.factor
  | unary => Grammar.unary
  | call => Grammar.call
  | primary => fun _ => Grammar.primary

theorem rule_of_groups {level : Level} (h : level.Groups) (bound : Nat) (inner : Rules) :
    level.rule bound inner =
      Grammar.leftGrouped bound (level.tighter.rule bound inner) (join? level) := by
  obtain ⟨kind, join, hjoin⟩ := h
  cases hjoin <;> rfl

/-- How far a phrase of a level may be read, `expr` being read already. -/
def Level.more (level : Level) (bound : Nat) (inner : Rules) (steps : Nat) (expr : Expr) :
    Rule Expr :=
  match level with
  | assignment | unary | primary => pure expr
  | call => Grammar.accesses bound inner steps expr
  | disjunction | conjunction | equality | comparison | term | factor =>
    Grammar.operands (level.tighter.rule bound inner) (join? level) steps expr

theorem more_of_groups {level : Level} (h : level.Groups) (bound : Nat) (inner : Rules)
    (steps : Nat) (expr : Expr) :
    level.more bound inner steps expr =
      Grammar.operands (level.tighter.rule bound inner) (join? level) steps expr := by
  obtain ⟨kind, join, hjoin⟩ := h
  cases hjoin <;> rfl

def Level.rank : Level → Nat
  | assignment => 0
  | disjunction => 1
  | conjunction => 2
  | equality => 3
  | comparison => 4
  | term => 5
  | factor => 6
  | unary => 7
  | call => 8
  | primary => 9

theorem rank_le_rank_tighter (level : Level) : level.rank ≤ level.tighter.rank := by
  cases level <;> decide

inductive Extends : Level → Kind → Prop where
  | equal : Extends .assignment (.symbol .equal)
  | join {level : Level} {kind : Kind} {join : Token → Expr → Expr → Expr}
      (h : Joins level kind join) : Extends level kind
  | leftParen : Extends .call (.symbol .leftParen)
  | dot : Extends .call (.symbol .dot)

/-- No phrase of the level or a tighter one goes on with the next token. -/
def Stops (level : Level) (rest : List Token) : Prop :=
  ∀ kind, ahead rest = some kind → ∀ other : Level, level.rank ≤ other.rank →
    ¬ Extends other kind

/-- What must hold behind a phrase for the rule to come to its end: where the rule
goes on in steps, only tighter phrases have to stop. -/
def Settles (level : Level) (rest : List Token) : Prop :=
  match level with
  | .assignment | .unary | .primary => Stops level rest
  | _ => Stops level.tighter rest

theorem Stops.tighter {level : Level} {rest : List Token} (h : Stops level rest) :
    Stops level.tighter rest :=
  fun kind hkind other hrank =>
    h kind hkind other (Nat.le_trans (rank_le_rank_tighter level) hrank)

theorem Stops.settles {level : Level} {rest : List Token} (h : Stops level rest) :
    Settles level rest := by
  cases level with
  | assignment | unary | primary => exact h
  | _ => exact h.tighter

theorem stops_of_ahead {level : Level} {rest : List Token} {kind : Kind}
    (hkind : ahead rest = some kind) (h : ∀ other, ¬ Extends other kind) :
    Stops level rest := by
  intro found hfound other _
  rw [hkind, Option.some.injEq] at hfound
  subst hfound
  exact h other

theorem stops_nil (level : Level) : Stops level [] :=
  fun _ h => by simp at h

theorem stops_primary (rest : List Token) : Stops .primary rest := by
  intro kind _ other hrank hextends
  cases hextends with
  | join hjoin => cases hjoin <;> simp [Level.rank] at hrank
  | _ => simp [Level.rank] at hrank

/-- The symbols that end a phrase, whatever its level. -/
theorem stops_closing {level : Level} {rest : List Token} (symbol : Symbol)
    (hsymbol : symbol ∈ [Symbol.rightParen, .comma, .semicolon, .leftBrace, .rightBrace])
    (hkind : ahead rest = some (.symbol symbol)) : Stops level rest := by
  apply stops_of_ahead hkind
  intro other hextends
  simp only [List.mem_cons, List.not_mem_nil, or_false] at hsymbol
  cases hextends with
  | join hjoin => cases hjoin <;> simp at hsymbol
  | _ => simp at hsymbol

theorem stops_equal {token : Token} (h : token.kind = .symbol .equal) (rest : List Token) :
    Stops .disjunction (token :: rest) := by
  intro kind hkind other hrank hextends
  rw [ahead_cons, Option.some.injEq, h] at hkind
  subst hkind
  cases hextends with
  | equal => simp [Level.rank] at hrank
  | join hjoin => cases hjoin

/-- An operator ends the phrases of all levels tighter than its own. -/
theorem Joins.stops {level : Level} {token : Token} {join : Token → Expr → Expr → Expr}
    (h : Joins level token.kind join) (rest : List Token) :
    Stops level.tighter (token :: rest) := by
  intro kind hkind other hrank hextends
  rw [ahead_cons, Option.some.injEq] at hkind
  rw [hkind] at h
  -- each operator belongs to one level only
  cases h <;> cases hextends with
    | join hjoin =>
      cases hjoin
      simp [Level.rank, Level.tighter] at hrank

theorem Stops.not_leftParen {rest : List Token} (h : Stops .call rest) :
    ahead rest ≠ some (.symbol .leftParen) :=
  fun hkind => h _ hkind .call (Nat.le_refl _) .leftParen

theorem Stops.not_dot {rest : List Token} (h : Stops .call rest) :
    ahead rest ≠ some (.symbol .dot) :=
  fun hkind => h _ hkind .call (Nat.le_refl _) .dot

theorem Stops.not_equal {rest : List Token} (h : Stops .assignment rest) :
    ahead rest ≠ some (.symbol .equal) :=
  fun hkind => h _ hkind .assignment (Nat.le_refl _) .equal

theorem Stops.join?_eq_none {level : Level} {rest : List Token} (h : Stops level rest)
    (kind : Kind) (hkind : ahead rest = some kind) : join? level kind = none := by
  cases hjoin : join? level kind with
  | none => rfl
  | some join =>
    have hjoins := join?_eq_some_iff.1 hjoin
    exact absurd (.join hjoins) (h kind hkind level (Nat.le_refl _))

/-- Where the phrase stops, the rule is at its end. -/
theorem more_of_stops {level : Level} {rest : List Token} (h : Stops level rest)
    (bound : Nat) (inner : Rules) (steps : Nat) (expr : Expr) (stop : Token)
    (complaints : Array ParseComplaint) :
    level.more bound inner steps expr ⟨rest, stop, complaints⟩ =
      .ok expr ⟨rest, stop, complaints⟩ := by
  have grouped : level.Groups →
      level.more bound inner steps expr ⟨rest, stop, complaints⟩ =
        .ok expr ⟨rest, stop, complaints⟩ := by
    intro hgroups
    rw [more_of_groups hgroups]
    cases steps with
    | zero => rfl
    | succ steps =>
      rw [Grammar.operands, bind_ok (takePicked_none h.join?_eq_none stop complaints)]
      rfl
  cases level with
  | assignment | unary | primary => rfl
  | call =>
    cases steps with
    | zero => rfl
    | succ steps =>
      simp only [Level.more]
      rw [Grammar.accesses, bind_ok (take?_other h.not_leftParen stop complaints)]
      simp only
      rw [bind_ok (take?_other h.not_dot stop complaints)]
      rfl
  | disjunction => exact grouped ⟨_, _, .or⟩
  | conjunction => exact grouped ⟨_, _, .and⟩
  | equality => exact grouped ⟨_, _, .equal⟩
  | comparison => exact grouped ⟨_, _, .less⟩
  | term => exact grouped ⟨_, _, .add⟩
  | factor => exact grouped ⟨_, _, .multiply⟩

end Moth.Syntax
