import Moth.Proofs.Parsing.Levels
/-!
# First tokens

The kinds of tokens with which derived phrases begin.  The parser chooses between
productions by the next token alone, and these are the facts that make its choice right.
-/

namespace Moth.Syntax

def beginsPrimary : Kind → Bool
  | .symbol .leftParen => true
  | .keyword .false | .keyword .true | .keyword .nil | .keyword .this | .keyword .super => true
  | .identifier | .string _ | .number _ => true
  | _ => false

def Level.begins (level : Level) (kind : Kind) : Bool :=
  beginsPrimary kind ||
    (decide (level.rank ≤ Level.unary.rank) && (UnaryOp.ofKind? kind).isSome)

def beginsStatement : Kind → Bool
  | .keyword .for | .keyword .if | .keyword .print | .keyword .return | .keyword .while => true
  | .symbol .leftBrace => true
  | kind => Level.assignment.begins kind

def beginsDeclaration : Kind → Bool
  | .keyword .class | .keyword .fun | .keyword .var => true
  | kind => beginsStatement kind

/-- What is known of the next token where a phrase of a sort stands.  Of the sorts that may
be empty only declarations matter. -/
def Starts : Nonterminal → Option Kind → Prop
  | .phrase level, next => ∃ kind, next = some kind ∧ level.begins kind
  | .arguments, next => ∃ kind, next = some kind ∧ Level.assignment.begins kind
  | .expressionStatement, next => ∃ kind, next = some kind ∧ Level.assignment.begins kind
  | .varDeclaration, next => next = some (.keyword .var)
  | .statement _, next => ∃ kind, next = some kind ∧ beginsStatement kind
  | .declaration, next => ∃ kind, next = some kind ∧ beginsDeclaration kind
  | .declarations, next => ∀ kind, next = some kind → beginsDeclaration kind
  | .parameters, next => next = some .identifier
  | .function, next => next = some .identifier
  | _, _ => True

theorem ahead_append {ts : List Token} {kind : Kind} (h : ahead ts = some kind)
    (us : List Token) : ahead (ts ++ us) = some kind := by
  cases ts with
  | nil => simp at h
  | cons token ts => exact h

theorem Level.begins_of_tighter {level : Level} {kind : Kind}
    (h : level.tighter.begins kind) : level.begins kind := by
  have hrank := rank_le_rank_tighter level
  simp only [Level.begins, Bool.or_eq_true, Bool.and_eq_true, decide_eq_true_eq] at h ⊢
  exact h.imp_right fun hprefix => ⟨Nat.le_trans hrank hprefix.1, hprefix.2⟩

theorem beginsStatement_of_begins {kind : Kind} (h : Level.assignment.begins kind) :
    beginsStatement kind := by
  unfold beginsStatement
  split <;> simp [h]

theorem beginsDeclaration_of_beginsStatement {kind : Kind} (h : beginsStatement kind) :
    beginsDeclaration kind := by
  unfold beginsDeclaration
  split <;> simp [h]

theorem Writes.begins {kind : Kind} {literal : Literal} (h : Writes kind literal)
    (level : Level) : level.begins kind := by
  cases h <;> rfl

theorem Prefixes.begins {kind : Kind} {op : UnaryOp} (h : Prefixes kind op) :
    Level.unary.begins kind := by
  cases h <;> rfl

/-- A derived phrase begins with a token of its sort. -/
theorem Derives.starts {sort : Nonterminal} {ts : List Token} {tree : sort.Tree}
    (h : Derives sort ts tree) : Starts sort (ahead ts) := by
  induction h with
  | literal hwrites => exact ⟨_, ahead_cons _ _, hwrites.begins _⟩
  | this hthis => exact ⟨_, ahead_cons _ _, by rw [hthis]; rfl⟩
  | ref hname => exact ⟨_, ahead_cons _ _, by rw [hname]; rfl⟩
  | super hsuper => exact ⟨_, ahead_cons _ _, by rw [hsuper]; rfl⟩
  | grouping hleft => exact ⟨_, ahead_cons _ _, by rw [hleft]; rfl⟩
  | unary hmark => exact ⟨_, ahead_cons _ _, hmark.begins⟩
  | call _ _ _ _ ih | get _ _ _ ih | joined _ _ _ ih =>
    obtain ⟨kind, hkind, hbegins⟩ := ih
    exact ⟨kind, ahead_append hkind _, hbegins⟩
  | assign hname => exact ⟨_, ahead_cons _ _, by rw [hname]; rfl⟩
  | set _ _ _ _ _ ih =>
    obtain ⟨kind, hkind, hbegins⟩ := ih
    refine ⟨kind, ahead_append hkind _, ?_⟩
    simp only [Level.begins, Level.rank] at hbegins ⊢
    simp_all
  | looser _ ih =>
    obtain ⟨kind, hkind, hbegins⟩ := ih
    exact ⟨kind, hkind, Level.begins_of_tighter hbegins⟩
  | argument _ ih => exact ih
  | moreArguments _ _ _ ih | expressionStatement _ _ ih =>
    obtain ⟨kind, hkind, hbegins⟩ := ih
    exact ⟨kind, ahead_append hkind _, hbegins⟩
  | plainVariable hvar | initialVariable hvar => simp [Starts, hvar]
  | expression _ ih =>
    obtain ⟨kind, hkind, hbegins⟩ := ih
    exact ⟨kind, hkind, beginsStatement_of_begins hbegins⟩
  | print h | returns h | block h | whileLoop h | forLoop h | ifThen h | ifElse h
  | classDef h | subclassDef h | functionDef h =>
    exact ⟨_, ahead_cons _ _, by rw [h]; rfl⟩
  | variableDef _ ih => exact ⟨_, ih, rfl⟩
  | statement _ ih =>
    obtain ⟨kind, hkind, hbegins⟩ := ih
    exact ⟨kind, hkind, beginsDeclaration_of_beginsStatement hbegins⟩
  | noDeclarations =>
    intro kind hkind
    cases hkind
  | moreDeclarations _ _ ih =>
    obtain ⟨kind, hkind, hbegins⟩ := ih
    intro found hfound
    rw [ahead_append hkind, Option.some.injEq] at hfound
    exact hfound ▸ hbegins
  | parameter hparam | moreParameters hparam => simp [Starts, hparam]
  | function hname => simp [Starts, hname]
  | _ => trivial

end Moth.Syntax
