import Moth.Tree.Parse
import Moth.Proofs.Parsing.Derivation
/-!
# What a rule reads

`Reads rule levels ts tree rest` says that a rule takes exactly the tokens `ts` in front
of `rest`, without a complaint, and gives `tree`.  The one other thing it may do is to
find itself nested too deeply, and that only if the tokens are at least as many as the
levels: every level of nesting is paid for with a token.
-/

namespace Moth.Syntax

open Rule

variable {α β : Type}

def ahead (rest : List Token) : Option Kind := rest.head?.map (·.kind)

@[simp] theorem ahead_nil : ahead [] = none := rfl

@[simp] theorem ahead_cons (token : Token) (rest : List Token) :
    ahead (token :: rest) = some token.kind := rfl

/-! ## Rules on a known cursor -/

@[simp] theorem pure_apply (value : α) (cursor : Cursor) :
    (pure value : Rule α) cursor = .ok value cursor := rfl

theorem bind_apply (first : Rule α) (next : α → Rule β) (cursor : Cursor) :
    (first >>= next) cursor =
      match first cursor with
      | .ok value cursor => next value cursor
      | .failed cursor => .failed cursor
      | .tooDeep cursor => .tooDeep cursor := rfl

theorem bind_ok {first : Rule α} {next : α → Rule β} {cursor after : Cursor} {value : α}
    (h : first cursor = .ok value after) : (first >>= next) cursor = next value after := by
  rw [bind_apply, h]

theorem ok_of_bind {first : Rule α} {next : α → Rule β} {cursor after : Cursor} {result : β}
    (h : (first >>= next) cursor = .ok result after) : ∃ value between,
      first cursor = .ok value between ∧ next value between = .ok result after := by
  rw [bind_apply] at h
  split at h
  · exact ⟨_, _, by assumption, h⟩
  · cases h
  · cases h

theorem bind_tooDeep {first : Rule α} {next : α → Rule β} {cursor after : Cursor}
    (h : first cursor = .tooDeep after) : (first >>= next) cursor = .tooDeep after := by
  rw [bind_apply, h]

theorem map_eq_bind (f : α → β) (rule : Rule α) :
    f <$> rule = rule >>= fun value => pure (f value) := rfl

theorem take?_same {kind : Kind} {token : Token} (h : token.kind = kind)
    (rest : List Token) (stop : Token) (complaints : Array ParseComplaint) :
    take? kind ⟨token :: rest, stop, complaints⟩ =
      .ok (some token) ⟨rest, stop, complaints⟩ := by
  simp [take?, h]

theorem take?_other {kind : Kind} {rest : List Token} (h : ahead rest ≠ some kind)
    (stop : Token) (complaints : Array ParseComplaint) :
    take? kind ⟨rest, stop, complaints⟩ = .ok none ⟨rest, stop, complaints⟩ := by
  cases rest with
  | nil => rfl
  | cons token rest =>
    have hkind : token.kind ≠ kind := fun heq => h (by simp [heq])
    simp [take?, hkind]

theorem takePicked_some {pick : Kind → Option α} {token : Token} {choice : α}
    (h : pick token.kind = some choice) (rest : List Token) (stop : Token)
    (complaints : Array ParseComplaint) :
    takePicked pick ⟨token :: rest, stop, complaints⟩ =
      .ok (some (choice, token)) ⟨rest, stop, complaints⟩ := by
  simp [takePicked, h]

theorem takePicked_none {pick : Kind → Option α} {rest : List Token}
    (h : ∀ kind, ahead rest = some kind → pick kind = none) (stop : Token)
    (complaints : Array ParseComplaint) :
    takePicked pick ⟨rest, stop, complaints⟩ = .ok none ⟨rest, stop, complaints⟩ := by
  cases rest with
  | nil => rfl
  | cons token rest => simp [takePicked, h token.kind rfl]

theorem expect_same {kind : Kind} {token : Token} (h : token.kind = kind)
    (fault : ParseFault) (rest : List Token) (stop : Token)
    (complaints : Array ParseComplaint) :
    expect kind fault ⟨token :: rest, stop, complaints⟩ =
      .ok token ⟨rest, stop, complaints⟩ := by
  simp [expect, h]

/-- Taking a token of a kind is picking a token that is of no other use. -/
theorem take?_bind (kind : Kind) (next : Option Token → Rule β) :
    take? kind >>= next =
      takePicked (fun found => if found = kind then some () else none) >>=
        fun found => next (found.map Prod.snd) := by
  funext ⟨rest, stop, complaints⟩
  cases rest with
  | nil => rfl
  | cons token rest =>
    by_cases h : token.kind = kind <;> simp [bind_apply, take?, takePicked, h]

theorem expect_eq_bind (kind : Kind) (fault : ParseFault) :
    expect kind fault = take? kind >>= fun
      | some token => pure token
      | none => fail fault := by
  funext ⟨rest, stop, complaints⟩
  cases rest with
  | nil => rfl
  | cons token rest => by_cases h : token.kind = kind <;> simp [bind_apply, take?, expect, h]

theorem expect_other {kind : Kind} {rest : List Token} (h : ahead rest ≠ some kind)
    (fault : ParseFault) (stop : Token) (complaints : Array ParseComplaint) :
    expect kind fault ⟨rest, stop, complaints⟩ = fail fault ⟨rest, stop, complaints⟩ := by
  rw [expect_eq_bind, bind_ok (take?_other h stop complaints)]

theorem sees_apply (kind : Kind) (rest : List Token) (stop : Token)
    (complaints : Array ParseComplaint) :
    sees kind ⟨rest, stop, complaints⟩ =
      .ok (decide (ahead rest = some kind)) ⟨rest, stop, complaints⟩ := by
  cases rest <;> simp [sees]

theorem forLoop_eq_loop (init : Option Stmt) (condition increment : Option Expr)
    (body : Stmt) :
    Grammar.forLoop init condition increment body = loop condition increment body init := by
  cases init <;> cases condition <;> cases increment <;> rfl

/-! ## Reading -/

/-- The rule takes exactly the tokens `ts`, or the tokens are many enough to be nested
too deeply. -/
def Reads (rule : Rule α) (levels : Nat) (ts : List Token) (tree : α)
    (rest : List Token) : Prop :=
  ∀ stop complaints,
    rule ⟨ts ++ rest, stop, complaints⟩ = .ok tree ⟨rest, stop, complaints⟩ ∨
      levels ≤ ts.length ∧ ∃ cursor, rule ⟨ts ++ rest, stop, complaints⟩ = .tooDeep cursor

namespace Reads

variable {first : Rule α} {next : α → Rule β} {levels : Nat} {ts us rest : List Token}
  {value : α} {tree : β} {token : Token}

theorem done (value : α) (levels : Nat) (rest : List Token) :
    Reads (pure value) levels [] value rest :=
  fun _ _ => .inl rfl

theorem fewer {rule : Rule α} {fewer : Nat} (h : Reads rule levels ts value rest)
    (hle : fewer ≤ levels) : Reads rule fewer ts value rest := by
  intro stop complaints
  rcases h stop complaints with hok | ⟨hlevels, hdeep⟩
  · exact .inl hok
  · exact .inr ⟨Nat.le_trans hle hlevels, hdeep⟩

theorem bind (hfirst : Reads first levels ts value (us ++ rest))
    (hnext : Reads (next value) levels us tree rest) :
    Reads (first >>= next) levels (ts ++ us) tree rest := by
  intro stop complaints
  rw [List.append_assoc, List.length_append]
  rcases hfirst stop complaints with hok | ⟨hlevels, cursor, hdeep⟩
  · rw [bind_ok hok]
    rcases hnext stop complaints with hok | ⟨hlevels, hdeep⟩
    · exact .inl hok
    · exact .inr ⟨by omega, hdeep⟩
  · exact .inr ⟨by omega, cursor, bind_tooDeep hdeep⟩

/-- A rule that takes no token is followed by another. -/
theorem before (hfirst : Reads first levels [] value (ts ++ rest))
    (hnext : Reads (next value) levels ts tree rest) :
    Reads (first >>= next) levels ts tree rest :=
  bind hfirst hnext

/-- A rule is followed by one that takes no token. -/
theorem last (hfirst : Reads first levels ts value rest)
    (hnext : Reads (next value) levels [] tree rest) :
    Reads (first >>= next) levels ts tree rest := by
  rw [← List.append_nil ts]
  exact bind hfirst hnext

/-- A rule that takes no token goes before another. -/
theorem look
    (hfirst : ∀ stop complaints, first ⟨ts ++ rest, stop, complaints⟩ =
      .ok value ⟨ts ++ rest, stop, complaints⟩)
    (hnext : Reads (next value) levels ts tree rest) :
    Reads (first >>= next) levels ts tree rest := by
  intro stop complaints
  rw [bind_ok (hfirst stop complaints)]
  exact hnext stop complaints

/-- A token pays for one level. -/
theorem paid
    (hfirst : ∀ stop complaints, first ⟨token :: (ts ++ rest), stop, complaints⟩ =
      .ok value ⟨ts ++ rest, stop, complaints⟩)
    (hnext : Reads (next value) levels ts tree rest) :
    Reads (first >>= next) (levels + 1) (token :: ts) tree rest := by
  intro stop complaints
  rw [List.cons_append, bind_ok (hfirst stop complaints), List.length_cons]
  rcases hnext stop complaints with hok | ⟨hlevels, hdeep⟩
  · exact .inl hok
  · exact .inr ⟨by omega, hdeep⟩

theorem takePaid {kind : Kind} {next : Option Token → Rule β} (h : token.kind = kind)
    (hnext : Reads (next (some token)) levels ts tree rest) :
    Reads (take? kind >>= next) (levels + 1) (token :: ts) tree rest :=
  paid (fun stop complaints => take?_same h _ stop complaints) hnext

theorem take {kind : Kind} {next : Option Token → Rule β} (h : token.kind = kind)
    (hnext : Reads (next (some token)) levels ts tree rest) :
    Reads (take? kind >>= next) levels (token :: ts) tree rest :=
  (takePaid h hnext).fewer (Nat.le_succ levels)

theorem skip {kind : Kind} {next : Option Token → Rule β}
    (h : ahead (ts ++ rest) ≠ some kind) (hnext : Reads (next none) levels ts tree rest) :
    Reads (take? kind >>= next) levels ts tree rest :=
  look (fun stop complaints => take?_other h stop complaints) hnext

theorem pickPaid {γ : Type} {pick : Kind → Option γ} {choice : γ}
    {next : Option (γ × Token) → Rule β} (h : pick token.kind = some choice)
    (hnext : Reads (next (some (choice, token))) levels ts tree rest) :
    Reads (takePicked pick >>= next) (levels + 1) (token :: ts) tree rest :=
  paid (fun stop complaints => takePicked_some h _ stop complaints) hnext

theorem pick {γ : Type} {pick : Kind → Option γ} {choice : γ}
    {next : Option (γ × Token) → Rule β} (h : pick token.kind = some choice)
    (hnext : Reads (next (some (choice, token))) levels ts tree rest) :
    Reads (takePicked pick >>= next) levels (token :: ts) tree rest :=
  (pickPaid h hnext).fewer (Nat.le_succ levels)

theorem pass {γ : Type} {pick : Kind → Option γ} {next : Option (γ × Token) → Rule β}
    (h : ∀ kind, ahead (ts ++ rest) = some kind → pick kind = none)
    (hnext : Reads (next none) levels ts tree rest) :
    Reads (takePicked pick >>= next) levels ts tree rest :=
  look (fun stop complaints => takePicked_none h stop complaints) hnext

theorem expectPaid {kind : Kind} {fault : ParseFault} {next : Token → Rule β}
    (h : token.kind = kind) (hnext : Reads (next token) levels ts tree rest) :
    Reads (Rule.expect kind fault >>= next) (levels + 1) (token :: ts) tree rest :=
  paid (fun stop complaints => expect_same h fault _ stop complaints) hnext

theorem expect {kind : Kind} {fault : ParseFault} {next : Token → Rule β}
    (h : token.kind = kind) (hnext : Reads (next token) levels ts tree rest) :
    Reads (Rule.expect kind fault >>= next) levels (token :: ts) tree rest :=
  (expectPaid h hnext).fewer (Nat.le_succ levels)

theorem map {rule : Rule α} (f : α → β) (h : Reads rule levels ts value rest) :
    Reads (f <$> rule) levels ts (f value) rest := by
  rw [map_eq_bind]
  exact last h (done _ _ _)

theorem seesSome {kind : Kind} {next : Bool → Rule β} (h : ahead (ts ++ rest) = some kind)
    (hnext : Reads (next true) levels ts tree rest) :
    Reads (Rule.sees kind >>= next) levels ts tree rest :=
  look (fun stop complaints => by rw [sees_apply, decide_eq_true h]) hnext

theorem seesNone {kind : Kind} {next : Bool → Rule β} (h : ahead (ts ++ rest) ≠ some kind)
    (hnext : Reads (next false) levels ts tree rest) :
    Reads (Rule.sees kind >>= next) levels ts tree rest :=
  look (fun stop complaints => by rw [sees_apply, decide_eq_false h]) hnext

theorem behindSome {rule : Rule α} {kind : Kind} (h : token.kind = kind)
    (hrule : Reads rule levels ts value rest) :
    Reads (Rule.behind kind rule) (levels + 1) (token :: ts) (some value) rest :=
  takePaid h (map some hrule)

theorem behindNone {rule : Rule α} {kind : Kind} (h : ahead rest ≠ some kind) :
    Reads (Rule.behind kind rule) levels [] none rest :=
  skip h (done _ _ _)

theorem absent {rule : Rule α} {kind : Kind} (h : ahead rest = some kind) :
    Reads (Rule.orAbsent kind value rule) levels [] value rest :=
  seesSome h (done _ _ _)

theorem present {rule : Rule α} {kind : Kind} {other : α}
    (h : ahead (ts ++ rest) ≠ some kind) (hrule : Reads rule levels ts value rest) :
    Reads (Rule.orAbsent kind other rule) levels ts value rest :=
  seesNone h hrule

theorem noComplaint {fault : ParseFault} {reason : Bool} {next : Unit → Rule β}
    (h : reason = false) (hnext : Reads (next ()) levels ts tree rest) :
    Reads (complainIf reason fault >>= next) levels ts tree rest :=
  look (fun _ _ => by rw [h]; rfl) hnext

end Reads

/-- The rules of an inner level read what they would read, given one level more. -/
theorem reads_nested (rule : Rules → Rule α) {bound levels : Nat} {ts rest : List Token}
    {tree : α} (hnone : rule Rules.exhausted = Rule.tooDeep)
    (h : ∀ n, Reads (rule (Rules.nested bound (n + 1))) (n + 1) ts tree rest) :
    Reads (rule (Rules.nested bound levels)) levels ts tree rest := by
  cases levels with
  | zero =>
    intro stop complaints
    exact .inr ⟨Nat.zero_le _, _, by rw [Rules.nested, hnone]; rfl⟩
  | succ n => exact h n

end Moth.Syntax
