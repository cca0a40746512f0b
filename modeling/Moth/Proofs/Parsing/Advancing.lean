import Moth.Proofs.Parsing.Levels
import Moth.Proofs.Parsing.Uses
/-!
# How far a rule comes

Every rule of the parser leaves the cursor further on in the same tokens, or where it was, and
takes no complaint back.  `Advances limit least hand rule` says this, together with two numbers and
an account: the rule takes at least `least` tokens when it succeeds, is nested too deeply only where
`limit` tokens or more are ahead, and uses no token more often than `hand` allows and it has taken
it.  So no token is in two places of a tree, and none that was skipped is in it at all.
-/

namespace Moth

structure Cursor.Leads (cursor after : Cursor) : Prop where
  rest : after.rest <:+ cursor.rest
  stop : after.stop = cursor.stop
  complaints : cursor.complaints.toList <+: after.complaints.toList

namespace Cursor.Leads

variable {cursor between after : Cursor}

theorem refl (cursor : Cursor) : cursor.Leads cursor :=
  ⟨List.suffix_rfl, rfl, List.prefix_rfl⟩

theorem trans (h : cursor.Leads between) (h' : between.Leads after) : cursor.Leads after :=
  ⟨h'.rest.trans h.rest, h'.stop.trans h.stop, h.complaints.trans h'.complaints⟩

theorem pass (token : Token) (rest : List Token) (stop : Token)
    (complaints : Array ParseComplaint) :
    Leads ⟨token :: rest, stop, complaints⟩ ⟨rest, stop, complaints⟩ :=
  ⟨List.suffix_cons token rest, rfl, List.prefix_rfl⟩

theorem complainAt (cursor : Cursor) (token : Token) (fault : ParseFault) :
    cursor.Leads (cursor.complainAt token fault) := by
  refine ⟨List.suffix_rfl, rfl, ?_⟩
  rw [Cursor.complainAt, Array.toList_push]
  exact List.prefix_append _ _

theorem size_le (h : cursor.Leads after) : cursor.complaints.size ≤ after.complaints.size :=
  h.complaints.length_le

end Cursor.Leads

def Reply.cursor {α : Type} : Reply α → Cursor
  | .ok _ cursor | .failed cursor | .tooDeep cursor => cursor

namespace Syntax

open Rule Grammar Uses

variable {α β : Type}

/-- How far a rule may have come that began at a cursor.  If it failed it has complained. -/
structure Comes (limit least : Nat) (cursor : Cursor) (reply : Reply α) : Prop where
  leads : cursor.Leads reply.cursor
  taken : ∀ value after, reply = .ok value after → after.rest.length + least ≤ cursor.rest.length
  noted : ∀ after, reply = .failed after → cursor.complaints.size < after.complaints.size
  shallow : ∀ after, reply = .tooDeep after → limit ≤ cursor.rest.length

/-- The rule has used no token more often than it was given and has taken it. -/
structure Fares [Uses α] (limit least : Nat) (hand : Token → Nat) (cursor : Cursor)
    (reply : Reply α) : Prop extends Comes limit least cursor reply where
  spent : ∀ value after, reply = .ok value after → ∀ token,
    uses token value + after.rest.count token ≤ hand token + cursor.rest.count token

def Advances [Uses α] (limit least : Nat) (hand : Token → Nat) (rule : Rule α) : Prop :=
  ∀ cursor, Fares limit least hand cursor (rule cursor)

section

variable {limit less least more total : Nat} {cursor between after : Cursor} {reply : Reply α}

theorem comes_ok {value : α} (h : cursor.Leads after)
    (htaken : after.rest.length + least ≤ cursor.rest.length) :
    Comes limit least cursor (.ok value after) where
  leads := h
  taken := by
    rintro _ _ ⟨⟩
    exact htaken
  noted := nofun
  shallow := nofun

theorem comes_failed (h : cursor.Leads after)
    (hnoted : cursor.complaints.size < after.complaints.size) :
    Comes limit least cursor (.failed after : Reply α) where
  leads := h
  taken := nofun
  noted := by
    rintro _ ⟨⟩
    exact hnoted
  shallow := nofun

theorem comes_tooDeep (h : cursor.Leads after) (hlimit : limit ≤ cursor.rest.length) :
    Comes limit least cursor (.tooDeep after : Reply α) :=
  ⟨h, nofun, nofun, fun _ _ => hlimit⟩

/-- A rule that began further on has come as far from here. -/
theorem Comes.behind (h : Comes less more between reply) (hleads : cursor.Leads between)
    (htaken : between.rest.length + least ≤ cursor.rest.length) (hlimit : limit ≤ less + least)
    (htotal : total ≤ least + more) : Comes limit total cursor reply where
  leads := hleads.trans h.leads
  taken value after hreply := by
    have hmore := h.taken value after hreply
    omega
  noted after hreply := Nat.lt_of_le_of_lt hleads.size_le (h.noted after hreply)
  shallow after hreply := by
    have hdeep := h.shallow after hreply
    omega

end

namespace Advances

variable [Uses α] [Uses β] {limit least total : Nat} {hand : Token → Nat} {rule : Rule α}
  {kind : Kind} {fault : ParseFault}

theorem weaken {less more : Nat} (h : Advances limit least hand rule) (hless : less ≤ limit)
    (hmore : more ≤ least) : Advances less more hand rule :=
  fun cursor => ⟨(h cursor).behind (.refl cursor) (Nat.le_refl (cursor.rest.length + 0)) (by omega)
    (by omega), (h cursor).spent⟩

theorem any (h : Advances limit least hand rule) : Advances limit 0 hand rule :=
  h.weaken (Nat.le_refl _) (Nat.zero_le _)

theorem spare {more : Token → Nat} (h : Advances limit least hand rule)
    (hmore : ∀ token, hand token ≤ more token) : Advances limit least more rule :=
  fun cursor => ⟨(h cursor).toComes, fun value after hreply token =>
    Nat.le_trans ((h cursor).spent value after hreply token)
      (Nat.add_le_add_right (hmore token) _)⟩

theorem done {value : α} (h : ∀ token, uses token value ≤ hand token) :
    Advances limit 0 hand (pure value) := by
  refine fun cursor => ⟨comes_ok (.refl cursor) (Nat.le_refl _), ?_⟩
  rintro _ _ ⟨⟩ token
  exact Nat.add_le_add_right (h token) _

theorem deep : Advances 0 least hand (tooDeep : Rule α) :=
  fun cursor => ⟨comes_tooDeep (.refl cursor) (Nat.zero_le _), nofun⟩

theorem fails : Advances limit least hand (fail fault : Rule α) := by
  refine fun cursor => ⟨comes_failed (.complainAt cursor _ fault) ?_, nofun⟩
  simp [Cursor.complainAt]

/-- What the next rule is given beyond the uses in the first one's result is kept for it. -/
theorem join (less more : Nat) {kept : Token → Nat} {next : α → Rule β}
    (h : Advances limit least hand rule)
    (hnext : ∀ value, Advances less more (fun token => kept token + uses token value) (next value))
    (hless : limit ≤ less + least) (htotal : total ≤ least + more) :
    Advances limit total (fun token => hand token + kept token) (rule >>= next) := by
  intro cursor
  have hfirst := h cursor
  rw [bind_apply]
  cases hreply : rule cursor with
  | ok value between =>
    rw [hreply] at hfirst
    have hsecond := hnext value between
    refine ⟨hsecond.behind hfirst.leads (hfirst.taken _ _ rfl) hless htotal, ?_⟩
    intro result after hresult token
    have hspent := hfirst.spent _ _ rfl token
    have hmore := hsecond.spent result after hresult token
    omega
  | failed after =>
    rw [hreply] at hfirst
    exact ⟨comes_failed hfirst.leads (hfirst.noted _ rfl), nofun⟩
  | tooDeep after =>
    rw [hreply] at hfirst
    exact ⟨comes_tooDeep hfirst.leads (hfirst.shallow _ rfl), nofun⟩

theorem bind (less more : Nat) {next : α → Rule β} (h : Advances limit least (fun _ => 0) rule)
    (hnext : ∀ value, Advances less more (fun token => hand token + uses token value) (next value))
    (hless : limit ≤ less + least) (htotal : total ≤ least + more) :
    Advances limit total hand (rule >>= next) := by
  simpa only [Nat.zero_add] using join less more h hnext hless htotal

theorem lead {next : α → Rule β} (h : Advances limit 1 (fun _ => 0) rule)
    (hnext : ∀ value, Advances limit 0 (fun token => hand token + uses token value) (next value)) :
    Advances limit 1 hand (rule >>= next) :=
  bind limit 0 h hnext (Nat.le_succ _) (Nat.le_refl _)

/-- A first rule of which it does not matter how many tokens it takes. -/
theorem before {next : α → Rule β} (h : Advances limit least (fun _ => 0) rule)
    (hnext : ∀ value,
      Advances limit total (fun token => hand token + uses token value) (next value)) :
    Advances limit total hand (rule >>= next) :=
  bind limit total h hnext (Nat.le_add_right _ _) (Nat.le_add_left _ _)

/-- A first rule that is given all there is. -/
theorem chain {next : α → Rule β} (h : Advances limit least hand rule)
    (hnext : ∀ value, Advances limit 0 (fun token => uses token value) (next value)) :
    Advances limit least hand (rule >>= next) := by
  have hjoin : Advances limit least (fun token => hand token + 0) (rule >>= next) :=
    join limit 0 h (fun value => (hnext value).spare fun _ => Nat.le_add_left _ 0)
      (Nat.le_add_right _ _) (Nat.le_refl _)
  exact hjoin

theorem map (f : α → β) (h : Advances limit least hand rule)
    (hf : ∀ value token, uses token (f value) ≤ uses token value) :
    Advances limit least hand (f <$> rule) := by
  rw [map_eq_bind]
  exact chain h fun value => done (hf value)

/-! ## Single tokens -/

theorem pick (less more : Nat) {γ : Type} {pick : Kind → Option γ}
    {next : Option (γ × Token) → Rule β}
    (hsome : ∀ choice mark, pick mark.kind = some choice →
      Advances less more (fun token => hand token + uses token mark) (next (some (choice, mark))))
    (hnone : Advances limit least hand (next none)) (hless : limit ≤ less + 1)
    (hmore : least ≤ 1 + more) : Advances limit least hand (takePicked pick >>= next) := by
  rintro ⟨rest, stop, complaints⟩
  cases rest with
  | nil =>
    rw [bind_ok (takePicked_none (by simp) stop complaints)]
    exact hnone _
  | cons mark rest =>
    cases hpick : pick mark.kind with
    | none =>
      rw [bind_ok (takePicked_none (by simp [hpick]) stop complaints)]
      exact hnone _
    | some choice =>
      rw [bind_ok (takePicked_some hpick rest stop complaints)]
      have hnext := hsome choice mark hpick ⟨rest, stop, complaints⟩
      refine ⟨hnext.behind (.pass mark rest stop complaints) (Nat.le_refl (rest.length + 1)) hless
        hmore, fun value after hreply token => ?_⟩
      have hspent := hnext.spent value after hreply token
      rwa [Nat.add_assoc, ← count_cons_eq_uses] at hspent

theorem take (less more : Nat) {next : Option Token → Rule β}
    (hsome : ∀ mark,
      Advances less more (fun token => hand token + uses token mark) (next (some mark)))
    (hnone : Advances limit least hand (next none)) (hless : limit ≤ less + 1)
    (hmore : least ≤ 1 + more) : Advances limit least hand (take? kind >>= next) := by
  rw [take?_bind]
  exact pick less more (fun _ mark _ => hsome mark) hnone hless hmore

/-- Behind the token that a rule begins with there is one level less. -/
theorem inward {next : Option Token → Rule β}
    (hsome : ∀ mark,
      Advances limit least (fun token => hand token + uses token mark) (next (some mark)))
    (hnone : Advances (limit + 1) 1 hand (next none)) :
    Advances (limit + 1) 1 hand (take? kind >>= next) :=
  take limit least hsome hnone (Nat.le_refl _) (Nat.le_add_right _ _)

theorem token : Advances limit 1 (fun _ => 0) (Rule.expect kind fault) := by
  rw [expect_eq_bind]
  exact take limit 0 (fun mark => done fun _ => Nat.le_add_left _ _) fails (Nat.le_succ _)
    (Nat.le_refl _)

theorem expect {next : Token → Rule β}
    (hnext : ∀ mark, Advances limit 0 (fun token => hand token + uses token mark) (next mark)) :
    Advances limit 1 hand (Rule.expect kind fault >>= next) :=
  lead token hnext

/-- A token after which it does not matter that it was taken. -/
theorem pass {next : Token → Rule β}
    (hnext : ∀ mark, Advances limit least hand (next mark)) :
    Advances limit least hand (Rule.expect kind fault >>= next) :=
  before token fun mark => (hnext mark).spare fun _ => Nat.le_add_right _ _

theorem sees : Advances limit 0 hand (Rule.sees kind) := by
  rintro ⟨rest, stop, complaints⟩
  rw [sees_apply]
  exact done (fun _ => Nat.zero_le _) _

theorem atEnd : Advances limit 0 hand Rule.atEnd :=
  fun cursor => done (fun _ => Nat.zero_le _) cursor

/-! ## Complaints and choices -/

theorem complainAt (mark : Token) : Advances limit 0 hand (Rule.complainAt mark fault) := by
  refine fun cursor => ⟨comes_ok (.complainAt cursor mark fault) (Nat.le_refl _), ?_⟩
  rintro _ _ ⟨⟩ token
  exact Nat.add_le_add_right (Nat.zero_le _) _

theorem complainIf (reason : Bool) : Advances limit 0 hand (Rule.complainIf reason fault) := by
  cases reason with
  | false => exact done fun _ => Nat.zero_le _
  | true => exact fun cursor => complainAt cursor.peek cursor

theorem behind (h : Advances limit least hand rule) :
    Advances limit 0 hand (Rule.behind kind rule) := by
  refine take limit least (fun mark => ?_) (done fun _ => Nat.zero_le _) (Nat.le_succ _)
    (Nat.zero_le _)
  exact (map some h fun _ _ => Nat.le_refl _).spare fun _ => Nat.le_add_right _ _

theorem orAbsent {absent : α} (h : Advances limit least hand rule)
    (habsent : ∀ token, uses token absent = 0) :
    Advances limit 0 hand (Rule.orAbsent kind absent rule) := by
  refine before sees fun seen => ?_
  cases seen with
  | true => exact done fun token => by rw [habsent]; exact Nat.zero_le _
  | false => exact h.any

end Advances

/-! ## Skipping -/

theorem skipAfter_suffix (last : Token) (rest : List Token) : skipAfter last rest <:+ rest := by
  induction rest generalizing last with
  | nil => exact List.suffix_rfl
  | cons token rest ih =>
    rw [skipAfter]
    split
    · exact List.suffix_rfl
    · exact (ih token).trans (List.suffix_cons token rest)

theorem skip_suffix (rest : List Token) : skip rest <:+ rest := by
  cases rest with
  | nil => exact List.suffix_rfl
  | cons token rest => exact (skipAfter_suffix token rest).trans (List.suffix_cons token rest)

/-- Skipping takes at least one token, if there is one. -/
theorem skip_length (token : Token) (rest : List Token) :
    (skip (token :: rest)).length ≤ rest.length :=
  (skipAfter_suffix token rest).length_le

theorem Cursor.Leads.skip {cursor after : Cursor} (h : cursor.Leads after) :
    cursor.Leads { after with rest := Grammar.skip after.rest } :=
  ⟨(skip_suffix after.rest).trans h.rest, h.stop, h.complaints⟩

theorem advances_recover {limit least : Nat} {rule : Rule Stmt}
    (h : Advances limit least (fun _ => 0) rule) :
    Advances limit 0 (fun _ => 0) (recover rule) := by
  intro cursor
  have hcomes := h cursor
  rw [recover]
  cases hreply : rule cursor with
  | ok stmt after =>
    rw [hreply] at hcomes
    refine ⟨comes_ok hcomes.leads hcomes.leads.rest.length_le, ?_⟩
    rintro _ _ ⟨⟩ token
    exact hcomes.spent stmt _ rfl token
  | failed after =>
    rw [hreply] at hcomes
    have hleads := Cursor.Leads.skip hcomes.leads
    refine ⟨comes_ok hleads hleads.rest.length_le, ?_⟩
    rintro _ _ ⟨⟩ token
    exact Nat.add_le_add (Nat.zero_le _) (hleads.rest.sublist.count_le token)
  | tooDeep after =>
    rw [hreply] at hcomes
    exact ⟨comes_tooDeep hcomes.leads (hcomes.shallow _ rfl), by rintro _ _ ⟨⟩⟩

theorem ok_of_recover {rule : Rule Stmt} {cursor after : Cursor} {found : Option Stmt}
    (h : recover rule cursor = .ok found after) :
    (∃ stmt, found = some stmt ∧ rule cursor = .ok stmt after) ∨
      ∃ failed, after = { failed with rest := skip failed.rest } ∧
        rule cursor = .failed failed := by
  rw [recover] at h
  split at h <;> cases h
  · exact .inl ⟨_, rfl, by assumption⟩
  · exact .inr ⟨_, rfl, by assumption⟩

/-- Where a token is ahead, a statement that is read or given up takes one at least. -/
theorem recover_eats {limit least : Nat} {rule : Rule Stmt}
    (h : Advances limit (least + 1) (fun _ => 0) rule) {cursor after : Cursor}
    {found : Option Stmt} (hcursor : cursor.rest ≠ [])
    (hreply : recover rule cursor = .ok found after) : after.rest.length < cursor.rest.length := by
  have hcomes := h cursor
  rcases ok_of_recover hreply with ⟨stmt, -, hrule⟩ | ⟨failed, rfl, hrule⟩
  · have htaken := hcomes.taken stmt after hrule
    omega
  · rw [hrule] at hcomes
    have hle : failed.rest.length ≤ cursor.rest.length := hcomes.leads.rest.length_le
    cases hrest : failed.rest with
    | nil => exact List.length_pos_iff.2 hcursor
    | cons token rest =>
      rw [hrest, List.length_cons] at hle
      exact Nat.lt_of_le_of_lt (skip_length token rest) hle

/-- A statement is given up only with a complaint. -/
theorem recover_noted {limit least : Nat} {rule : Rule Stmt}
    (h : Advances limit least (fun _ => 0) rule) {cursor after : Cursor}
    (hreply : recover rule cursor = .ok none after) :
    cursor.complaints.size < after.complaints.size := by
  rcases ok_of_recover hreply with ⟨stmt, hfound, -⟩ | ⟨failed, rfl, hrule⟩
  · cases hfound
  · exact (h cursor).noted failed hrule

/-! ## Expressions -/

/-- The rules at one level of nesting advance, and none is too deep with fewer tokens ahead than
there are levels. -/
structure Onward (limit : Nat) (rules : Rules) : Prop where
  expression : Advances limit 1 (fun _ => 0) rules.expression
  unary : Advances limit 1 (fun _ => 0) rules.unary
  statement : Advances limit 1 (fun _ => 0) rules.statement
  declaration : Advances limit 0 (fun _ => 0) rules.declaration

section

variable {limit bound : Nat} {hand : Token → Nat} {inner : Rules} (h : Onward limit inner)

include h

theorem advances_primary : Advances (limit + 1) 1 hand (primary inner) := by
  refine .pick limit 0 (fun value mark _ => .done (by grind)) ?_ (Nat.le_refl _) (Nat.le_refl _)
  refine .inward (fun keyword => .done (by grind)) (.inward (fun name => .done (by grind)) ?_)
  refine .inward (fun keyword => .pass fun dot => .pass fun method => .done (by grind)) ?_
  exact .inward (fun left => .before h.expression fun expr => .pass fun right => .done (by grind))
    .fails

theorem advances_arguments : ∀ (steps : Nat) (args : Array Expr),
    Advances limit 0 (fun token => uses token args) (arguments inner steps args)
  | 0, args => .done fun _ => Nat.le_refl _
  | steps + 1, args => by
    refine .before (.complainIf _) fun _ => .before h.expression fun arg => ?_
    refine .take limit 0 (fun comma => ?_) (.done (by grind)) (Nat.le_succ _) (Nat.zero_le _)
    exact (advances_arguments steps (args.push arg)).spare (by grind)

theorem advances_finishCall (callee : Expr) :
    Advances limit 0 (fun token => uses token callee) (finishCall bound inner callee) :=
  .before (.orAbsent (advances_arguments h bound #[]) fun _ => rfl) fun args => .pass fun paren =>
    .done (by grind)

theorem advances_accesses : ∀ (steps : Nat) (expr : Expr),
    Advances (limit + 1) 0 (fun token => uses token expr) (accesses bound inner steps expr)
  | 0, expr => .done fun _ => Nat.le_refl _
  | steps + 1, expr => by
    have hmore (next : Expr) :
        Advances limit 0 (fun token => uses token next) (accesses bound inner steps next) :=
      (advances_accesses steps next).weaken (Nat.le_succ _) (Nat.le_refl _)
    refine .take limit 0 (fun left => ?_) ?_ (Nat.le_refl _) (Nat.zero_le _)
    · exact (Advances.chain (advances_finishCall h expr) hmore).spare (by grind)
    refine .take limit 0 (fun dot => ?_) (.done fun _ => Nat.le_refl _) (Nat.le_refl _)
      (Nat.zero_le _)
    exact .pass fun name => (hmore (.get expr name)).spare (by grind)

theorem advances_call : Advances (limit + 1) 1 hand (call bound inner) :=
  .lead (advances_primary h) fun first => (advances_accesses h bound first).spare (by grind)

theorem advances_unary : Advances (limit + 1) 1 hand (unary bound inner) := by
  refine .pick limit 0 (fun op mark _ => ?_) (advances_call h) (Nat.le_refl _) (Nat.le_refl _)
  exact .before h.unary fun right => .done (by grind)

omit h in
theorem Joins.uses {level : Level} {kind : Kind} {join : Token → Expr → Expr → Expr}
    (h : Joins level kind join) (token mark : Token) (left right : Expr) :
    uses token (join mark left right) = uses token left + uses token right := by
  cases h <;> grind

omit h in
theorem advances_operands (level : Level) {operand : Rule Expr}
    (hoperand : Advances limit 1 (fun _ => 0) operand) : ∀ (steps : Nat) (left : Expr),
    Advances limit 0 (fun token => uses token left) (operands operand (join? level) steps left)
  | 0, left => .done fun _ => Nat.le_refl _
  | steps + 1, left => by
    refine .pick limit 0 (fun join mark hmark => ?_) (.done fun _ => Nat.le_refl _) (Nat.le_succ _)
      (Nat.zero_le _)
    refine .before hoperand fun right => (advances_operands level hoperand steps _).spare ?_
    grind [(join?_eq_some_iff.1 hmark).uses]

omit h in
theorem advances_leftGrouped (level : Level) {operand : Rule Expr}
    (hoperand : Advances limit 1 (fun _ => 0) operand) :
    Advances limit 1 hand (leftGrouped bound operand (join? level)) :=
  .lead hoperand fun first => (advances_operands level hoperand bound first).spare (by grind)

theorem advances_disjunction : Advances (limit + 1) 1 hand (disjunction bound inner) :=
  advances_leftGrouped .disjunction <| advances_leftGrouped .conjunction <|
    advances_leftGrouped .equality <| advances_leftGrouped .comparison <|
    advances_leftGrouped .term <| advances_leftGrouped .factor <| advances_unary h

theorem advances_expression : Advances (limit + 1) 1 hand (expression bound inner) := by
  refine (advances_disjunction h).bind limit 0 (fun target => ?_) (Nat.le_refl _) (Nat.le_refl _)
  refine .take limit 0 (fun mark => ?_) (.done (by grind)) (Nat.le_succ _) (Nat.zero_le _)
  refine .before h.expression fun value => ?_
  cases target
  case ref name => exact .done (by grind)
  case get object name => exact .done (by grind)
  -- no other expression can be assigned to
  all_goals exact .before (.complainAt mark) fun _ => .done (by grind)

end

/-! ## Statements -/

section

variable {limit : Nat} {hand : Token → Nat} {expression : Rule Expr} {branch : Rule Stmt}
  (h : Advances limit 1 (fun _ => 0) expression)

include h

theorem advances_expressionStatement : Advances limit 1 hand (expressionStatement expression) :=
  .lead h fun value => .pass fun stop => .done (by grind)

theorem advances_varDeclaration : Advances limit 1 hand (varDeclaration expression) :=
  .expect fun name => .before h.behind fun init => .pass fun stop => .done (by grind)

theorem advances_expressionUnless {kind : Kind} :
    Advances limit 0 (fun _ => 0) (expressionUnless kind expression) :=
  (h.map some fun _ _ => Nat.le_refl _).orAbsent fun _ => rfl

theorem advances_forInitializer : Advances limit 1 hand (forInitializer expression) := by
  refine .take limit 0 (fun stop => .done (by grind)) ?_ (Nat.le_succ _) (Nat.le_refl _)
  refine .take limit 1 (fun keyword => ?_) ?_ (Nat.le_succ _) (Nat.le_succ _)
  · exact (advances_varDeclaration h).map some fun _ _ => Nat.le_refl _
  · exact (advances_expressionStatement h).map some fun _ _ => Nat.le_refl _

theorem advances_printStatement : Advances limit 1 hand (printStatement expression) :=
  .lead h fun value => .pass fun stop => .done (by grind)

theorem advances_returnStatement (keyword : Token) :
    Advances limit 1 (fun token => uses token keyword) (returnStatement keyword expression) :=
  .before (advances_expressionUnless h) fun value => .expect fun stop => .done (by grind)

omit h in
theorem uses_forLoop (token : Token) (init : Option Stmt) (condition increment : Option Expr)
    (body : Stmt) : uses token (forLoop init condition increment body) ≤
      uses token init + uses token condition + uses token increment + uses token body := by
  have hblock (first second : Stmt) :
      uses token (Stmt.block [first, second]) = uses token first + uses token second :=
    count_eventsAll ..
  cases init <;> cases condition <;> cases increment <;> grind [forLoop]

variable (hbranch : Advances limit 1 (fun _ => 0) branch)

include hbranch

theorem advances_forStatement : Advances limit 1 hand (forStatement expression branch) :=
  .expect fun left => .before (advances_forInitializer h) fun init =>
    .before (advances_expressionUnless h) fun condition => .pass fun middle =>
    .before (advances_expressionUnless h) fun increment => .pass fun right =>
    .before hbranch fun body => .done (by grind [uses_forLoop])

theorem advances_ifStatement : Advances limit 1 hand (ifStatement expression branch) :=
  .expect fun left => .before h fun condition => .pass fun right => .before hbranch fun yes =>
    .before hbranch.behind fun no => .done (by grind)

theorem advances_whileStatement : Advances limit 1 hand (whileStatement expression branch) :=
  .expect fun left => .before h fun condition => .pass fun right => .before hbranch fun body =>
    .done (by grind)

end

section

variable {limit bound : Nat} {hand : Token → Nat} {inner : Rules} (h : Onward limit inner)

include h

theorem advances_declarations : ∀ (steps : Nat) (body : Array Stmt),
    Advances limit 0 (fun token => uses token body) (declarations inner steps body)
  | 0, body => .done fun _ => Nat.le_refl _
  | steps + 1, body => by
    refine .before .sees fun seen => .before .atEnd fun ended => ?_
    cases seen || ended with
    | true => exact .done (by grind)
    | false =>
      refine .before h.declaration fun found => ?_
      cases found with
      | none => exact (advances_declarations steps body).spare (by grind)
      | some stmt => exact (advances_declarations steps (body.push stmt)).spare (by grind)

theorem advances_block : Advances limit 1 hand (block bound inner) :=
  .before (advances_declarations h bound #[]) fun body => .expect fun brace => .done (by grind)

theorem advances_statement : Advances (limit + 1) 1 hand (statement bound inner) := by
  have hexpression : Advances limit 1 (fun _ => 0) (expression bound inner) :=
    (advances_expression h).weaken (Nat.le_succ _) (Nat.le_refl _)
  refine .inward (fun keyword => advances_forStatement hexpression h.statement) ?_
  refine .inward (fun keyword => advances_ifStatement hexpression h.statement) ?_
  refine .inward (fun keyword => advances_printStatement hexpression) ?_
  refine .inward (fun keyword => (advances_returnStatement hexpression keyword).spare ?_) ?_
  · grind
  refine .inward (fun keyword => advances_whileStatement hexpression h.statement) ?_
  refine .inward (fun brace => (advances_block h).map Stmt.block (by grind)) ?_
  exact advances_expressionStatement (advances_expression h)

/-! ## Declarations -/

omit h in
theorem advances_parameters : ∀ (steps : Nat) (params : Array Token),
    Advances limit 0 (fun token => uses token params) (parameters steps params)
  | 0, params => .done fun _ => Nat.le_refl _
  | steps + 1, params => by
    refine .before (.complainIf _) fun _ => .before .token fun param => ?_
    refine .take limit 0 (fun comma => ?_) (.done (by grind)) (Nat.le_succ _) (Nat.zero_le _)
    exact (advances_parameters steps (params.push param)).spare (by grind)

theorem advances_function (sort : FunctionSort) :
    Advances limit 1 hand (function bound inner sort) :=
  .expect fun name => .pass fun left =>
    .before (.orAbsent (advances_parameters bound #[]) fun _ => rfl) fun params =>
    .pass fun right => .pass fun brace => .before (advances_block h) fun body => .done (by grind)

theorem advances_methods : ∀ (steps : Nat) (found : Array FunctionDecl),
    Advances limit 0 (fun token => uses token found) (methods bound inner steps found)
  | 0, found => .done fun _ => Nat.le_refl _
  | steps + 1, found => by
    refine .before .sees fun seen => .before .atEnd fun ended => ?_
    cases seen || ended with
    | true => exact .done (by grind)
    | false =>
      exact .before (advances_function h .method) fun method =>
        (advances_methods steps (found.push method)).spare (by grind)

theorem advances_classDeclaration : Advances limit 1 hand (classDeclaration bound inner) := by
  refine .expect fun name => .before Advances.token.behind fun superclass => .pass fun left =>
    .before (advances_methods h bound #[]) fun methods => .pass fun right => .done fun token => ?_
  have hevents := count_methodEvents token (Place.top.inClass name superclass methods.toList)
    (classContext superclass) methods.toList
  grind

/-- A declaration before what is wrong with it is skipped. -/
def declaring (bound : Nat) (inner : Rules) : Rule Stmt := do
  if let some _ ← take? (.keyword .«class») then
    classDeclaration bound inner
  else if let some _ ← take? (.keyword .«fun») then
    .function <$> function bound inner .function
  else if let some _ ← take? (.keyword .var) then
    varDeclaration (expression bound inner)
  else
    statement bound inner

theorem advances_declaring : Advances (limit + 1) 1 (fun _ => 0) (declaring bound inner) := by
  have hexpression : Advances limit 1 (fun _ => 0) (expression bound inner) :=
    (advances_expression h).weaken (Nat.le_succ _) (Nat.le_refl _)
  refine .inward (fun keyword => advances_classDeclaration h) ?_
  refine .inward (fun keyword => (advances_function h .function).map Stmt.function (by grind)) ?_
  exact .inward (fun keyword => advances_varDeclaration hexpression) (advances_statement h)

theorem advances_declaration :
    Advances (limit + 1) 0 (fun _ => 0) (declaration bound inner) :=
  advances_recover (advances_declaring h)

theorem onward_around : Onward (limit + 1) (Rules.around bound inner) :=
  ⟨advances_expression h, advances_unary h, advances_statement h, advances_declaration h⟩

theorem advances_wholeExpression : Advances limit 1 (fun _ => 0) (wholeExpression inner) := by
  refine .lead h.expression fun expr => .before .atEnd fun ended => ?_
  cases ended with
  | true => exact .done (by grind)
  | false => exact .fails

end

/-- The rules at every level of nesting advance. -/
theorem onward_nested (bound : Nat) : ∀ levels, Onward levels (Rules.nested bound levels)
  | 0 => ⟨.deep, .deep, .deep, .deep⟩
  | levels + 1 => onward_around (onward_nested bound levels)

end Syntax

end Moth
