import Moth.Proofs.Parsing.Reading
/-!
# Relabelled tokens

A relabelling changes tokens and keeps their kinds.  The parser looks at nothing but kinds,
whether it reads on, complains or skips: on relabelled tokens it gives the relabelled tree and
the same complaints about the relabelled tokens (`parseProgram_relabel`).
-/

namespace Moth

structure Relabelling where
  label : Token → Token
  kind_label : ∀ token, (label token).kind = token.kind

attribute [simp] Relabelling.kind_label

variable (r : Relabelling)

mutual

def Expr.relabel : Expr → Expr
  | .literal value => .literal value
  | .grouping inner => .grouping inner.relabel
  | .unary op mark right => .unary op (r.label mark) right.relabel
  | .binary op mark left right => .binary op (r.label mark) left.relabel right.relabel
  | .logical op mark left right => .logical op (r.label mark) left.relabel right.relabel
  | .ref name => .ref (r.label name)
  | .assign name value => .assign (r.label name) value.relabel
  | .call callee paren args => .call callee.relabel (r.label paren) (relabelArgs args)
  | .get object name => .get object.relabel (r.label name)
  | .set object name value => .set object.relabel (r.label name) value.relabel
  | .this keyword => .this (r.label keyword)
  | .super keyword method => .super (r.label keyword) (r.label method)

def relabelArgs : List Expr → List Expr
  | [] => []
  | arg :: args => arg.relabel :: relabelArgs args

end

attribute [simp] Expr.relabel relabelArgs

mutual

def Stmt.relabel : Stmt → Stmt
  | .expression value => .expression (value.relabel r)
  | .print value => .print (value.relabel r)
  | .var name init => .var (r.label name) (init.map (Expr.relabel r))
  | .block body => .block (relabelAll body)
  | .ifElse condition yes no => .ifElse (condition.relabel r) yes.relabel (relabelElse no)
  | .whileLoop condition body => .whileLoop (condition.relabel r) body.relabel
  | .function declaration => .function (relabelFunction declaration)
  | .returns keyword value => .returns (r.label keyword) (value.map (Expr.relabel r))
  | .classDef name superclass methods =>
    .classDef (r.label name) (superclass.map r.label) (relabelMethods methods)

def relabelElse : Option Stmt → Option Stmt
  | none => none
  | some no => some no.relabel

def relabelAll : List Stmt → List Stmt
  | [] => []
  | first :: rest => first.relabel :: relabelAll rest

def relabelFunction : FunctionDecl → FunctionDecl
  | ⟨name, params, body⟩ => ⟨r.label name, params.map r.label, relabelAll body⟩

def relabelMethods : List FunctionDecl → List FunctionDecl
  | [] => []
  | first :: rest => relabelFunction first :: relabelMethods rest

end

attribute [simp] Stmt.relabel relabelElse relabelAll relabelFunction relabelMethods

theorem relabelArgs_eq_map (args : List Expr) : relabelArgs r args = args.map (Expr.relabel r) := by
  induction args with
  | nil => rw [relabelArgs, List.map_nil]
  | cons arg args ih => rw [relabelArgs, ih, List.map_cons]

theorem relabelElse_eq_map (no : Option Stmt) : relabelElse r no = no.map (Stmt.relabel r) := by
  cases no <;> rw [relabelElse] <;> rfl

theorem relabelAll_eq_map (body : List Stmt) : relabelAll r body = body.map (Stmt.relabel r) := by
  induction body with
  | nil => rw [relabelAll, List.map_nil]
  | cons first rest ih => rw [relabelAll, ih, List.map_cons]

theorem relabelMethods_eq_map (methods : List FunctionDecl) :
    relabelMethods r methods = methods.map (relabelFunction r) := by
  induction methods with
  | nil => rw [relabelMethods, List.map_nil]
  | cons first rest ih => rw [relabelMethods, ih, List.map_cons]

def ParseComplaint.relabel (complaint : ParseComplaint) : ParseComplaint :=
  { complaint with token := r.label complaint.token }

def Cursor.relabel (cursor : Cursor) : Cursor where
  rest := cursor.rest.map r.label
  stop := r.label cursor.stop
  complaints := cursor.complaints.map (ParseComplaint.relabel r)

theorem Cursor.peek_relabel (cursor : Cursor) : (cursor.relabel r).peek = r.label cursor.peek := by
  obtain ⟨rest, stop, complaints⟩ := cursor
  cases rest <;> rfl

theorem Cursor.complainAt_relabel (cursor : Cursor) (token : Token) (fault : ParseFault) :
    (cursor.relabel r).complainAt (r.label token) fault =
      (cursor.complainAt token fault).relabel r := by
  simp [Cursor.complainAt, Cursor.relabel, ParseComplaint.relabel]

namespace Syntax

open Rule

variable {r} {α β γ δ : Type}

def relabelReply (r : Relabelling) (g : α → β) : Reply α → Reply β
  | .ok value cursor => .ok (g value) (cursor.relabel r)
  | .failed cursor => .failed (cursor.relabel r)
  | .tooDeep cursor => .tooDeep (cursor.relabel r)

/-- The second rule does on relabelled tokens what the first does on the tokens. -/
def Follows (r : Relabelling) (g : α → β) (rule : Rule α) (rule' : Rule β) : Prop :=
  ∀ cursor : Cursor, rule' (cursor.relabel r) = relabelReply r g (rule cursor)

namespace Follows

variable {g : α → β} {h : γ → δ} {rule : Rule α} {rule' : Rule β} {kind : Kind}
  {fault : ParseFault}

theorem done {value : α} {value' : β} (hvalue : value' = g value) :
    Follows r g (pure value) (pure value') := by
  intro cursor
  rw [hvalue]
  rfl

theorem bind {next : α → Rule γ} {next' : β → Rule δ} (hrule : Follows r g rule rule')
    (hnext : ∀ value, Follows r h (next value) (next' (g value))) :
    Follows r h (rule >>= next) (rule' >>= next') := by
  intro cursor
  rw [bind_apply, bind_apply, hrule cursor]
  cases rule cursor with
  | ok value after => exact hnext value after
  | failed after => rfl
  | tooDeep after => rfl

theorem map {f : α → γ} {f' : β → δ} (hrule : Follows r g rule rule')
    (hf : ∀ value, f' (g value) = h (f value)) : Follows r h (f <$> rule) (f' <$> rule') := by
  rw [map_eq_bind, map_eq_bind]
  exact bind hrule fun value => done (hf value)

theorem deep : Follows r g tooDeep tooDeep := fun _ => rfl

theorem fails : Follows r g (fail fault) (fail fault) := by
  intro cursor
  rw [fail, fail, Cursor.peek_relabel, Cursor.complainAt_relabel]
  rfl

/-! ## Single tokens -/

/-- What is picked depends on the kind only; the relabelled token comes along with it. -/
theorem pick {pick : Kind → Option α} {next : Option (α × Token) → Rule γ}
    {next' : Option (α × Token) → Rule δ}
    (hsome : ∀ choice token, pick token.kind = some choice →
      Follows r h (next (some (choice, token))) (next' (some (choice, r.label token))))
    (hnone : Follows r h (next none) (next' none)) :
    Follows r h (takePicked pick >>= next) (takePicked pick >>= next') := by
  rintro ⟨rest, stop, complaints⟩
  cases rest with
  | nil => exact hnone ⟨[], stop, complaints⟩
  | cons token rest =>
    cases hpick : pick token.kind with
    | none =>
      rw [bind_ok (takePicked_none (by simp [hpick]) stop complaints)]
      rw [Cursor.relabel, bind_ok (takePicked_none (by simp [hpick]) _ _)]
      exact hnone ⟨token :: rest, stop, complaints⟩
    | some choice =>
      have hpick' : pick (r.label token).kind = some choice := by rw [r.kind_label, hpick]
      rw [bind_ok (takePicked_some hpick rest stop complaints)]
      rw [Cursor.relabel, List.map_cons, bind_ok (takePicked_some hpick' _ _ _)]
      exact hsome choice token hpick ⟨rest, stop, complaints⟩

theorem take {next : Option Token → Rule γ} {next' : Option Token → Rule δ}
    (hsome : ∀ token, Follows r h (next (some token)) (next' (some (r.label token))))
    (hnone : Follows r h (next none) (next' none)) :
    Follows r h (take? kind >>= next) (take? kind >>= next') := by
  rw [take?_bind, take?_bind]
  exact pick (fun _ token _ => hsome token) hnone

theorem token : Follows r r.label (Rule.expect kind fault) (Rule.expect kind fault) := by
  rw [expect_eq_bind]
  exact take (fun token => done rfl) fails

theorem expect {next : Token → Rule γ} {next' : Token → Rule δ}
    (hnext : ∀ token, Follows r h (next token) (next' (r.label token))) :
    Follows r h (Rule.expect kind fault >>= next) (Rule.expect kind fault >>= next') :=
  bind token hnext

theorem sees {next : Bool → Rule γ} {next' : Bool → Rule δ}
    (hnext : ∀ seen, Follows r h (next seen) (next' seen)) :
    Follows r h (Rule.sees kind >>= next) (Rule.sees kind >>= next') := by
  have hsees : Follows r id (Rule.sees kind) (Rule.sees kind) := by
    rintro ⟨rest, stop, complaints⟩
    cases rest <;> simp [Rule.sees, Cursor.relabel, relabelReply]
  exact bind hsees hnext

theorem atEnd {next : Bool → Rule γ} {next' : Bool → Rule δ}
    (hnext : ∀ ended, Follows r h (next ended) (next' ended)) :
    Follows r h (Rule.atEnd >>= next) (Rule.atEnd >>= next') := by
  have hend : Follows r id Rule.atEnd Rule.atEnd := by
    rintro ⟨rest, stop, complaints⟩
    cases rest <;> rfl
  exact bind hend hnext

/-! ## Complaints and choices -/

theorem complainAt (token : Token) :
    Follows r id (Rule.complainAt token fault) (Rule.complainAt (r.label token) fault) := by
  intro cursor
  rw [Rule.complainAt, Rule.complainAt, Cursor.complainAt_relabel]
  rfl

theorem complainIf {reason reason' : Bool} (hreason : reason' = reason) :
    Follows r id (Rule.complainIf reason fault) (Rule.complainIf reason' fault) := by
  subst hreason
  cases reason' with
  | false => exact done rfl
  | true =>
    intro cursor
    change Reply.ok () _ = Reply.ok () _
    rw [Cursor.peek_relabel, Cursor.complainAt_relabel]

theorem behind (hrule : Follows r g rule rule') :
    Follows r (Option.map g) (Rule.behind kind rule) (Rule.behind kind rule') := by
  apply take
  · intro token
    exact map hrule fun value => rfl
  · exact done rfl

theorem orAbsent {absent : α} {absent' : β} (habsent : absent' = g absent)
    (hrule : Follows r g rule rule') :
    Follows r g (Rule.orAbsent kind absent rule) (Rule.orAbsent kind absent' rule') := by
  apply sees
  intro seen
  cases seen with
  | true => exact done habsent
  | false => exact hrule

theorem skipAfter (last : Token) (rest : List Token) :
    Grammar.skipAfter (r.label last) (rest.map r.label) =
      (Grammar.skipAfter last rest).map r.label := by
  induction rest generalizing last with
  | nil => rfl
  | cons token rest ih =>
    simp only [List.map_cons, Grammar.skipAfter, r.kind_label]
    split
    · rfl
    · exact ih token

theorem recover {rule rule' : Rule Stmt} (hrule : Follows r (Stmt.relabel r) rule rule') :
    Follows r (Option.map (Stmt.relabel r)) (Grammar.recover rule) (Grammar.recover rule') := by
  intro cursor
  rw [Grammar.recover, Grammar.recover, hrule cursor]
  cases rule cursor with
  | ok stmt after => rfl
  | tooDeep after => rfl
  | failed after =>
    obtain ⟨rest, stop, complaints⟩ := after
    cases rest with
    | nil => rfl
    | cons token rest =>
      simp only [relabelReply, Cursor.relabel, Grammar.skip, List.map_cons, skipAfter]
      rfl

end Follows

/-! ## The grammar -/

structure Heeds (r : Relabelling) (rules : Rules) : Prop where
  expression : Follows r (Expr.relabel r) rules.expression rules.expression
  unary : Follows r (Expr.relabel r) rules.unary rules.unary
  statement : Follows r (Stmt.relabel r) rules.statement rules.statement
  declaration : Follows r (Option.map (Stmt.relabel r)) rules.declaration rules.declaration

variable {bound : Nat} {inner : Rules}

theorem follows_primary (h : Heeds r inner) :
    Follows r (Expr.relabel r) (Grammar.primary inner) (Grammar.primary inner) := by
  apply Follows.pick
  · intro value token _
    exact .done (by rw [Expr.relabel])
  apply Follows.take
  · intro keyword
    exact .done (by rw [Expr.relabel])
  apply Follows.take
  · intro name
    exact .done (by rw [Expr.relabel])
  apply Follows.take
  · intro keyword
    apply Follows.expect
    intro dot
    apply Follows.expect
    intro method
    exact .done (by rw [Expr.relabel])
  apply Follows.take
  · intro left
    apply Follows.bind h.expression
    intro expr
    apply Follows.expect
    intro right
    exact .done (by rw [Expr.relabel])
  · exact .fails

theorem follows_arguments (h : Heeds r inner) : ∀ steps (args : Array Expr),
    Follows r (Array.map (Expr.relabel r)) (Grammar.arguments inner steps args)
      (Grammar.arguments inner steps (args.map (Expr.relabel r)))
  | 0, args => .done rfl
  | steps + 1, args => by
    apply Follows.bind (.complainIf (by rw [Array.size_map]))
    intro
    apply Follows.bind h.expression
    intro arg
    rw [← Array.map_push]
    apply Follows.take
    · intro comma
      exact follows_arguments h steps (args.push arg)
    · exact .done rfl

theorem follows_finishCall (h : Heeds r inner) (callee : Expr) :
    Follows r (Expr.relabel r) (Grammar.finishCall bound inner callee)
      (Grammar.finishCall bound inner (callee.relabel r)) := by
  have harguments := follows_arguments h bound #[]
  rw [Array.map_empty] at harguments
  apply Follows.bind (.orAbsent Array.map_empty.symm harguments)
  intro args
  apply Follows.expect
  intro paren
  exact .done (by rw [Expr.relabel, relabelArgs_eq_map, Array.toList_map])

theorem follows_accesses (h : Heeds r inner) : ∀ steps (expr : Expr),
    Follows r (Expr.relabel r) (Grammar.accesses bound inner steps expr)
      (Grammar.accesses bound inner steps (expr.relabel r))
  | 0, expr => .done rfl
  | steps + 1, expr => by
    apply Follows.take
    · intro left
      apply Follows.bind (follows_finishCall h expr)
      intro next
      exact follows_accesses h steps next
    apply Follows.take
    · intro dot
      apply Follows.expect
      intro name
      have hget := follows_accesses h steps (.get expr name)
      rwa [Expr.relabel] at hget
    · exact .done rfl

theorem follows_unary (h : Heeds r inner) :
    Follows r (Expr.relabel r) (Grammar.unary bound inner) (Grammar.unary bound inner) := by
  apply Follows.pick
  · intro op mark _
    apply Follows.bind h.unary
    intro right
    exact .done (by rw [Expr.relabel])
  · apply Follows.bind (follows_primary h)
    intro first
    exact follows_accesses h bound first

def Joining (r : Relabelling) (join? : Kind → Option (Token → Expr → Expr → Expr)) : Prop :=
  ∀ kind join, join? kind = some join → ∀ mark left right,
    join (r.label mark) (left.relabel r) (right.relabel r) = (join mark left right).relabel r

theorem joining_binary (op? : Kind → Option BinaryOp) : Joining r (Grammar.binary op?) := by
  intro kind join hjoin mark left right
  obtain ⟨op, -, rfl⟩ := Option.map_eq_some_iff.1 hjoin
  rw [Expr.relabel]

theorem joining_logical (op : LogicalOp) : Joining r (Grammar.logical op) := by
  intro kind join hjoin mark left right
  rw [Grammar.logical] at hjoin
  split at hjoin <;> cases hjoin
  rw [Expr.relabel]

theorem follows_operands {operand : Rule Expr}
    {join? : Kind → Option (Token → Expr → Expr → Expr)} (hjoin : Joining r join?)
    (hoperand : Follows r (Expr.relabel r) operand operand) : ∀ steps (left : Expr),
    Follows r (Expr.relabel r) (Grammar.operands operand join? steps left)
      (Grammar.operands operand join? steps (left.relabel r))
  | 0, left => .done rfl
  | steps + 1, left => by
    apply Follows.pick
    · intro join mark hpick
      apply Follows.bind hoperand
      intro right
      rw [hjoin _ _ hpick]
      exact follows_operands hjoin hoperand steps (join mark left right)
    · exact .done rfl

theorem follows_leftGrouped {operand : Rule Expr}
    {join? : Kind → Option (Token → Expr → Expr → Expr)} (hjoin : Joining r join?)
    (hoperand : Follows r (Expr.relabel r) operand operand) :
    Follows r (Expr.relabel r) (Grammar.leftGrouped bound operand join?)
      (Grammar.leftGrouped bound operand join?) := by
  apply Follows.bind hoperand
  intro first
  exact follows_operands hjoin hoperand bound first

theorem follows_disjunction (h : Heeds r inner) :
    Follows r (Expr.relabel r) (Grammar.disjunction bound inner)
      (Grammar.disjunction bound inner) :=
  follows_leftGrouped (joining_logical .or) <| follows_leftGrouped (joining_logical .and) <|
    follows_leftGrouped (joining_binary _) <| follows_leftGrouped (joining_binary _) <|
    follows_leftGrouped (joining_binary _) <| follows_leftGrouped (joining_binary _) <|
    follows_unary h

theorem follows_expression (h : Heeds r inner) :
    Follows r (Expr.relabel r) (Grammar.expression bound inner)
      (Grammar.expression bound inner) := by
  apply Follows.bind (follows_disjunction h)
  intro target
  apply Follows.take
  · intro mark
    apply Follows.bind h.expression
    intro value
    cases target
    case ref name => exact .done (by rw [Expr.relabel])
    case get object name => exact .done (by rw [Expr.relabel])
    -- no other expression can be assigned to
    all_goals exact .bind (.complainAt mark) fun _ => .done rfl
  · exact .done rfl

theorem follows_declarations (h : Heeds r inner) : ∀ steps (body : Array Stmt),
    Follows r (Array.map (Stmt.relabel r)) (Grammar.declarations inner steps body)
      (Grammar.declarations inner steps (body.map (Stmt.relabel r)))
  | 0, body => .done rfl
  | steps + 1, body => by
    apply Follows.sees
    intro seen
    apply Follows.atEnd
    intro ended
    cases seen || ended with
    | true => exact .done rfl
    | false =>
      apply Follows.bind h.declaration
      intro found
      cases found with
      | none => exact follows_declarations h steps body
      | some stmt =>
        have hmore := follows_declarations h steps (body.push stmt)
        rwa [Array.map_push] at hmore

theorem follows_block (h : Heeds r inner) :
    Follows r (relabelAll r) (Grammar.block bound inner) (Grammar.block bound inner) := by
  have hbody := follows_declarations h bound #[]
  rw [Array.map_empty] at hbody
  apply Follows.bind hbody
  intro body
  apply Follows.expect
  intro brace
  exact .done (by rw [relabelAll_eq_map, Array.toList_map])

section

variable {expression : Rule Expr} {branch : Rule Stmt}

theorem follows_expressionStatement (h : Follows r (Expr.relabel r) expression expression) :
    Follows r (Stmt.relabel r) (Grammar.expressionStatement expression)
      (Grammar.expressionStatement expression) := by
  apply Follows.bind h
  intro value
  apply Follows.expect
  intro semicolon
  exact .done (by rw [Stmt.relabel])

theorem follows_varDeclaration (h : Follows r (Expr.relabel r) expression expression) :
    Follows r (Stmt.relabel r) (Grammar.varDeclaration expression)
      (Grammar.varDeclaration expression) := by
  apply Follows.expect
  intro name
  apply Follows.bind h.behind
  intro init
  apply Follows.expect
  intro semicolon
  exact .done (by rw [Stmt.relabel])

theorem relabel_forLoop (init : Option Stmt) (condition increment : Option Expr) (body : Stmt) :
    Grammar.forLoop (init.map (Stmt.relabel r)) (condition.map (Expr.relabel r))
        (increment.map (Expr.relabel r)) (body.relabel r) =
      (Grammar.forLoop init condition increment body).relabel r := by
  cases init <;> cases condition <;> cases increment <;>
    simp [Grammar.forLoop]

theorem follows_expressionUnless {kind : Kind}
    (h : Follows r (Expr.relabel r) expression expression) :
    Follows r (Option.map (Expr.relabel r)) (Grammar.expressionUnless kind expression)
      (Grammar.expressionUnless kind expression) :=
  .orAbsent rfl (h.map fun _ => rfl)

theorem follows_forInitializer (h : Follows r (Expr.relabel r) expression expression) :
    Follows r (Option.map (Stmt.relabel r)) (Grammar.forInitializer expression)
      (Grammar.forInitializer expression) := by
  apply Follows.take
  · intro semicolon
    exact .done rfl
  apply Follows.take
  · intro keyword
    exact (follows_varDeclaration h).map fun _ => rfl
  · exact (follows_expressionStatement h).map fun _ => rfl

theorem follows_forStatement (h : Follows r (Expr.relabel r) expression expression)
    (hbranch : Follows r (Stmt.relabel r) branch branch) :
    Follows r (Stmt.relabel r) (Grammar.forStatement expression branch)
      (Grammar.forStatement expression branch) := by
  apply Follows.expect
  intro left
  apply Follows.bind (follows_forInitializer h)
  intro init
  apply Follows.bind (follows_expressionUnless h)
  intro condition
  apply Follows.expect
  intro semicolon
  apply Follows.bind (follows_expressionUnless h)
  intro increment
  apply Follows.expect
  intro right
  apply Follows.bind hbranch
  intro body
  exact .done (relabel_forLoop init condition increment body)

theorem follows_ifStatement (h : Follows r (Expr.relabel r) expression expression)
    (hbranch : Follows r (Stmt.relabel r) branch branch) :
    Follows r (Stmt.relabel r) (Grammar.ifStatement expression branch)
      (Grammar.ifStatement expression branch) := by
  apply Follows.expect
  intro left
  apply Follows.bind h
  intro condition
  apply Follows.expect
  intro right
  apply Follows.bind hbranch
  intro yes
  apply Follows.bind hbranch.behind
  intro no
  exact .done (by rw [Stmt.relabel, relabelElse_eq_map])

theorem follows_whileStatement (h : Follows r (Expr.relabel r) expression expression)
    (hbranch : Follows r (Stmt.relabel r) branch branch) :
    Follows r (Stmt.relabel r) (Grammar.whileStatement expression branch)
      (Grammar.whileStatement expression branch) := by
  apply Follows.expect
  intro left
  apply Follows.bind h
  intro condition
  apply Follows.expect
  intro right
  apply Follows.bind hbranch
  intro body
  exact .done (by rw [Stmt.relabel])

theorem follows_printStatement (h : Follows r (Expr.relabel r) expression expression) :
    Follows r (Stmt.relabel r) (Grammar.printStatement expression)
      (Grammar.printStatement expression) := by
  apply Follows.bind h
  intro value
  apply Follows.expect
  intro semicolon
  exact .done (by rw [Stmt.relabel])

theorem follows_returnStatement (h : Follows r (Expr.relabel r) expression expression)
    (keyword : Token) : Follows r (Stmt.relabel r) (Grammar.returnStatement keyword expression)
      (Grammar.returnStatement (r.label keyword) expression) := by
  apply Follows.bind (follows_expressionUnless h)
  intro value
  apply Follows.expect
  intro semicolon
  exact .done (by rw [Stmt.relabel])

end

theorem follows_statement (h : Heeds r inner) :
    Follows r (Stmt.relabel r) (Grammar.statement bound inner) (Grammar.statement bound inner) := by
  have hexpression : Follows r (Expr.relabel r) (Grammar.expression bound inner)
      (Grammar.expression bound inner) := follows_expression h
  apply Follows.take
  · intro keyword
    exact follows_forStatement hexpression h.statement
  apply Follows.take
  · intro keyword
    exact follows_ifStatement hexpression h.statement
  apply Follows.take
  · intro keyword
    exact follows_printStatement hexpression
  apply Follows.take
  · intro keyword
    exact follows_returnStatement hexpression keyword
  apply Follows.take
  · intro keyword
    exact follows_whileStatement hexpression h.statement
  apply Follows.take
  · intro brace
    exact (follows_block h).map fun body => by rw [Stmt.relabel]
  · exact follows_expressionStatement hexpression

theorem follows_parameters : ∀ steps (params : Array Token),
    Follows r (Array.map r.label) (Grammar.parameters steps params)
      (Grammar.parameters steps (params.map r.label))
  | 0, params => .done rfl
  | steps + 1, params => by
    apply Follows.bind (.complainIf (by rw [Array.size_map]))
    intro
    apply Follows.expect
    intro param
    rw [← Array.map_push]
    apply Follows.take
    · intro comma
      exact follows_parameters steps (params.push param)
    · exact .done rfl

theorem follows_function (h : Heeds r inner) (sort : FunctionSort) :
    Follows r (relabelFunction r) (Grammar.function bound inner sort)
      (Grammar.function bound inner sort) := by
  have hparams := follows_parameters (r := r) bound #[]
  rw [Array.map_empty] at hparams
  apply Follows.expect
  intro name
  apply Follows.expect
  intro left
  apply Follows.bind (.orAbsent Array.map_empty.symm hparams)
  intro params
  apply Follows.expect
  intro right
  apply Follows.expect
  intro brace
  apply Follows.bind (follows_block h)
  intro body
  exact .done (by rw [relabelFunction, Array.toList_map])

theorem follows_methods (h : Heeds r inner) : ∀ steps (found : Array FunctionDecl),
    Follows r (Array.map (relabelFunction r)) (Grammar.methods bound inner steps found)
      (Grammar.methods bound inner steps (found.map (relabelFunction r)))
  | 0, found => .done rfl
  | steps + 1, found => by
    apply Follows.sees
    intro seen
    apply Follows.atEnd
    intro ended
    cases seen || ended with
    | true => exact .done rfl
    | false =>
      apply Follows.bind (follows_function h .method)
      intro method
      rw [← Array.map_push]
      exact follows_methods h steps (found.push method)

theorem follows_classDeclaration (h : Heeds r inner) :
    Follows r (Stmt.relabel r) (Grammar.classDeclaration bound inner)
      (Grammar.classDeclaration bound inner) := by
  have hmethods : Follows r (Array.map (relabelFunction r)) (Grammar.methods bound inner bound #[])
      (Grammar.methods bound inner bound (#[].map (relabelFunction r))) :=
    follows_methods h bound #[]
  rw [Array.map_empty] at hmethods
  apply Follows.expect
  intro name
  apply Follows.bind Follows.token.behind
  intro superclass
  apply Follows.expect
  intro left
  apply Follows.bind hmethods
  intro methods
  apply Follows.expect
  intro right
  exact .done (by rw [Stmt.relabel, relabelMethods_eq_map, Array.toList_map])

theorem follows_declaration (h : Heeds r inner) :
    Follows r (Option.map (Stmt.relabel r)) (Grammar.declaration bound inner)
      (Grammar.declaration bound inner) := by
  apply Follows.recover
  apply Follows.take
  · intro keyword
    exact follows_classDeclaration h
  apply Follows.take
  · intro keyword
    exact (follows_function h .function).map fun declaration => by rw [Stmt.relabel]
  apply Follows.take
  · intro keyword
    exact follows_varDeclaration (follows_expression h)
  · exact follows_statement h

theorem heeds_nested (bound levels : Nat) : Heeds r (Rules.nested bound levels) := by
  induction levels with
  | zero => exact ⟨.deep, .deep, .deep, .deep⟩
  | succ levels ih =>
    exact ⟨follows_expression ih, follows_unary ih, follows_statement ih, follows_declaration ih⟩

end Syntax

open Syntax

/-! ## Programs -/

def Parsed.relabel (parsed : Parsed (List Stmt)) : Parsed (List Stmt) where
  tree := relabelAll r parsed.tree
  complaints := parsed.complaints.map (ParseComplaint.relabel r)

theorem programFrom_relabel {rules : Rules} (h : Heeds r rules) (bound : Nat)
    (body : Array Stmt) (cursor : Cursor) :
    programFrom rules bound (body.map (Stmt.relabel r)) (cursor.relabel r) =
      (programFrom rules bound body cursor).relabel r := by
  have hbody (body : Array Stmt) :
      (body.map (Stmt.relabel r)).toList = relabelAll r body.toList := by
    rw [relabelAll_eq_map, Array.toList_map]
  induction bound generalizing body cursor with
  | zero =>
    rw [programFrom, programFrom, hbody]
    rfl
  | succ bound ih =>
    rw [programFrom, programFrom, h.declaration cursor, hbody]
    have hempty : (cursor.relabel r).rest.isEmpty = cursor.rest.isEmpty := by
      simp [Cursor.relabel]
    rw [hempty]
    split
    · rfl
    cases rules.declaration cursor with
    | failed after => rfl
    | tooDeep after =>
      simp only [relabelReply, Cursor.peek_relabel, Cursor.complainAt_relabel]
      rfl
    | ok found after =>
      cases found with
      | none => exact ih body after
      | some stmt =>
        rw [← ih (body.push stmt) after, Array.map_push]
        rfl

theorem parseProgram_relabel (tokens : List Token) (stop : Token) (levels : Nat) :
    parseProgram (tokens.map r.label) (r.label stop) levels =
      (parseProgram tokens stop levels).relabel r := by
  have h := programFrom_relabel r (heeds_nested tokens.length levels) tokens.length #[]
    ⟨tokens, stop, #[]⟩
  rw [parseProgram, parseProgram, List.length_map, ← h, Array.map_empty]
  simp only [Cursor.relabel, Array.map_empty]

end Moth
