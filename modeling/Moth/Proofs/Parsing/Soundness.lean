import Moth.Proofs.Parsing.First
import Moth.Proofs.Parsing.Meets
/-!
# What is read quietly is derived

Every rule of the parser that gives a tree without a complaint has taken tokens from which
the grammar derives that tree.  The rules are built level by level of nesting, and so is
the proof: `Sound` says it of the rules at one level.
-/

namespace Moth.Syntax

open Rule

/-- A statement that was read in front of `rest`.  Behind an `if` that is still open no
`else` follows: the rule would have taken it. -/
def ReadStatement (ts : List Token) (stmt : Stmt) (rest : List Token) : Prop :=
  ∃ opens, Derives (.statement opens) ts stmt ∧
    (opens = true → ahead rest ≠ some (.keyword .else))

structure Sound (fits : Nat) (rules : Rules) : Prop where
  expression : Meets fits rules.expression fun ts expr _ =>
    Derives (.phrase .assignment) ts expr
  unary : Meets fits rules.unary fun ts expr _ => Derives (.phrase .unary) ts expr
  statement : Meets fits rules.statement ReadStatement
  declaration : Meets fits rules.declaration fun ts found _ =>
    ∃ stmt, found = some stmt ∧ Derives .declaration ts stmt

theorem sound_exhausted (fits : Nat) : Sound fits Rules.exhausted :=
  ⟨.deep, .deep, .deep, .deep⟩

variable {bound : Nat} {inner : Rules} {ts : List Token} {expr : Expr} {level : Level}

/-! ## Expressions -/

theorem meets_primary (h : Sound (bound + 1) inner) :
    Meets (bound + 1) (Grammar.primary inner) fun ts expr _ =>
      Derives (.phrase .primary) ts expr := by
  apply Meets.pick
  · intro value token hvalue
    exact .done fun _ => .literal (literal?_eq_some_iff.1 hvalue)
  apply Meets.take
  · intro keyword hkeyword
    exact .done fun _ => .this hkeyword
  apply Meets.take
  · intro name hname
    exact .done fun _ _ => .ref hname
  apply Meets.take
  · intro keyword hkeyword
    apply Meets.expect
    intro dot hdot
    apply Meets.expect
    intro method hmethod
    exact .done fun _ _ _ => .super hkeyword hdot hmethod
  apply Meets.take
  · intro left hleft
    apply Meets.bind h.expression
    intro expr
    apply Meets.expect
    intro right hright
    exact .done fun _ ts hexpr _ _ _ => .grouping hleft hexpr hright
  · exact .fails

theorem meets_arguments (h : Sound (bound + 1) inner) :
    ∀ steps (args : Array Expr), steps ≤ bound →
      Meets steps (Grammar.arguments inner steps args) fun ts found _ =>
        ∃ more, found = args ++ more.toArray ∧ Derives .arguments ts more ∧
          found.size ≤ maxArgs
  | 0, args, _ => by
    -- no cursor has fewer than no tokens ahead
    intro cursor
    exact ⟨Nat.le_refl _, fun _ hfits => absurd hfits (Nat.not_lt_zero _)⟩
  | steps + 1, args, hsteps => by
    apply Meets.complainIf
    apply Meets.bind (h.expression.fewer (by omega))
    intro arg
    apply Meets.takePaid (Nat.le_refl _)
    · intro comma hcomma
      refine (meets_arguments h steps (args.push arg) (by omega)).imp ?_
      rintro us found rest ⟨more, rfl, hmore, hsize⟩ ts harg -
      exact ⟨arg :: more, by simp, .moreArguments harg hcomma hmore, hsize⟩
    · refine .done fun rest _ ts harg hreason => ⟨[arg], by simp, ?_, ?_⟩
      · simpa using Derives.argument harg
      · simp only [decide_eq_false_iff_not] at hreason
        simp only [Array.size_push]
        omega

theorem meets_finishCall (h : Sound (bound + 1) inner) (callee : Expr) :
    Meets bound (Grammar.finishCall bound inner callee) fun us expr _ =>
      ∀ ts (left : Token), Derives (.phrase .call) ts callee →
        left.kind = .symbol .leftParen → Derives (.phrase .call) (ts ++ left :: us) expr := by
  apply Meets.bind (meets_arguments h bound #[] (Nat.le_refl _)).orAbsent
  intro args
  apply Meets.expect
  intro right hright
  refine .done fun rest us hargs ts left hcallee hleft => .call hcallee hleft ?_ hright
  rcases hargs with ⟨rfl, rfl⟩ | ⟨more, rfl, hmore, hsize⟩
  · exact .noArguments
  · simpa using .someArguments hmore (by simpa using hsize)

theorem meets_accesses (h : Sound (bound + 1) inner) : ∀ steps (first : Expr),
    Meets (bound + 1) (Grammar.accesses bound inner steps first) fun us expr _ =>
      ∀ ts, Derives (.phrase .call) ts first → Derives (.phrase .call) (ts ++ us) expr
  | 0, first => .done fun _ ts hfirst => by simpa using hfirst
  | steps + 1, first => by
    apply Meets.takePaid (Nat.le_refl _)
    · intro left hleft
      apply Meets.bind (meets_finishCall h first)
      intro next
      refine ((meets_accesses h steps next).fewer (Nat.le_succ _)).imp ?_
      intro vs expr rest hexpr us hnext ts hfirst
      simpa using hexpr _ (hnext ts left hfirst hleft)
    apply Meets.take
    · intro dot hdot
      apply Meets.expect
      intro name hname
      refine (meets_accesses h steps (.get first name)).imp ?_
      intro us expr rest hexpr _ ts hfirst
      simpa using hexpr _ (.get hfirst hdot hname)
    · exact .done fun _ _ _ ts hfirst => by simpa using hfirst

theorem meets_call (h : Sound (bound + 1) inner) :
    Meets (bound + 1) (Grammar.call bound inner) fun ts expr _ =>
      Derives (.phrase .call) ts expr := by
  apply Meets.bind (meets_primary h)
  intro first
  exact (meets_accesses h bound first).imp fun us expr rest hexpr ts hfirst =>
    hexpr ts (.looser hfirst)

theorem meets_unary (h : Sound (bound + 1) inner) :
    Meets (bound + 1) (Grammar.unary bound inner) fun ts expr _ =>
      Derives (.phrase .unary) ts expr := by
  apply Meets.pick
  · intro op mark hop
    exact .last h.unary fun ts right rest hright => .unary (ofKind?_eq_some_iff.1 hop) hright
  · exact (meets_call h).imp fun ts expr rest hexpr => .looser hexpr

theorem meets_operands {operand : Rule Expr} (level : Level)
    (hoperand : Meets (bound + 1) operand fun ts expr _ =>
      Derives (.phrase level.tighter) ts expr) : ∀ steps (left : Expr),
    Meets (bound + 1) (Grammar.operands operand (join? level) steps left) fun us expr _ =>
      ∀ ts, Derives (.phrase level) ts left → Derives (.phrase level) (ts ++ us) expr
  | 0, left => .done fun _ ts hleft => by simpa using hleft
  | steps + 1, left => by
    apply Meets.pick
    · intro join mark hjoin
      apply Meets.bind hoperand
      intro right
      refine (meets_operands level hoperand steps (join mark left right)).imp ?_
      intro vs expr rest hexpr us hright ts hleft
      simpa using hexpr _ (.joined (join?_eq_some_iff.1 hjoin) hleft hright)
    · exact .done fun _ ts hleft => by simpa using hleft

theorem meets_leftGrouped {operand : Rule Expr} (level : Level)
    (hoperand : Meets (bound + 1) operand fun ts expr _ =>
      Derives (.phrase level.tighter) ts expr) :
    Meets (bound + 1) (Grammar.leftGrouped bound operand (join? level)) fun ts expr _ =>
      Derives (.phrase level) ts expr := by
  apply Meets.bind hoperand
  intro first
  exact (meets_operands level hoperand bound first).imp fun us expr rest hexpr ts hfirst =>
    hexpr ts (.looser hfirst)

theorem meets_disjunction (h : Sound (bound + 1) inner) :
    Meets (bound + 1) (Grammar.disjunction bound inner) fun ts expr _ =>
      Derives (.phrase .disjunction) ts expr :=
  meets_leftGrouped .disjunction <| meets_leftGrouped .conjunction <|
    meets_leftGrouped .equality <| meets_leftGrouped .comparison <|
    meets_leftGrouped .term <| meets_leftGrouped .factor <| meets_unary h

def IsTarget (ts : List Token) : Expr → Prop
  | .ref name => ts = [name] ∧ name.kind = .identifier
  | .get object name => ∃ us dot, ts = us ++ [dot, name] ∧
      Derives (.phrase .call) us object ∧ dot.kind = .symbol .dot ∧ name.kind = .identifier
  | _ => True

theorem Joins.isTarget {kind : Kind} {join : Token → Expr → Expr → Expr}
    (h : Joins level kind join) (ts : List Token) (mark : Token) (left right : Expr) :
    IsTarget ts (join mark left right) := by
  cases h <;> trivial

theorem Derives.isTarget {sort : Nonterminal} {tree : sort.Tree} (h : Derives sort ts tree) :
    match (motive := (sort : Nonterminal) → sort.Tree → Prop) sort, tree with
    | .phrase _, expr => IsTarget ts expr
    | _, _ => True := by
  induction h with
  | ref hname => exact ⟨rfl, hname⟩
  | get hobject hdot hname => exact ⟨_, _, rfl, hobject, hdot, hname⟩
  | joined hmark => exact hmark.isTarget _ _ _ _
  | looser _ ih => exact ih
  | _ => trivial

theorem meets_expression (h : Sound (bound + 1) inner) :
    Meets (bound + 1) (Grammar.expression bound inner) fun ts expr _ =>
      Derives (.phrase .assignment) ts expr := by
  apply Meets.bind (meets_disjunction h)
  intro target
  apply Meets.take
  · intro mark hmark
    apply Meets.bind h.expression
    intro value
    cases target with
    | ref name =>
      refine .done fun rest us hvalue ts htarget => ?_
      obtain ⟨rfl, hname⟩ := htarget.isTarget
      simpa using .assign hname hmark hvalue
    | get object name =>
      refine .done fun rest us hvalue ts htarget => ?_
      obtain ⟨vs, dot, rfl, hobject, hdot, hname⟩ := htarget.isTarget
      simpa using .set hobject hdot hname hmark hvalue
    | _ => exact .complain (.done fun _ => trivial)
  · refine .done fun rest _ ts htarget => ?_
    simpa using .looser htarget

/-! ## Statements -/

variable {expression : Rule Expr}

theorem meets_expressionStatement
    (h : Meets (bound + 1) expression fun ts expr _ => Derives (.phrase .assignment) ts expr) :
    Meets (bound + 1) (Grammar.expressionStatement expression) fun ts stmt _ =>
      Derives .expressionStatement ts stmt := by
  apply Meets.bind h
  intro value
  apply Meets.expect
  intro stop hstop
  exact .done fun _ ts hvalue => .expressionStatement hvalue hstop

theorem meets_varDeclaration
    (h : Meets (bound + 1) expression fun ts expr _ => Derives (.phrase .assignment) ts expr) :
    Meets (bound + 1) (Grammar.varDeclaration expression) fun ts stmt _ =>
      ∀ keyword : Token, keyword.kind = .keyword .var →
        Derives .varDeclaration (keyword :: ts) stmt := by
  apply Meets.expect
  intro name hname
  apply Meets.bind h.behind
  intro init
  apply Meets.expect
  intro stop hstop
  refine .done fun _ ts hinit keyword hvar => ?_
  rcases hinit with ⟨mark, us, value, hmark, rfl, rfl, hvalue⟩ | ⟨rfl, rfl, -⟩
  · exact .initialVariable hvar hname hmark hvalue hstop
  · exact .plainVariable hvar hname hstop

theorem meets_expressionUnless {kind : Kind}
    (h : Meets (bound + 1) expression fun ts expr _ => Derives (.phrase .assignment) ts expr) :
    Meets (bound + 1) (Grammar.expressionUnless kind expression) fun ts found _ =>
      Derives .optional ts found := by
  have hsome : Meets (bound + 1) (some <$> expression) fun ts found _ =>
      Derives .optional ts found :=
    h.map fun ts expr _ hexpr => .present hexpr
  refine hsome.orAbsent.imp ?_
  rintro ts found rest (⟨rfl, rfl⟩ | hfound)
  · exact .absent
  · exact hfound

theorem meets_forInitializer
    (h : Meets (bound + 1) expression fun ts expr _ => Derives (.phrase .assignment) ts expr) :
    Meets (bound + 1) (Grammar.forInitializer expression) fun ts init _ =>
      Derives .initializer ts init := by
  apply Meets.take
  · intro stop hstop
    exact .done fun _ => .noInitializer hstop
  apply Meets.take
  · intro keyword hvar
    exact (meets_varDeclaration h).map fun ts init _ hinit _ =>
      .variableInitializer (hinit keyword hvar)
  · exact (meets_expressionStatement h).map fun ts init _ hinit _ _ =>
      .expressionInitializer hinit

theorem meets_declarations (h : Sound (bound + 1) inner) : ∀ steps (found : Array Stmt),
    Meets (bound + 1) (Grammar.declarations inner steps found) fun ts body _ =>
      ∃ more, body = found ++ more.toArray ∧ Derives .declarations ts more
  | 0, found => .done fun _ => ⟨[], by simp, .noDeclarations⟩
  | steps + 1, found => by
    apply Meets.sees
    intro seen
    apply Meets.atEnd
    intro ended
    cases seen || ended with
    | true => exact .done fun _ _ _ => ⟨[], by simp, .noDeclarations⟩
    | false =>
      apply Meets.bind h.declaration
      rintro (_ | first)
      · refine (meets_declarations h steps found).imp ?_
        rintro us body rest - ts ⟨stmt, hstmt, -⟩
        cases hstmt
      · refine (meets_declarations h steps (found.push first)).imp ?_
        rintro us body rest ⟨more, rfl, hmore⟩ ts ⟨stmt, hstmt, hfirst⟩ - -
        cases hstmt
        exact ⟨first :: more, by simp, .moreDeclarations hfirst hmore⟩

theorem meets_block (h : Sound (bound + 1) inner) :
    Meets (bound + 1) (Grammar.block bound inner) fun ts body _ =>
      ∃ us close, ts = us ++ [close] ∧ Derives .declarations us body ∧
        close.kind = .symbol .rightBrace := by
  apply Meets.bind (meets_declarations h bound #[])
  intro body
  apply Meets.expect
  intro close hclose
  refine .done fun rest ts hbody => ?_
  obtain ⟨more, rfl, hmore⟩ := hbody
  exact ⟨ts, close, rfl, by simpa using hmore, hclose⟩

theorem meets_forStatement (h : Sound (bound + 1) inner) :
    Meets (bound + 1) (Grammar.forStatement (Grammar.expression bound inner) inner.statement)
      fun ts stmt rest => ∀ keyword : Token, keyword.kind = .keyword .for →
        ReadStatement (keyword :: ts) stmt rest := by
  have hexpression := meets_expression h
  apply Meets.expect
  intro left hleft
  apply Meets.bind (meets_forInitializer hexpression)
  intro init
  apply Meets.bind (meets_expressionUnless hexpression)
  intro condition
  apply Meets.expect
  intro middle hmiddle
  apply Meets.bind (meets_expressionUnless hexpression)
  intro increment
  apply Meets.expect
  intro right hright
  refine .last h.statement ?_
  rintro bs body rest ⟨opens, hbody, helse⟩ ns hincrement cs hcondition is hinit keyword hfor
  rw [forLoop_eq_loop]
  exact ⟨opens, .forLoop hfor hleft hinit hcondition hmiddle hincrement hright hbody, helse⟩

theorem meets_ifStatement (h : Sound (bound + 1) inner) :
    Meets (bound + 1) (Grammar.ifStatement (Grammar.expression bound inner) inner.statement)
      fun ts stmt rest => ∀ keyword : Token, keyword.kind = .keyword .if →
        ReadStatement (keyword :: ts) stmt rest := by
  apply Meets.expect
  intro left hleft
  apply Meets.bind (meets_expression h)
  intro condition
  apply Meets.expect
  intro right hright
  apply Meets.bind h.statement
  intro yes
  refine .last h.statement.behind ?_
  rintro vs no rest hno us ⟨opens, hyes, hopens⟩ ts hcondition keyword hif
  rcases hno with ⟨middle, ws, other, helse, rfl, rfl, closes, hother, hcloses⟩ | ⟨rfl, rfl, hnext⟩
  · -- the `else` stands behind the first branch, so that branch is not open
    obtain rfl : opens = false := by
      cases opens with
      | false => rfl
      | true => exact absurd (by simp [helse]) (hopens rfl)
    exact ⟨closes, .ifElse hif hleft hcondition hright hyes helse hother, hcloses⟩
  · rw [List.append_nil]
    exact ⟨true, .ifThen hif hleft hcondition hright hyes, fun _ => hnext⟩

theorem meets_whileStatement (h : Sound (bound + 1) inner) :
    Meets (bound + 1) (Grammar.whileStatement (Grammar.expression bound inner) inner.statement)
      fun ts stmt rest => ∀ keyword : Token, keyword.kind = .keyword .while →
        ReadStatement (keyword :: ts) stmt rest := by
  apply Meets.expect
  intro left hleft
  apply Meets.bind (meets_expression h)
  intro condition
  apply Meets.expect
  intro right hright
  refine .last h.statement ?_
  rintro us body rest ⟨opens, hbody, helse⟩ ts hcondition keyword hwhile
  exact ⟨opens, .whileLoop hwhile hleft hcondition hright hbody, helse⟩

theorem meets_printStatement (h : Sound (bound + 1) inner) :
    Meets (bound + 1) (Grammar.printStatement (Grammar.expression bound inner))
      fun ts stmt _ => ∀ keyword : Token, keyword.kind = .keyword .print →
        Derives (.statement false) (keyword :: ts) stmt := by
  apply Meets.bind (meets_expression h)
  intro value
  apply Meets.expect
  intro stop hstop
  exact .done fun _ ts hvalue keyword hprint => .print hprint hvalue hstop

theorem meets_returnStatement (h : Sound (bound + 1) inner) {keyword : Token}
    (hreturn : keyword.kind = .keyword .return) :
    Meets (bound + 1) (Grammar.returnStatement keyword (Grammar.expression bound inner))
      fun ts stmt _ => Derives (.statement false) (keyword :: ts) stmt := by
  apply Meets.bind (meets_expressionUnless (meets_expression h))
  intro value
  apply Meets.expect
  intro stop hstop
  exact .done fun _ ts hvalue => .returns hreturn hvalue hstop

theorem Derives.readStatement {stmt : Stmt} (h : Derives (.statement false) ts stmt)
    (rest : List Token) : ReadStatement ts stmt rest :=
  ⟨false, h, fun hfalse => absurd hfalse (by decide)⟩

theorem meets_statement (h : Sound (bound + 1) inner) :
    Meets (bound + 1) (Grammar.statement bound inner) ReadStatement := by
  apply Meets.take
  · intro keyword hfor
    exact (meets_forStatement h).imp fun ts stmt rest hstmt => hstmt keyword hfor
  apply Meets.take
  · intro keyword hif
    exact (meets_ifStatement h).imp fun ts stmt rest hstmt _ => hstmt keyword hif
  apply Meets.take
  · intro keyword hprint
    exact (meets_printStatement h).imp fun ts stmt rest hstmt _ _ =>
      (hstmt keyword hprint).readStatement rest
  apply Meets.take
  · intro keyword hreturn
    exact (meets_returnStatement h hreturn).imp fun ts stmt rest hstmt _ _ _ =>
      hstmt.readStatement rest
  apply Meets.take
  · intro keyword hwhile
    exact (meets_whileStatement h).imp fun ts stmt rest hstmt _ _ _ _ => hstmt keyword hwhile
  apply Meets.take
  · intro left hleft
    refine (meets_block h).map ?_
    rintro ts body rest ⟨us, close, rfl, hbody, hclose⟩ - - - - -
    exact (Derives.block hleft hbody hclose).readStatement rest
  · exact (meets_expressionStatement (meets_expression h)).imp
      fun ts stmt rest hstmt _ _ _ _ _ _ => (Derives.expression hstmt).readStatement rest

/-! ## Declarations -/

theorem meets_parameters : ∀ steps (params : Array Token),
    Meets steps (Grammar.parameters steps params) fun ts found _ =>
      ∃ more, found = params ++ more.toArray ∧ Derives .parameters ts more ∧
        found.size ≤ maxArgs
  | 0, params => fun _ =>
    ⟨Nat.le_refl _, fun _ hfits => absurd hfits (Nat.not_lt_zero _)⟩
  | steps + 1, params => by
    apply Meets.complainIf
    apply Meets.expect
    intro param hparam
    apply Meets.takePaid (Nat.le_refl _)
    · intro comma hcomma
      refine (meets_parameters steps (params.push param)).imp ?_
      rintro us found rest ⟨more, rfl, hmore, hsize⟩ -
      exact ⟨param :: more, by simp, .moreParameters hparam hcomma hmore, hsize⟩
    · refine .done fun rest _ hreason => ⟨[param], by simp, .parameter hparam, ?_⟩
      simp only [decide_eq_false_iff_not] at hreason
      simp only [Array.size_push]
      omega

theorem meets_function (h : Sound (bound + 1) inner) (sort : FunctionSort) :
    Meets (bound + 1) (Grammar.function bound inner sort) fun ts declaration _ =>
      Derives .function ts declaration := by
  apply Meets.expectPaid (Nat.le_refl _)
  intro name hname
  apply Meets.expect
  intro left hleft
  apply Meets.bind (meets_parameters bound #[]).orAbsent
  intro params
  apply Meets.expect
  intro right hright
  apply Meets.expect
  intro open_ hopen
  refine .last ((meets_block h).fewer (Nat.le_succ _)) ?_
  rintro us body rest ⟨vs, close, rfl, hbody, hclose⟩ ts hparams
  refine .function hname hleft ?_ hright hopen hbody hclose
  rcases hparams with ⟨rfl, rfl⟩ | ⟨more, rfl, hmore, hsize⟩
  · exact .noParameters
  · simpa using .someParameters hmore (by simpa using hsize)

theorem meets_methods (h : Sound (bound + 1) inner) : ∀ steps (found : Array FunctionDecl),
    Meets (bound + 1) (Grammar.methods bound inner steps found) fun ts methods _ =>
      ∃ more, methods = found ++ more.toArray ∧ Derives .methods ts more
  | 0, found => .done fun _ => ⟨[], by simp, .noMethods⟩
  | steps + 1, found => by
    apply Meets.sees
    intro seen
    apply Meets.atEnd
    intro ended
    cases seen || ended with
    | true => exact .done fun _ _ _ => ⟨[], by simp, .noMethods⟩
    | false =>
      apply Meets.bind (meets_function h .method)
      intro first
      refine (meets_methods h steps (found.push first)).imp ?_
      rintro us methods rest ⟨more, rfl, hmore⟩ ts hfirst - -
      exact ⟨first :: more, by simp, .moreMethods hfirst hmore⟩

theorem meets_classDeclaration (h : Sound (bound + 1) inner) :
    Meets (bound + 1) (Grammar.classDeclaration bound inner) fun ts stmt _ =>
      ∀ keyword : Token, keyword.kind = .keyword .class →
        Derives .declaration (keyword :: ts) stmt := by
  apply Meets.expect
  intro name hname
  apply Meets.bind Meets.token.behind
  intro superclass
  apply Meets.expect
  intro left hleft
  apply Meets.bind (meets_methods h bound #[])
  intro methods
  apply Meets.expect
  intro right hright
  refine .done fun rest us hmethods ts hsuperclass keyword hclass => ?_
  obtain ⟨more, rfl, hmore⟩ := hmethods
  rw [Array.empty_append]
  rcases hsuperclass with ⟨less, vs, other, hless, rfl, rfl, rfl, hother⟩ | ⟨rfl, rfl, -⟩
  · exact .subclassDef hclass hname hless hother hleft hmore hright
  · exact .classDef hclass hname hleft hmore hright

theorem meets_declaration (h : Sound (bound + 1) inner) :
    Meets (bound + 1) (Grammar.declaration bound inner) fun ts found _ =>
      ∃ stmt, found = some stmt ∧ Derives .declaration ts stmt := by
  apply Meets.recover
  apply Meets.take
  · intro keyword hclass
    exact (meets_classDeclaration h).imp fun ts stmt rest hstmt => hstmt keyword hclass
  apply Meets.take
  · intro keyword hfun
    exact (meets_function h .function).map fun ts declaration rest hfunction _ =>
      .functionDef hfun hfunction
  apply Meets.take
  · intro keyword hvar
    exact (meets_varDeclaration (meets_expression h)).imp fun ts stmt rest hstmt _ _ =>
      .variableDef (hstmt keyword hvar)
  · refine (meets_statement h).imp ?_
    rintro ts stmt rest ⟨opens, hstmt, -⟩ - - -
    exact .statement hstmt

/-- The rules at every level of nesting read only what the grammar derives. -/
theorem sound_nested (bound : Nat) : ∀ levels, Sound (bound + 1) (Rules.nested bound levels)
  | 0 => sound_exhausted _
  | levels + 1 =>
    have h := sound_nested bound levels
    ⟨meets_expression h, meets_unary h, meets_statement h, meets_declaration h⟩

end Moth.Syntax
