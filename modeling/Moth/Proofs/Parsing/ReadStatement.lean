import Moth.Proofs.Parsing.ReadExpression
/-!
# Derived statements are read

The rules for statements and declarations, and with them `Derives.complete`: whatever the
grammar derives, the parser reads as the tree of the derivation.
-/

namespace Moth.Syntax

open Rule

def Complete : (sort : Nonterminal) → List Token → sort.Tree → Prop
  | .phrase level, ts, expr => Completes level ts expr
  | .arguments, ts, args => CompletesArguments ts args
  | .argumentList, ts, args =>
    ∀ bound n rest callee (close : Token), ts.length ≤ bound →
      close.kind = .symbol .rightParen →
      Reads (Grammar.finishCall bound (Rules.nested bound n) callee) n (ts ++ [close])
        (.call callee close args) rest
  | .optional, ts, expr =>
    ∀ bound n rest symbol, ts.length ≤ bound → symbol ∈ [Symbol.semicolon, .rightParen] →
      ahead rest = some (.symbol symbol) →
      Reads (Grammar.expressionUnless (.symbol symbol)
        (Grammar.expression bound (Rules.nested bound n))) (n + 1) ts expr rest
  | .expressionStatement, ts, stmt =>
    ∀ bound n rest, ts.length ≤ bound →
      Reads (Grammar.expressionStatement (Grammar.expression bound (Rules.nested bound n)))
        (n + 1) ts stmt rest
  | .varDeclaration, ts, stmt =>
    ∃ keyword us, ts = keyword :: us ∧ keyword.kind = .keyword .var ∧
      ∀ bound n rest, us.length ≤ bound →
        Reads (Grammar.varDeclaration (Grammar.expression bound (Rules.nested bound n)))
          (n + 1) us stmt rest
  | .initializer, ts, init =>
    ∀ bound n rest, ts.length ≤ bound →
      Reads (Grammar.forInitializer (Grammar.expression bound (Rules.nested bound n)))
        (n + 1) ts init rest
  | .statement opens, ts, stmt =>
    ∀ bound n rest, ts.length ≤ bound →
      (opens = true → ahead rest ≠ some (.keyword .else)) →
      Reads (Grammar.statement bound (Rules.nested bound n)) (n + 1) ts stmt rest
  | .declaration, ts, stmt =>
    ∀ bound n rest, ts.length ≤ bound → ahead rest ≠ some (.keyword .else) →
      Reads (Grammar.declaration bound (Rules.nested bound n)) (n + 1) ts (some stmt) rest
  | .declarations, ts, body =>
    ∀ bound n steps rest (found : Array Stmt), ts.length ≤ bound → ts.length ≤ steps →
      ahead rest = some (.symbol .rightBrace) →
      Reads (Grammar.declarations (Rules.nested bound n) steps found) n ts
        (found ++ body.toArray) rest
  | .parameters, ts, params => CompletesParameters ts params
  | .parameterList, ts, params =>
    ∀ levels bound rest, ts.length ≤ bound → ahead rest = some (.symbol .rightParen) →
      Reads (orAbsent (.symbol .rightParen) #[] (Grammar.parameters bound #[])) levels ts
        params.toArray rest
  | .function, ts, declaration =>
    ∀ bound n sort rest, ts.length ≤ bound →
      Reads (Grammar.function bound (Rules.nested bound n) sort) (n + 1) ts declaration rest
  | .methods, ts, methods =>
    ∀ bound n steps rest (found : Array FunctionDecl), ts.length ≤ bound →
      ts.length ≤ steps → ahead rest = some (.symbol .rightBrace) →
      Reads (Grammar.methods bound (Rules.nested bound n) steps found) (n + 1) ts
        (found ++ methods.toArray) rest

variable {ts us vs : List Token} {expr : Expr} {stmt : Stmt}

/-! ## Parts of statements -/

theorem ahead_ne {kind other : Kind} (h : ahead ts = some kind) (hne : kind ≠ other)
    (us : List Token) : ahead (ts ++ us) ≠ some other := by
  rw [ahead_append h]
  simpa using hne

theorem complete_noArguments : Complete .argumentList [] [] := by
  intro bound n rest callee close _ hclose
  apply Reads.before (Reads.absent (by simp [hclose]))
  exact Reads.expect hclose (.done _ _ _)

theorem complete_someArguments {args : List Expr} (h : CompletesArguments ts args)
    (hbegins : Starts .arguments (ahead ts)) (hcount : args.length ≤ maxArgs) :
    Complete .argumentList ts args := by
  intro bound n rest callee close hbound hclose
  obtain ⟨kind, hkind, hbegins⟩ := hbegins
  have hread := h bound n bound (close :: rest) #[] hbound hbound (by simpa using hcount)
    (by simp [hclose])
  apply Reads.bind (Reads.present (ahead_ne hkind ?_ _) hread)
  · apply Reads.expect hclose
    simpa using Reads.done (Expr.call callee close args) n rest
  · rintro rfl
    exact absurd hbegins (by decide)

theorem complete_absent : Complete .optional [] none := by
  intro bound n rest symbol _ _ hnext
  exact Reads.absent hnext

theorem complete_present (h : Completes .assignment ts expr)
    (hbegins : Starts (.phrase .assignment) (ahead ts)) :
    Complete .optional ts (some expr) := by
  intro bound n rest symbol hbound hsymbol hnext
  obtain ⟨kind, hkind, hbegins⟩ := hbegins
  simp only [List.mem_cons, List.not_mem_nil, or_false] at hsymbol
  have hstops : Stops .assignment rest :=
    stops_closing symbol (by rcases hsymbol with rfl | rfl <;> simp) hnext
  apply Reads.present (ahead_ne hkind ?_ _) ((h.reads n hbound hstops).map some)
  rintro rfl
  rcases hsymbol with rfl | rfl <;> exact absurd hbegins (by decide)

theorem complete_expressionStatement {stop : Token} (h : Completes .assignment ts expr)
    (hstop : stop.kind = .symbol .semicolon) :
    Complete .expressionStatement (ts ++ [stop]) (.expression expr) := by
  intro bound n rest hbound
  rw [List.length_append] at hbound
  refine Reads.bind (h.reads n (by omega) (stops_closing .semicolon (by simp) (by simp [hstop]))) ?_
  exact Reads.expect hstop (.done _ _ _)

theorem complete_plainVariable {keyword name stop : Token}
    (hvar : keyword.kind = .keyword .var) (hname : name.kind = .identifier)
    (hstop : stop.kind = .symbol .semicolon) :
    Complete .varDeclaration [keyword, name, stop] (.var name none) := by
  refine ⟨keyword, _, rfl, hvar, fun bound n rest _ => ?_⟩
  apply Reads.expect hname
  apply Reads.before (Reads.behindNone (by simp [hstop]))
  exact Reads.expect hstop (.done _ _ _)

theorem complete_initialVariable {keyword name mark stop : Token}
    (hvar : keyword.kind = .keyword .var) (hname : name.kind = .identifier)
    (hmark : mark.kind = .symbol .equal) (h : Completes .assignment ts expr)
    (hstop : stop.kind = .symbol .semicolon) :
    Complete .varDeclaration (keyword :: name :: mark :: (ts ++ [stop]))
      (.var name (some expr)) := by
  refine ⟨keyword, _, rfl, hvar, fun bound n rest hbound => ?_⟩
  simp only [List.length_cons, List.length_append] at hbound
  have hinit : Reads (Grammar.expression bound (Rules.nested bound n)) (n + 1) ts expr
      ([stop] ++ rest) :=
    h.reads n (by omega) (stops_closing .semicolon (by simp) (by simp [hstop]))
  apply Reads.expect hname
  rw [← List.cons_append]
  apply Reads.bind ((Reads.behindSome hmark hinit).fewer (Nat.le_succ (n + 1)))
  exact Reads.expect hstop (.done _ _ _)

theorem complete_noInitializer {stop : Token} (hstop : stop.kind = .symbol .semicolon) :
    Complete .initializer [stop] none := by
  intro bound n rest _
  exact Reads.take hstop (.done _ _ _)

theorem complete_variableInitializer (h : Complete .varDeclaration ts stmt) :
    Complete .initializer ts (some stmt) := by
  obtain ⟨keyword, us, rfl, hvar, h⟩ := h
  intro bound n rest hbound
  rw [List.length_cons] at hbound
  apply Reads.skip (by simp [hvar])
  apply Reads.take hvar
  exact (h bound n rest (by omega)).map some

theorem complete_expressionInitializer (h : Complete .expressionStatement ts stmt)
    (hbegins : Starts .expressionStatement (ahead ts)) :
    Complete .initializer ts (some stmt) := by
  obtain ⟨kind, hkind, hbegins⟩ := hbegins
  intro bound n rest hbound
  iterate 2 apply Reads.skip (ahead_ne hkind (by rintro rfl; exact absurd hbegins (by decide)) _)
  exact (h bound n rest hbound).map some

/-! ## Statements -/

/-- A statement that begins with none of the keywords or braces is an expression. -/
theorem complete_expression (h : Complete .expressionStatement ts stmt)
    (hbegins : Starts .expressionStatement (ahead ts)) :
    Complete (.statement false) ts stmt := by
  obtain ⟨kind, hkind, hbegins⟩ := hbegins
  intro bound n rest hbound _
  iterate 6 apply Reads.skip (ahead_ne hkind (by rintro rfl; exact absurd hbegins (by decide)) _)
  exact h bound n rest hbound

theorem complete_print {keyword stop : Token} (hprint : keyword.kind = .keyword .print)
    (h : Completes .assignment ts expr) (hstop : stop.kind = .symbol .semicolon) :
    Complete (.statement false) (keyword :: (ts ++ [stop])) (.print expr) := by
  intro bound n rest hbound _
  simp only [List.length_cons, List.length_append] at hbound
  iterate 2 apply Reads.skip (by simp [hprint])
  apply Reads.take hprint
  refine Reads.bind (h.reads n (by omega) (stops_closing .semicolon (by simp) (by simp [hstop]))) ?_
  exact Reads.expect hstop (.done _ _ _)

theorem complete_returns {keyword stop : Token} {value : Option Expr}
    (hreturn : keyword.kind = .keyword .return) (h : Complete .optional ts value)
    (hstop : stop.kind = .symbol .semicolon) :
    Complete (.statement false) (keyword :: (ts ++ [stop])) (.returns keyword value) := by
  intro bound n rest hbound _
  simp only [List.length_cons, List.length_append] at hbound
  iterate 3 apply Reads.skip (by simp [hreturn])
  apply Reads.take hreturn
  apply Reads.bind (h bound n _ .semicolon (by omega) (by simp) (by simp [hstop]))
  exact Reads.expect hstop (.done _ _ _)

theorem reads_block {close : Token} {body : List Stmt} {bound : Nat} {rest : List Token}
    (h : Complete .declarations ts body) (hclose : close.kind = .symbol .rightBrace)
    (n : Nat) (hbound : ts.length ≤ bound) :
    Reads (Grammar.block bound (Rules.nested bound n)) n (ts ++ [close]) body rest := by
  have hbody := h bound n bound ([close] ++ rest) #[] hbound hbound (by simp [hclose])
  apply Reads.bind hbody
  apply Reads.expect hclose
  simpa using Reads.done body n rest

theorem complete_block {left right : Token} {body : List Stmt}
    (hleft : left.kind = .symbol .leftBrace) (h : Complete .declarations ts body)
    (hright : right.kind = .symbol .rightBrace) :
    Complete (.statement false) (left :: (ts ++ [right])) (.block body) := by
  intro bound n rest hbound _
  simp only [List.length_cons, List.length_append] at hbound
  iterate 5 apply Reads.skip (by simp [hleft])
  apply Reads.takePaid hleft
  exact Reads.map Stmt.block (reads_block h hright n (by omega))

theorem Complete.nested_statement {opens : Bool} {rest : List Token} {bound : Nat}
    (h : Complete (.statement opens) ts stmt) (n : Nat) (hbound : ts.length ≤ bound)
    (helse : opens = true → ahead rest ≠ some (.keyword .else)) :
    Reads (Rules.nested bound n).statement n ts stmt rest :=
  reads_nested Rules.statement rfl fun n => h bound n rest hbound helse

theorem complete_whileLoop {keyword left right : Token} {opens : Bool}
    (hwhile : keyword.kind = .keyword .while) (hleft : left.kind = .symbol .leftParen)
    (hcondition : Completes .assignment ts expr) (hright : right.kind = .symbol .rightParen)
    (hbody : Complete (.statement opens) us stmt) :
    Complete (.statement opens) (keyword :: left :: (ts ++ right :: us))
      (.whileLoop expr stmt) := by
  intro bound n rest hbound helse
  simp only [List.length_cons, List.length_append] at hbound
  iterate 4 apply Reads.skip (by simp [hwhile])
  apply Reads.take hwhile
  apply Reads.expect hleft
  refine Reads.bind (hcondition.reads n (by omega)
    (stops_closing .rightParen (by simp) (by simp [hright]))) ?_
  apply Reads.expectPaid hright
  exact Reads.last (hbody.nested_statement n (by omega) helse) (.done _ _ _)

theorem complete_forLoop {keyword left middle right : Token} {is cs ns bs : List Token}
    {init : Option Stmt} {condition increment : Option Expr} {body : Stmt} {opens : Bool}
    (hfor : keyword.kind = .keyword .for) (hleft : left.kind = .symbol .leftParen)
    (hinit : Complete .initializer is init) (hcondition : Complete .optional cs condition)
    (hmiddle : middle.kind = .symbol .semicolon)
    (hincrement : Complete .optional ns increment)
    (hright : right.kind = .symbol .rightParen)
    (hbody : Complete (.statement opens) bs body) :
    Complete (.statement opens)
      (keyword :: left :: (is ++ (cs ++ middle :: (ns ++ right :: bs))))
      (loop condition increment body init) := by
  intro bound n rest hbound helse
  simp only [List.length_cons, List.length_append] at hbound
  apply Reads.take hfor
  apply Reads.expect hleft
  apply Reads.bind (hinit bound n _ (by omega))
  apply Reads.bind (hcondition bound n _ .semicolon (by omega) (by simp) (by simp [hmiddle]))
  apply Reads.expect hmiddle
  apply Reads.bind (hincrement bound n _ .rightParen (by omega) (by simp) (by simp [hright]))
  apply Reads.expectPaid hright
  apply Reads.last (hbody.nested_statement n (by omega) helse)
  rw [forLoop_eq_loop]
  exact Reads.done _ _ _

theorem complete_ifThen {keyword left right : Token} {opens : Bool}
    (hif : keyword.kind = .keyword .if) (hleft : left.kind = .symbol .leftParen)
    (hcondition : Completes .assignment ts expr) (hright : right.kind = .symbol .rightParen)
    (hyes : Complete (.statement opens) us stmt) :
    Complete (.statement true) (keyword :: left :: (ts ++ right :: us))
      (.ifElse expr stmt none) := by
  intro bound n rest hbound helse
  simp only [List.length_cons, List.length_append] at hbound
  apply Reads.skip (by simp [hif])
  apply Reads.take hif
  apply Reads.expect hleft
  refine Reads.bind (hcondition.reads n (by omega)
    (stops_closing .rightParen (by simp) (by simp [hright]))) ?_
  apply Reads.expectPaid hright
  apply Reads.last (hyes.nested_statement n (by omega) fun _ => helse rfl)
  exact Reads.before (Reads.behindNone (helse rfl)) (.done _ _ _)

theorem complete_ifElse {keyword left right middle : Token} {no : Stmt} {opens : Bool}
    (hif : keyword.kind = .keyword .if) (hleft : left.kind = .symbol .leftParen)
    (hcondition : Completes .assignment ts expr) (hright : right.kind = .symbol .rightParen)
    (hyes : Complete (.statement false) us stmt) (hmiddle : middle.kind = .keyword .else)
    (hno : Complete (.statement opens) vs no) :
    Complete (.statement opens) (keyword :: left :: (ts ++ right :: (us ++ middle :: vs)))
      (.ifElse expr stmt (some no)) := by
  intro bound n rest hbound helse
  simp only [List.length_cons, List.length_append] at hbound
  apply Reads.skip (by simp [hif])
  apply Reads.take hif
  apply Reads.expect hleft
  refine Reads.bind (hcondition.reads n (by omega)
    (stops_closing .rightParen (by simp) (by simp [hright]))) ?_
  apply Reads.expectPaid hright
  apply Reads.bind (hyes.nested_statement n (by omega) (by simp))
  have hbranch : Reads (Rules.nested bound n).statement n vs no rest :=
    hno.nested_statement n (by omega) helse
  exact Reads.last ((Reads.behindSome hmiddle hbranch).fewer (Nat.le_succ n)) (.done _ _ _)

/-! ## Declarations -/

theorem Reads.recover {rule : Rule Stmt} {levels : Nat} {rest : List Token}
    (h : Reads rule levels ts stmt rest) :
    Reads (Grammar.recover rule) levels ts (some stmt) rest := by
  intro stop complaints
  rcases h stop complaints with hok | ⟨hlevels, cursor, hdeep⟩
  · left
    simp only [Grammar.recover, hok]
  · right
    exact ⟨hlevels, cursor, by simp only [Grammar.recover, hdeep]⟩

theorem complete_classDef {keyword name left right : Token} {methods : List FunctionDecl}
    (hclass : keyword.kind = .keyword .class) (hname : name.kind = .identifier)
    (hleft : left.kind = .symbol .leftBrace) (h : Complete .methods ts methods)
    (hright : right.kind = .symbol .rightBrace) :
    Complete .declaration (keyword :: name :: left :: (ts ++ [right]))
      (.classDef name none methods) := by
  intro bound n rest hbound _
  simp only [List.length_cons, List.length_append] at hbound
  apply Reads.recover
  apply Reads.take hclass
  apply Reads.expect hname
  apply Reads.before (Reads.behindNone (by simp [hleft]))
  apply Reads.expect hleft
  apply Reads.bind (h bound n bound _ #[] (by omega) (by omega) (by simp [hright]))
  apply Reads.expect hright
  simpa using Reads.done (Stmt.classDef name none methods) (n + 1) rest

theorem complete_subclassDef {keyword name less superclass left right : Token}
    {methods : List FunctionDecl} (hclass : keyword.kind = .keyword .class)
    (hname : name.kind = .identifier) (hless : less.kind = .symbol .less)
    (hsuperclass : superclass.kind = .identifier)
    (hleft : left.kind = .symbol .leftBrace) (h : Complete .methods ts methods)
    (hright : right.kind = .symbol .rightBrace) :
    Complete .declaration (keyword :: name :: less :: superclass :: left :: (ts ++ [right]))
      (.classDef name (some superclass) methods) := by
  intro bound n rest hbound _
  simp only [List.length_cons, List.length_append] at hbound
  have hparent : Reads (expect .identifier .expectSuperclassName) (n + 1) [superclass]
      superclass (left :: (ts ++ [right]) ++ rest) :=
    fun stop complaints => .inl (expect_same hsuperclass _ _ stop complaints)
  apply Reads.recover
  apply Reads.take hclass
  apply Reads.expect hname
  rw [show less :: superclass :: left :: (ts ++ [right]) =
    [less, superclass] ++ left :: (ts ++ [right]) from rfl]
  apply Reads.bind ((Reads.behindSome hless hparent).fewer (Nat.le_succ (n + 1)))
  apply Reads.expect hleft
  apply Reads.bind (h bound n bound _ #[] (by omega) (by omega) (by simp [hright]))
  apply Reads.expect hright
  simpa using Reads.done (Stmt.classDef name (some superclass) methods) (n + 1) rest

theorem complete_functionDef {keyword : Token} {declaration : FunctionDecl}
    (hfun : keyword.kind = .keyword .fun) (h : Complete .function ts declaration) :
    Complete .declaration (keyword :: ts) (.function declaration) := by
  intro bound n rest hbound _
  rw [List.length_cons] at hbound
  apply Reads.recover
  apply Reads.skip (by simp [hfun])
  apply Reads.take hfun
  exact Reads.map Stmt.function (h bound n .function rest (by omega))

theorem complete_variableDef (h : Complete .varDeclaration ts stmt) :
    Complete .declaration ts stmt := by
  obtain ⟨keyword, us, rfl, hvar, h⟩ := h
  intro bound n rest hbound _
  rw [List.length_cons] at hbound
  apply Reads.recover
  iterate 2 apply Reads.skip (by simp [hvar])
  apply Reads.take hvar
  exact h bound n rest (by omega)

theorem complete_statement {opens : Bool} (h : Complete (.statement opens) ts stmt)
    (hbegins : Starts (.statement opens) (ahead ts)) : Complete .declaration ts stmt := by
  obtain ⟨kind, hkind, hbegins⟩ := hbegins
  intro bound n rest hbound helse
  apply Reads.recover
  iterate 3 apply Reads.skip (ahead_ne hkind (by rintro rfl; exact absurd hbegins (by decide)) _)
  exact h bound n rest hbound fun _ => helse

theorem Reads.atEnd {β : Type} {levels : Nat} {rest : List Token} {next : Bool → Rule β}
    {tree : β} (h : 0 < (ts ++ rest).length)
    (hnext : Reads (next false) levels ts tree rest) :
    Reads (Rule.atEnd >>= next) levels ts tree rest :=
  Reads.look (fun _ _ => by
    cases hlist : ts ++ rest with
    | nil => simp [hlist] at h
    | cons token tokens => rfl) hnext

theorem complete_noDeclarations : Complete .declarations [] [] := by
  intro bound n steps rest found _ _ hclose
  rw [Array.append_empty]
  cases steps with
  | zero => exact Reads.done _ _ _
  | succ steps =>
    apply Reads.seesSome (by simpa using hclose)
    apply Reads.atEnd (by simpa using ahead_ne_nil hclose)
    exact Reads.done _ _ _

theorem complete_moreDeclarations {first : Stmt} {body : List Stmt}
    (hfirst : Complete .declaration ts first) (hbegins : Starts .declaration (ahead ts))
    (hrest : Complete .declarations us body) (hnext : Starts .declarations (ahead us)) :
    Complete .declarations (ts ++ us) (first :: body) := by
  intro bound n steps rest found hbound hsteps hclose
  obtain ⟨kind, hkind, hbegins⟩ := hbegins
  have hpos := ahead_ne_nil hkind
  rw [List.length_append] at hbound hsteps
  obtain ⟨steps, rfl⟩ : ∃ fewer, steps = fewer + 1 := ⟨steps - 1, by omega⟩
  have helse : ahead (us ++ rest) ≠ some (.keyword .else) := by
    cases us with
    | nil => simp [hclose]
    | cons token us =>
      intro heq
      exact absurd (hnext _ heq) (by decide)
  have hdeclaration : Reads (Rules.nested bound n).declaration n ts (some first)
      (us ++ rest) :=
    reads_nested Rules.declaration rfl fun n => hfirst bound n _ (by omega) helse
  have hrest := hrest bound n steps rest (found.push first) (by omega) (by omega) hclose
  apply Reads.seesNone
  · rw [List.append_assoc]
    refine ahead_ne hkind ?_ _
    rintro rfl
    exact absurd hbegins (by decide)
  apply Reads.atEnd (by simp only [List.length_append]; omega)
  apply Reads.bind hdeclaration
  simpa using hrest

theorem complete_noParameters : Complete .parameterList [] [] := by
  intro levels bound rest _ hclose
  exact Reads.absent hclose

theorem complete_someParameters {params : List Token} (h : CompletesParameters ts params)
    (hbegins : Starts .parameters (ahead ts)) (hcount : params.length ≤ maxArgs) :
    Complete .parameterList ts params := by
  intro levels bound rest hbound hclose
  have hread := h levels bound rest #[] hbound (by simpa using hcount) hclose
  exact Reads.present (ahead_ne hbegins (by simp) _) (by simpa using hread)

theorem complete_function {name left right open_ close : Token} {params : List Token}
    {body : List Stmt} (hname : name.kind = .identifier)
    (hleft : left.kind = .symbol .leftParen) (hparams : Complete .parameterList ts params)
    (hright : right.kind = .symbol .rightParen) (hopen : open_.kind = .symbol .leftBrace)
    (hbody : Complete .declarations us body) (hclose : close.kind = .symbol .rightBrace) :
    Complete .function (name :: left :: (ts ++ right :: open_ :: (us ++ [close])))
      ⟨name, params, body⟩ := by
  intro bound n sort rest hbound
  simp only [List.length_cons, List.length_append] at hbound
  apply Reads.expectPaid hname
  apply Reads.expect hleft
  apply Reads.bind (hparams n bound _ (by omega) (by simp [hright]))
  apply Reads.expect hright
  apply Reads.expect hopen
  apply Reads.last (reads_block hbody hclose n (by omega))
  exact Reads.done _ _ _

theorem complete_noMethods : Complete .methods [] [] := by
  intro bound n steps rest found _ _ hclose
  rw [Array.append_empty]
  cases steps with
  | zero => exact Reads.done _ _ _
  | succ steps =>
    apply Reads.seesSome (by simpa using hclose)
    apply Reads.atEnd (by simpa using ahead_ne_nil hclose)
    exact Reads.done _ _ _

theorem complete_moreMethods {first : FunctionDecl} {methods : List FunctionDecl}
    (hfirst : Complete .function ts first) (hbegins : Starts .function (ahead ts))
    (hrest : Complete .methods us methods) :
    Complete .methods (ts ++ us) (first :: methods) := by
  intro bound n steps rest found hbound hsteps hclose
  have hpos := ahead_ne_nil hbegins
  rw [List.length_append] at hbound hsteps
  obtain ⟨steps, rfl⟩ : ∃ fewer, steps = fewer + 1 := ⟨steps - 1, by omega⟩
  have hrest := hrest bound n steps rest (found.push first) (by omega) (by omega) hclose
  apply Reads.seesNone
  · rw [List.append_assoc]
    exact ahead_ne hbegins (by simp) _
  apply Reads.atEnd (by simp only [List.length_append]; omega)
  apply Reads.bind (hfirst bound n .method _ (by omega))
  simpa using hrest

/-- Whatever the grammar derives, the parser reads as the tree of the derivation. -/
theorem Derives.complete {sort : Nonterminal} {ts : List Token} {tree : sort.Tree}
    (h : Derives sort ts tree) : Complete sort ts tree := by
  induction h with
  | literal hwrites => exact completes_literal hwrites
  | this hthis => exact completes_this hthis
  | ref hname => exact completes_ref hname
  | super hsuper hdot hmethod => exact completes_super hsuper hdot hmethod
  | grouping hleft _ hright ih => exact Completes.grouping hleft ih hright
  | call _ hleft _ hright ihcallee ihargs =>
    exact Completes.call ihcallee hleft fun bound n rest hbound =>
      ihargs bound n rest _ _ hbound hright
  | get _ hdot hname ih => exact Completes.get ih hdot hname
  | unary hmark _ ih => exact Completes.unary hmark ih
  | joined hmark _ _ ihleft ihright => exact Completes.joined hmark ihleft ihright
  | assign hname hmark _ ih => exact Completes.assign hname hmark ih
  | set hobject hdot hname hmark _ ihobject ihvalue =>
    exact Completes.set ihobject hobject.starts hdot hname hmark ihvalue
  | looser hexpr ih => exact Completes.looser ih hexpr.starts
  | argument harg ih => exact Completes.argument ih harg.starts
  | moreArguments _ hcomma _ iharg ihargs =>
    exact Completes.moreArguments iharg hcomma ihargs
  | noArguments => exact complete_noArguments
  | someArguments hargs hcount ih => exact complete_someArguments ih hargs.starts hcount
  | absent => exact complete_absent
  | present hexpr ih => exact complete_present ih hexpr.starts
  | expressionStatement _ hstop ih => exact complete_expressionStatement ih hstop
  | plainVariable hvar hname hstop => exact complete_plainVariable hvar hname hstop
  | initialVariable hvar hname hmark _ hstop ih =>
    exact complete_initialVariable hvar hname hmark ih hstop
  | noInitializer hstop => exact complete_noInitializer hstop
  | variableInitializer _ ih => exact complete_variableInitializer ih
  | expressionInitializer hinit ih => exact complete_expressionInitializer ih hinit.starts
  | expression hstmt ih => exact complete_expression ih hstmt.starts
  | print hprint _ hstop ih => exact complete_print hprint ih hstop
  | returns hreturn _ hstop ih => exact complete_returns hreturn ih hstop
  | block hleft _ hright ih => exact complete_block hleft ih hright
  | whileLoop hwhile hleft _ hright _ ihcondition ihbody =>
    exact complete_whileLoop hwhile hleft ihcondition hright ihbody
  | forLoop hfor hleft _ _ hmiddle _ hright _ ihinit ihcondition ihincrement ihbody =>
    exact complete_forLoop hfor hleft ihinit ihcondition hmiddle ihincrement hright ihbody
  | ifThen hif hleft _ hright _ ihcondition ihyes =>
    exact complete_ifThen hif hleft ihcondition hright ihyes
  | ifElse hif hleft _ hright _ helse _ ihcondition ihyes ihno =>
    exact complete_ifElse hif hleft ihcondition hright ihyes helse ihno
  | classDef hclass hname hleft _ hright ih =>
    exact complete_classDef hclass hname hleft ih hright
  | subclassDef hclass hname hless hsuperclass hleft _ hright ih =>
    exact complete_subclassDef hclass hname hless hsuperclass hleft ih hright
  | functionDef hfun _ ih => exact complete_functionDef hfun ih
  | variableDef _ ih => exact complete_variableDef ih
  | statement hstmt ih => exact complete_statement ih hstmt.starts
  | noDeclarations => exact complete_noDeclarations
  | moreDeclarations hfirst hrest ihfirst ihrest =>
    exact complete_moreDeclarations ihfirst hfirst.starts ihrest hrest.starts
  | parameter hparam => exact completes_parameter hparam
  | moreParameters hparam hcomma _ ih => exact completes_moreParameters hparam hcomma ih
  | noParameters => exact complete_noParameters
  | someParameters hparams hcount ih =>
    exact complete_someParameters ih hparams.starts hcount
  | function hname hleft _ hright hopen _ hclose ihparams ihbody =>
    exact complete_function hname hleft ihparams hright hopen ihbody hclose
  | noMethods => exact complete_noMethods
  | moreMethods hfirst _ ihfirst ihrest =>
    exact complete_moreMethods ihfirst hfirst.starts ihrest

end Moth.Syntax
