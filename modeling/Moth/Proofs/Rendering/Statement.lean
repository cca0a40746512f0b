import Moth.Proofs.Rendering.Expression
/-!
# Rendered statements

The text of a derived program is cut into tokens from which the grammar derives the same
program, groupings and places apart.  An `if` with an `else` is written without braces
around its first branch; that is right because the grammar never puts an open `if` there.
-/

namespace Moth.Syntax

open Scan

/-- Whether the statement, as it is rendered, ends in an `if` without `else`. -/
def opens : Stmt → Bool
  | .ifElse _ _ none => true
  | .ifElse _ _ (some no) => opens no
  | .whileLoop _ body => opens body
  | _ => false

def RenderedAs (sort : Nonterminal) (text : String) (tree : sort.Tree) : Prop :=
  Yields text.toList Anything (Copies sort tree)

def lines (width : Nat) (texts : List String) : String :=
  joinWith "\n" (texts.map fun text => String.ofList (List.replicate width ' ') ++ text)

def RenderedPhrase : (sort : Nonterminal) → sort.Tree → Prop
  | .phrase _, expr => Rendered expr
  | .arguments, args => RenderedArgs args
  | .argumentList, args => RenderedArgList args
  | .optional, expr => ∀ value, expr = some value → Rendered value
  | .expressionStatement, stmt => ∀ depth, RenderedAs .expressionStatement (stmt.render depth) stmt
  | .varDeclaration, stmt => ∀ depth, RenderedAs .varDeclaration (stmt.render depth) stmt
  | .initializer, init => ∀ stmt, init = some stmt →
      ∀ depth, RenderedAs .declaration (stmt.render depth) stmt
  | .statement open_, stmt => (opens stmt = true → open_ = true) ∧
      ∀ depth, RenderedAs (.statement (opens stmt)) (stmt.render depth) stmt
  | .declaration, stmt => ∀ depth, RenderedAs .declaration (stmt.render depth) stmt
  | .declarations, body =>
    ∀ depth width, RenderedAs .declarations (lines width (renderAll depth body)) body
  | .parameters, params =>
    Yields (joinWith ", " (params.map (·.lexeme))).toList Breaks (Copies .parameters params)
  | .parameterList, params =>
    Yields (joinWith ", " (params.map (·.lexeme))).toList Breaks (Copies .parameterList params)
  | .function, decl => ∀ depth, RenderedAs .function (renderFunction depth decl) decl
  | .methods, decls =>
    ∀ depth width, RenderedAs .methods (lines width (renderMethods depth decls)) decls

variable {text : List Char} {follow : List Char → Prop} {R : List Token → Prop}

/-! ## Parts of statements -/

theorem yields_semicolon (h : ∀ stop : Token, stop.kind = .symbol .semicolon → R [stop]) :
    Yields (Symbol.semicolon.text.toList ++ []) follow R :=
  .symbol .semicolon (fun _ _ => trivial) (.done fun stop hstop _ => h stop hstop)

theorem breaks_semicolon (rest : List Char) :
    Breaks (Symbol.semicolon.text.toList ++ [] ++ rest) := by
  rw [List.append_assoc]
  exact breaks_symbol (by simp)

/-- A keyword with a blank behind it. -/
theorem yields_keyword_blank (keyword : Keyword)
    (h : Yields text follow fun ts => ∀ token : Token,
      token.kind = .keyword keyword → token.lexeme = keyword.text → R (token :: ts)) :
    Yields (keyword.text.toList ++ ' ' :: text) follow R := by
  refine .keyword keyword (fun rest _ c hc => ?_) (.blank (.inl rfl) h)
  cases hc
  decide

/-- An expression between parentheses, with a blank behind them. -/
theorem yields_condition {condition : Expr} (hcondition : Rendered condition)
    (h : Yields text follow fun us => ∀ (left right : Token) (ts : List Token) (copy : Expr),
      left.kind = .symbol .leftParen → Derives (.phrase .assignment) ts copy →
      copy.bare = condition.bare → right.kind = .symbol .rightParen →
      R (left :: (ts ++ right :: us))) :
    Yields (Symbol.leftParen.text.toList ++ (condition.render.toList ++
      (Symbol.rightParen.text.toList ++ ' ' :: text))) follow R := by
  apply Yields.symbol .leftParen (fun _ _ => trivial)
  refine hcondition.1.append (fun rest _ => ?_) ?_
  · rw [List.append_assoc]
    exact breaks_symbol (by simp)
  apply Yields.symbol .rightParen (fun _ _ => trivial)
  refine .blank (.inl rfl) (h.imp ?_)
  rintro us hR right hright - ts ⟨copy, hts, hbare⟩ left hleft -
  exact hR left right ts copy hleft (hts.loosen (Nat.zero_le _)) hbare hright

theorem of_yields_nil {P : List Token → Prop} (h : Yields [] Anything P) : P [] := by
  obtain ⟨words, hlexes, hP⟩ := h
  obtain ⟨ps, hps, -, rfl⟩ := hlexes [] trivial
  have hnil : ps = [] := by simpa using hps
  exact hP [] (by simp [hnil])

theorem blank_of_mem_replicate {width : Nat} {c : Char} (h : c ∈ List.replicate width ' ') :
    c = ' ' ∨ c = '\n' :=
  .inl (List.eq_of_mem_replicate h)

/-- Lines between braces. -/
theorem yields_braced {texts : List String} {P : List Token → Prop}
    (hlines : ∀ width, Yields (lines width texts).toList Anything P) (depth : Nat)
    (h : ∀ left ts right : _, left.kind = .symbol .leftBrace → P ts →
      right.kind = .symbol .rightBrace → R (left :: (ts ++ [right]))) :
    Yields (braced depth texts).toList follow R := by
  unfold braced
  split
  · next hempty =>
    have hnil : P [] := by
      refine of_yields_nil ?_
      simpa [lines, List.isEmpty_iff.1 hempty, joinWith] using hlines 0
    have htext : "\x7b\x7d".toList = Symbol.leftBrace.text.toList ++
        (Symbol.rightBrace.text.toList ++ []) := by
      simp [Symbol.text]
    rw [htext]
    apply Yields.symbol .leftBrace (fun _ _ => trivial)
    apply Yields.symbol .rightBrace (fun _ _ => trivial)
    exact .done fun right hright _ left hleft _ => h left [] right hleft hnil hright
  · have htext : ("\x7b\n" ++ joinWith "\n" (texts.map fun line => indent (depth + 1) ++ line) ++
        "\n" ++ indent depth ++ "\x7d").toList = Symbol.leftBrace.text.toList ++ '\n' ::
          ((lines (4 * (depth + 1)) texts).toList ++ '\n' :: (List.replicate (4 * depth) ' ' ++
            (Symbol.rightBrace.text.toList ++ []))) := by
      simp [Symbol.text, lines, indent]
    rw [htext]
    apply Yields.symbol .leftBrace (fun _ _ => trivial)
    refine .blank (.inr rfl) ((hlines _).append (fun _ _ => trivial) ?_)
    refine .blank (.inr rfl) (.blanks (fun c hc => blank_of_mem_replicate hc) ?_)
    apply Yields.symbol .rightBrace (fun _ _ => trivial)
    exact .done fun right hright _ ts hts left hleft _ => h left ts right hleft hts hright

/-! ## Statements -/

theorem rendered_expressionStatement {value : Expr} (h : Rendered value) (depth : Nat) :
    RenderedAs .expressionStatement ((Stmt.expression value).render depth)
      (.expression value) := by
  have htext : ((Stmt.expression value).render depth).toList =
      value.render.toList ++ (Symbol.semicolon.text.toList ++ []) := by
    simp [Stmt.render, Symbol.text]
  rw [RenderedAs, htext]
  refine h.1.append (fun rest _ => breaks_semicolon rest) (yields_semicolon ?_)
  rintro stop hstop ts ⟨copy, hts, hbare⟩
  refine ⟨_, .expressionStatement (hts.loosen (Nat.zero_le _)) hstop, ?_⟩
  show (Stmt.expression copy).bare = (Stmt.expression value).bare
  rw [Stmt.bare, Stmt.bare]
  exact congrArg _ hbare

theorem rendered_plainVariable {name : Token} (hname : name.kind = .identifier)
    (hproper : Proper name) (depth : Nat) :
    RenderedAs .varDeclaration ((Stmt.var name none).render depth) (.var name none) := by
  have htext : ((Stmt.var name none).render depth).toList = Keyword.var.text.toList ++ ' ' ::
      (name.lexeme.toList ++ (Symbol.semicolon.text.toList ++ [])) := by
    simp [Stmt.render, Symbol.text, Keyword.text]
  rw [RenderedAs, htext]
  apply yields_keyword_blank
  refine yields_name hname hproper (fun rest _ => (breaks_semicolon rest).head)
    (yields_semicolon ?_)
  intro stop hstop copy hcopy hbare keyword hkeyword _
  refine ⟨_, .plainVariable hkeyword hcopy hstop, ?_⟩
  show (Stmt.var copy none).bare = (Stmt.var name none).bare
  rw [Stmt.bare, Stmt.bare, hbare]

theorem rendered_initialVariable {name : Token} {init : Expr} (hname : name.kind = .identifier)
    (hproper : Proper name) (hinit : Rendered init) (depth : Nat) :
    RenderedAs .varDeclaration ((Stmt.var name (some init)).render depth)
      (.var name (some init)) := by
  have htext : ((Stmt.var name (some init)).render depth).toList = Keyword.var.text.toList ++
      ' ' :: (name.lexeme.toList ++ ' ' :: (Symbol.equal.text.toList ++ ' ' ::
        (init.render.toList ++ (Symbol.semicolon.text.toList ++ [])))) := by
    simp [Stmt.render, Symbol.text, Keyword.text]
  rw [RenderedAs, htext]
  apply yields_keyword_blank
  apply yields_name hname hproper (fun rest _ => (breaks_space _).head)
  refine .blank (.inl rfl) ?_
  apply Yields.symbol .equal (fun rest _ => by simp [Apart])
  refine .blank (.inl rfl) ?_
  refine hinit.1.append (fun rest _ => breaks_semicolon rest) (yields_semicolon ?_)
  rintro stop hstop ts ⟨copy, hts, hbare⟩ mark hmark - copyName hcopy hbareName keyword hkeyword -
  refine ⟨_, .initialVariable hkeyword hcopy hmark (hts.loosen (Nat.zero_le _)) hstop, ?_⟩
  show (Stmt.var copyName (some copy)).bare = (Stmt.var name (some init)).bare
  rw [Stmt.bare, Stmt.bare, hbareName]
  exact congrArg (fun init => Stmt.var _ (some init)) hbare

theorem rendered_print {value : Expr} (h : Rendered value) (depth : Nat) :
    RenderedAs (.statement false) ((Stmt.print value).render depth) (.print value) := by
  have htext : ((Stmt.print value).render depth).toList = Keyword.print.text.toList ++ ' ' ::
      (value.render.toList ++ (Symbol.semicolon.text.toList ++ [])) := by
    simp [Stmt.render, Symbol.text, Keyword.text]
  rw [RenderedAs, htext]
  apply yields_keyword_blank
  refine h.1.append (fun rest _ => breaks_semicolon rest) (yields_semicolon ?_)
  rintro stop hstop ts ⟨copy, hts, hbare⟩ keyword hkeyword -
  refine ⟨_, .print hkeyword (hts.loosen (Nat.zero_le _)) hstop, ?_⟩
  show (Stmt.print copy).bare = (Stmt.print value).bare
  rw [Stmt.bare, Stmt.bare]
  exact congrArg _ hbare

theorem rendered_returns {keyword : Token} {value : Option Expr}
    (hkeyword : keyword.kind = .keyword .return) (hproper : Proper keyword)
    (h : ∀ expr, value = some expr → Rendered expr) (depth : Nat) :
    RenderedAs (.statement false) ((Stmt.returns keyword value).render depth)
      (.returns keyword value) := by
  cases value with
  | none =>
    have htext : ((Stmt.returns keyword none).render depth).toList =
        Keyword.return.text.toList ++ (Symbol.semicolon.text.toList ++ []) := by
      simp [Stmt.render, Symbol.text, Keyword.text]
    rw [RenderedAs, htext]
    refine .keyword .return (fun rest _ => (breaks_semicolon rest).head) (yields_semicolon ?_)
    intro stop hstop copy hcopy hlexeme
    refine ⟨_, .returns hcopy .absent hstop, ?_⟩
    show (Stmt.returns copy none).bare = (Stmt.returns keyword none).bare
    rw [Stmt.bare, Stmt.bare, bare_eq_keyword hkeyword hproper hcopy hlexeme]
  | some expr =>
    have htext : ((Stmt.returns keyword (some expr)).render depth).toList =
        Keyword.return.text.toList ++ ' ' ::
          (expr.render.toList ++ (Symbol.semicolon.text.toList ++ [])) := by
      simp [Stmt.render, Symbol.text, Keyword.text]
    rw [RenderedAs, htext]
    apply yields_keyword_blank
    refine (h expr rfl).1.append (fun rest _ => breaks_semicolon rest) (yields_semicolon ?_)
    rintro stop hstop ts ⟨copyExpr, hts, hbare⟩ copy hcopy hlexeme
    refine ⟨_, .returns hcopy (.present (hts.loosen (Nat.zero_le _))) hstop, ?_⟩
    show (Stmt.returns copy (some copyExpr)).bare = (Stmt.returns keyword (some expr)).bare
    rw [Stmt.bare, Stmt.bare, bare_eq_keyword hkeyword hproper hcopy hlexeme]
    exact congrArg (fun expr => Stmt.returns _ (some expr)) hbare

theorem rendered_block {body : List Stmt} (h : RenderedPhrase .declarations body)
    (depth : Nat) : RenderedAs (.statement false)
      ((Stmt.block body).render depth) (.block body) := by
  refine yields_braced (fun width => h (depth + 1) width) depth ?_
  rintro left ts right hleft ⟨copy, hts, hbare⟩ hright
  refine ⟨_, .block hleft hts hright, ?_⟩
  show (Stmt.block copy).bare = (Stmt.block body).bare
  rw [Stmt.bare, Stmt.bare]
  exact congrArg _ hbare

theorem rendered_whileLoop {condition : Expr} {body : Stmt} (hcondition : Rendered condition)
    (hbody : ∀ depth, RenderedAs (.statement (opens body)) (body.render depth) body)
    (depth : Nat) : RenderedAs (.statement (opens body))
      ((Stmt.whileLoop condition body).render depth) (.whileLoop condition body) := by
  have htext : ((Stmt.whileLoop condition body).render depth).toList =
      Keyword.while.text.toList ++ ' ' :: (Symbol.leftParen.text.toList ++
        (condition.render.toList ++ (Symbol.rightParen.text.toList ++ ' ' ::
          (body.render depth).toList))) := by
    simp [Stmt.render, Symbol.text, Keyword.text]
  rw [RenderedAs, htext]
  apply yields_keyword_blank
  refine yields_condition hcondition ((hbody depth).imp ?_)
  rintro us ⟨copyBody, hus, hbareBody⟩ left right ts copy hleft hts hbare hright keyword hkeyword -
  refine ⟨_, .whileLoop hkeyword hleft hts hright hus, ?_⟩
  show (Stmt.whileLoop copy copyBody).bare = (Stmt.whileLoop condition body).bare
  rw [Stmt.bare, Stmt.bare, hbare]
  exact congrArg _ hbareBody

theorem rendered_ifThen {condition : Expr} {yes : Stmt} (hcondition : Rendered condition)
    (hyes : ∀ depth, RenderedAs (.statement (opens yes)) (yes.render depth) yes)
    (depth : Nat) : RenderedAs (.statement true)
      ((Stmt.ifElse condition yes none).render depth) (.ifElse condition yes none) := by
  have htext : ((Stmt.ifElse condition yes none).render depth).toList =
      Keyword.if.text.toList ++ ' ' :: (Symbol.leftParen.text.toList ++
        (condition.render.toList ++ (Symbol.rightParen.text.toList ++ ' ' ::
          (yes.render depth).toList))) := by
    simp [Stmt.render, renderElse, Symbol.text, Keyword.text]
  rw [RenderedAs, htext]
  apply yields_keyword_blank
  refine yields_condition hcondition ((hyes depth).imp ?_)
  rintro us ⟨copyYes, hus, hbareYes⟩ left right ts copy hleft hts hbare hright keyword hkeyword -
  refine ⟨_, .ifThen hkeyword hleft hts hright hus, ?_⟩
  show (Stmt.ifElse copy copyYes none).bare = (Stmt.ifElse condition yes none).bare
  rw [Stmt.bare, Stmt.bare, hbare]
  exact congrArg (Stmt.ifElse _ · _) hbareYes

theorem rendered_ifElse {condition : Expr} {yes no : Stmt} (hcondition : Rendered condition)
    (hclosed : opens yes = false)
    (hyes : ∀ depth, RenderedAs (.statement (opens yes)) (yes.render depth) yes)
    (hno : ∀ depth, RenderedAs (.statement (opens no)) (no.render depth) no)
    (depth : Nat) : RenderedAs (.statement (opens no))
      ((Stmt.ifElse condition yes (some no)).render depth) (.ifElse condition yes (some no)) := by
  have htext : ((Stmt.ifElse condition yes (some no)).render depth).toList =
      Keyword.if.text.toList ++ ' ' :: (Symbol.leftParen.text.toList ++
        (condition.render.toList ++ (Symbol.rightParen.text.toList ++ ' ' ::
          ((yes.render depth).toList ++ ' ' :: (Keyword.else.text.toList ++ ' ' ::
            (no.render depth).toList))))) := by
    simp [Stmt.render, renderElse, Symbol.text, Keyword.text]
  rw [RenderedAs, htext]
  apply yields_keyword_blank
  apply yields_condition hcondition
  refine Yields.append (hyes depth) (fun _ _ => trivial) (.blank (.inl rfl) ?_)
  apply yields_keyword_blank
  refine (hno depth).imp ?_
  rintro vs ⟨copyNo, hvs, hbareNo⟩ middle helse - us ⟨copyYes, hus, hbareYes⟩
    left right ts copy hleft hts hbare hright keyword hkeyword -
  rw [hclosed] at hus
  refine ⟨_, .ifElse hkeyword hleft hts hright hus helse hvs, ?_⟩
  show (Stmt.ifElse copy copyYes (some copyNo)).bare = (Stmt.ifElse condition yes (some no)).bare
  rw [Stmt.bare, Stmt.bare, hbare]
  exact congrArg₂ (fun yes no => Stmt.ifElse _ yes (some no)) hbareYes hbareNo

/-! ## Declarations -/

theorem RenderedAs.declaration {open_ : Bool} {stmt : Stmt} {text : String}
    (h : RenderedAs (.statement open_) text stmt) : RenderedAs .declaration text stmt := by
  refine Yields.imp h ?_
  rintro ts ⟨copy, hts, hbare⟩
  exact ⟨copy, .statement hts, hbare⟩

theorem RenderedAs.statement {stmt : Stmt} {text : String}
    (h : RenderedAs .expressionStatement text stmt) : RenderedAs (.statement false) text stmt := by
  refine Yields.imp h ?_
  rintro ts ⟨copy, hts, hbare⟩
  exact ⟨copy, .expression hts, hbare⟩

theorem RenderedAs.variable {stmt : Stmt} {text : String}
    (h : RenderedAs .varDeclaration text stmt) : RenderedAs .declaration text stmt := by
  refine Yields.imp h ?_
  rintro ts ⟨copy, hts, hbare⟩
  exact ⟨copy, .variableDef hts, hbare⟩

/-- One line more in front of others. -/
theorem yields_lines {width : Nat} {first : String} {rest : List String}
    {P Q : List Token → Prop} (hfirst : Yields first.toList Anything P)
    (hrest : Yields (lines width rest).toList Anything Q)
    (h : ∀ ts us, P ts → Q us → R (ts ++ us)) :
    Yields (lines width (first :: rest)).toList Anything R := by
  cases rest with
  | nil =>
    have htext : (lines width [first]).toList =
      List.replicate width ' ' ++ (first.toList ++ []) := by
      simp [lines, joinWith]
    rw [htext]
    refine .blanks (fun c hc => blank_of_mem_replicate hc) ?_
    exact hfirst.append (fun _ _ => trivial)
      (.done fun ts hts => h ts [] hts (of_yields_nil (by simpa [lines, joinWith] using hrest)))
  | cons second others =>
    have htext : (lines width (first :: second :: others)).toList = List.replicate width ' ' ++
        (first.toList ++ '\n' :: (lines width (second :: others)).toList) := by
      simp [lines, joinWith]
    rw [htext]
    refine .blanks (fun c hc => blank_of_mem_replicate hc) ?_
    refine hfirst.append (fun _ _ => trivial) (.blank (.inr rfl) (hrest.imp ?_))
    exact fun us hus ts hts => h ts us hts hus

theorem rendered_noDeclarations : RenderedPhrase .declarations [] := by
  intro depth width
  exact .done ⟨[], .noDeclarations, rfl⟩

theorem rendered_moreDeclarations {first : Stmt} {body : List Stmt}
    (hfirst : ∀ depth, RenderedAs .declaration (first.render depth) first)
    (hbody : RenderedPhrase .declarations body) :
    RenderedPhrase .declarations (first :: body) := by
  intro depth width
  refine yields_lines (hfirst depth) (hbody depth width) ?_
  rintro ts us ⟨copy, hts, hbare⟩ ⟨copies, hus, hbares⟩
  refine ⟨copy :: copies, .moreDeclarations hts hus, ?_⟩
  show bareAll (copy :: copies) = bareAll (first :: body)
  rw [bareAll, bareAll]
  exact congrArg₂ (· :: ·) hbare hbares

/-! ## For loops -/

theorem rendered_true : Rendered (.literal (.bool true)) := by
  have hproper : Proper ⟨.keyword .true, "true", 1, 0, 0⟩ := ⟨rfl, fun _ h => by cases h⟩
  exact rendered_literal .true hproper

theorem rendered_loopCondition {condition : Option Expr}
    (h : ∀ expr, condition = some expr → Rendered expr) : Rendered (loopCondition condition) := by
  cases condition with
  | none => exact rendered_true
  | some expr => exact h expr rfl

theorem rendered_loopBody {body : Stmt} {increment : Option Expr} {open_ : Bool}
    (hbody : RenderedPhrase (.statement open_) body)
    (h : ∀ expr, increment = some expr → Rendered expr) :
    RenderedPhrase (.statement open_) (loopBody body increment) := by
  cases increment with
  | none => exact hbody
  | some expr =>
    refine ⟨fun hopen => by simp [loopBody, opens] at hopen, rendered_block ?_⟩
    refine rendered_moreDeclarations (fun depth => (hbody.2 depth).declaration) ?_
    refine rendered_moreDeclarations (fun depth => ?_) rendered_noDeclarations
    exact (rendered_expressionStatement (h expr rfl) depth).statement.declaration

theorem rendered_loop {condition increment : Option Expr} {body : Stmt} {init : Option Stmt}
    {open_ : Bool} (hcondition : ∀ expr, condition = some expr → Rendered expr)
    (hincrement : ∀ expr, increment = some expr → Rendered expr)
    (hbody : RenderedPhrase (.statement open_) body)
    (hinit : RenderedPhrase .initializer init) :
    RenderedPhrase (.statement open_) (loop condition increment body init) := by
  have hloop := rendered_loopBody hbody hincrement
  have hwhile := rendered_whileLoop (rendered_loopCondition hcondition) hloop.2
  cases init with
  | none => exact ⟨hloop.1, hwhile⟩
  | some stmt =>
    refine ⟨fun hopen => by simp [loop, opens] at hopen, rendered_block ?_⟩
    refine rendered_moreDeclarations (hinit stmt rfl) ?_
    exact rendered_moreDeclarations (fun depth => (hwhile depth).declaration)
      rendered_noDeclarations

/-! ## Functions and classes -/

theorem rendered_parameter {param : Token} (h : param.kind = .identifier)
    (hproper : Proper param) : RenderedPhrase .parameters [param] := by
  have htext : (joinWith ", " ([param].map (·.lexeme))).toList = param.lexeme.toList ++ [] := by
    simp [joinWith]
  rw [RenderedPhrase, htext]
  refine yields_name h hproper (fun rest hrest => hrest.head) (.done fun copy hcopy hbare => ?_)
  refine ⟨[copy], .parameter hcopy, ?_⟩
  show [copy].map Token.bare = [param].map Token.bare
  rw [List.map_singleton, List.map_singleton, hbare]

theorem rendered_moreParameters {param next : Token} {params : List Token}
    (h : param.kind = .identifier) (hproper : Proper param)
    (hparams : RenderedPhrase .parameters (next :: params)) :
    RenderedPhrase .parameters (param :: next :: params) := by
  have htext : (joinWith ", " ((param :: next :: params).map (·.lexeme))).toList =
      param.lexeme.toList ++ (Symbol.comma.text.toList ++ ' ' ::
        (joinWith ", " ((next :: params).map (·.lexeme))).toList) := by
    simp [joinWith, Symbol.text]
  rw [RenderedPhrase, htext]
  refine yields_name h hproper (fun rest _ => ?_) ?_
  · rw [List.append_assoc]
    exact (breaks_symbol (by simp)).head
  apply Yields.symbol .comma (fun _ _ => trivial)
  refine .blank (.inl rfl) (Yields.imp hparams ?_)
  rintro us ⟨copies, hus, hbares⟩ comma hcomma - copy hcopy hbare
  refine ⟨copy :: copies, .moreParameters hcopy hcomma hus, ?_⟩
  show (copy :: copies).map Token.bare = (param :: next :: params).map Token.bare
  rw [List.map_cons, List.map_cons, hbare]
  exact congrArg _ hbares

theorem rendered_noParameters : RenderedPhrase .parameterList [] :=
  .done ⟨[], .noParameters, rfl⟩

theorem rendered_someParameters {params : List Token} (h : RenderedPhrase .parameters params)
    (hcount : params.length ≤ maxArgs) : RenderedPhrase .parameterList params := by
  refine Yields.imp h ?_
  rintro ts ⟨copies, hts, hbares⟩
  have hlength : copies.length = params.length := by
    simpa using
    congrArg List.length (show copies.map Token.bare = params.map Token.bare from hbares)
  exact ⟨copies, .someParameters hts (hlength ▸ hcount), hbares⟩

theorem rendered_function {name : Token} {params : List Token} {body : List Stmt}
    (hname : name.kind = .identifier) (hproper : Proper name)
    (hparams : RenderedPhrase .parameterList params) (hbody : RenderedPhrase .declarations body)
    (depth : Nat) : RenderedAs .function (renderFunction depth ⟨name, params, body⟩)
      ⟨name, params, body⟩ := by
  have htext : (renderFunction depth ⟨name, params, body⟩).toList = name.lexeme.toList ++
      (Symbol.leftParen.text.toList ++ ((joinWith ", " (params.map (·.lexeme))).toList ++
        (Symbol.rightParen.text.toList ++ ' ' ::
          (braced depth (renderAll (depth + 1) body)).toList))) := by
    simp [renderFunction, Symbol.text]
  rw [RenderedAs, htext]
  refine yields_name hname hproper (fun rest _ => ?_) ?_
  · rw [List.append_assoc]
    exact (breaks_symbol (by simp)).head
  apply Yields.symbol .leftParen (fun _ _ => trivial)
  refine Yields.append hparams (fun rest _ => ?_) ?_
  · rw [List.append_assoc]
    exact breaks_symbol (by simp)
  apply Yields.symbol .rightParen (fun _ _ => trivial)
  refine .blank (.inl rfl) (yields_braced (fun width => hbody (depth + 1) width) depth ?_)
  rintro open_ us close hopen ⟨copies, hus, hbares⟩ hclose right hright - ts
    ⟨copyParams, hts, hbareParams⟩ left hleft - copy hcopy hbare
  refine ⟨_, .function hcopy hleft hts hright hopen hus hclose, ?_⟩
  show bareFunction ⟨copy, copyParams, copies⟩ = bareFunction ⟨name, params, body⟩
  rw [bareFunction, bareFunction, hbare]
  exact congrArg₂ (FunctionOf.mk _) hbareParams hbares

theorem rendered_noMethods : RenderedPhrase .methods [] := by
  intro depth width
  exact .done ⟨[], .noMethods, rfl⟩

theorem rendered_moreMethods {first : FunctionDecl} {methods : List FunctionDecl}
    (hfirst : RenderedPhrase .function first) (hmethods : RenderedPhrase .methods methods) :
    RenderedPhrase .methods (first :: methods) := by
  intro depth width
  refine yields_lines (hfirst depth) (hmethods depth width) ?_
  rintro ts us ⟨copy, hts, hbare⟩ ⟨copies, hus, hbares⟩
  refine ⟨copy :: copies, .moreMethods hts hus, ?_⟩
  show bareMethods (copy :: copies) = bareMethods (first :: methods)
  rw [bareMethods, bareMethods]
  exact congrArg₂ (· :: ·) hbare hbares

theorem rendered_classDef {name : Token} {methods : List FunctionDecl}
    (hname : name.kind = .identifier) (hproper : Proper name)
    (hmethods : RenderedPhrase .methods methods) (depth : Nat) :
    RenderedAs .declaration ((Stmt.classDef name none methods).render depth)
      (.classDef name none methods) := by
  have htext : ((Stmt.classDef name none methods).render depth).toList =
      Keyword.class.text.toList ++ ' ' :: (name.lexeme.toList ++ ' ' ::
        (braced depth (renderMethods (depth + 1) methods)).toList) := by
    simp [Stmt.render, Keyword.text]
  rw [RenderedAs, htext]
  apply yields_keyword_blank
  apply yields_name hname hproper (fun rest _ => (breaks_space _).head)
  refine .blank (.inl rfl) (yields_braced (fun width => hmethods (depth + 1) width) depth ?_)
  rintro left ts right hleft ⟨copies, hts, hbares⟩ hright copy hcopy hbare keyword hkeyword -
  refine ⟨_, .classDef hkeyword hcopy hleft hts hright, ?_⟩
  show (Stmt.classDef copy none copies).bare = (Stmt.classDef name none methods).bare
  rw [Stmt.bare, Stmt.bare, hbare]
  exact congrArg _ hbares

theorem rendered_subclassDef {name superclass : Token} {methods : List FunctionDecl}
    (hname : name.kind = .identifier) (hproper : Proper name)
    (hsuperclass : superclass.kind = .identifier) (hproper' : Proper superclass)
    (hmethods : RenderedPhrase .methods methods) (depth : Nat) :
    RenderedAs .declaration ((Stmt.classDef name (some superclass) methods).render depth)
      (.classDef name (some superclass) methods) := by
  have htext : ((Stmt.classDef name (some superclass) methods).render depth).toList =
      Keyword.class.text.toList ++ ' ' :: (name.lexeme.toList ++ ' ' ::
        (Symbol.less.text.toList ++ ' ' :: (superclass.lexeme.toList ++ ' ' ::
          (braced depth (renderMethods (depth + 1) methods)).toList))) := by
    simp [Stmt.render, Keyword.text, Symbol.text]
  rw [RenderedAs, htext]
  apply yields_keyword_blank
  apply yields_name hname hproper (fun rest _ => (breaks_space _).head)
  refine .blank (.inl rfl) ?_
  apply Yields.symbol .less (fun rest _ => by simp [Apart])
  refine .blank (.inl rfl) ?_
  apply yields_name hsuperclass hproper' (fun rest _ => (breaks_space _).head)
  refine .blank (.inl rfl) (yields_braced (fun width => hmethods (depth + 1) width) depth ?_)
  rintro left ts right hleft ⟨copies, hts, hbares⟩ hright copySuper hcopySuper hbareSuper
    less hless - copy hcopy hbare keyword hkeyword -
  refine ⟨_, .subclassDef hkeyword hcopy hless hcopySuper hleft hts hright, ?_⟩
  show (Stmt.classDef copy (some copySuper) copies).bare =
    (Stmt.classDef name (some superclass) methods).bare
  rw [Stmt.bare, Stmt.bare, hbare, Option.map_some, Option.map_some, hbareSuper]
  exact congrArg _ hbares

theorem rendered_functionDef {decl : FunctionDecl} (h : RenderedPhrase .function decl)
    (depth : Nat) :
    RenderedAs .declaration ((Stmt.function decl).render depth) (.function decl) := by
  have htext : ((Stmt.function decl).render depth).toList =
      Keyword.fun.text.toList ++ ' ' :: (renderFunction depth decl).toList := by
    simp [Stmt.render, Keyword.text]
  rw [RenderedAs, htext]
  apply yields_keyword_blank
  refine (h depth).imp ?_
  rintro ts ⟨copy, hts, hbare⟩ keyword hkeyword -
  refine ⟨_, .functionDef hkeyword hts, ?_⟩
  show (Stmt.function copy).bare = (Stmt.function decl).bare
  rw [Stmt.bare, Stmt.bare]
  exact congrArg _ hbare

/-! ## Phrases -/

theorem arguments_ne_nil {ts : List Token} {args : List Expr} (h : Derives .arguments ts args) :
    ∃ first rest, args = first :: rest := by
  cases h <;> exact ⟨_, _, rfl⟩

theorem parameters_ne_nil {ts params : List Token} (h : Derives .parameters ts params) :
    ∃ first rest, params = first :: rest := by
  cases h <;> exact ⟨_, _, rfl⟩

theorem opens_expressionStatement {ts : List Token} {stmt : Stmt}
    (h : Derives .expressionStatement ts stmt) : opens stmt = false := by
  cases h
  rfl

/-- Every derived phrase of proper tokens is rendered as itself. -/
theorem Derives.rendered {sort : Nonterminal} {ts : List Token} {tree : sort.Tree}
    (h : Derives sort ts tree) (hproper : ∀ token ∈ ts, Proper token) :
    RenderedPhrase sort tree := by
  induction h with
  | literal hwrites => exact rendered_literal hwrites (hproper _ (by simp))
  | this hthis => exact rendered_this hthis (hproper _ (by simp))
  | ref hname => exact rendered_ref hname (hproper _ (by simp))
  | super hsuper _ hmethod =>
    exact rendered_super hsuper hmethod (hproper _ (by simp)) (hproper _ (by simp))
  | grouping _ _ _ ih => exact rendered_grouping (ih fun t ht => hproper t (by simp [ht]))
  | call _ _ _ hright ihcallee ihargs =>
    exact Rendered.call (ihcallee fun t ht => hproper t (by simp [ht]))
      (ihargs fun t ht => hproper t (by simp [ht])) hright (hproper _ (by simp))
  | get _ _ hname ih =>
    exact Rendered.get (ih fun t ht => hproper t (by simp [ht])) hname (hproper _ (by simp))
  | unary hmark _ ih =>
    exact Rendered.unary hmark (hproper _ (by simp)) (ih fun t ht => hproper t (by simp [ht]))
  | joined hmark _ _ ihleft ihright =>
    exact Rendered.joined hmark (hproper _ (by simp))
      (ihleft fun t ht => hproper t (by simp [ht])) (ihright fun t ht => hproper t (by simp [ht]))
  | assign hname _ _ ih =>
    exact Rendered.assign hname (hproper _ (by simp)) (ih fun t ht => hproper t (by simp [ht]))
  | set _ _ hname _ _ ihobject ihvalue =>
    exact Rendered.set (ihobject fun t ht => hproper t (by simp [ht])) hname
      (hproper _ (by simp)) (ihvalue fun t ht => hproper t (by simp [ht]))
  | looser _ ih => exact ih hproper
  | argument _ ih => exact Rendered.argument (ih hproper)
  | moreArguments _ _ hargs iharg ihargs =>
    obtain ⟨first, rest, rfl⟩ := arguments_ne_nil hargs
    exact RenderedArgs.cons (iharg fun t ht => hproper t (by simp [ht]))
      (ihargs fun t ht => hproper t (by simp [ht]))
  | noArguments => exact renderedArgList_nil
  | someArguments _ hcount ih => exact RenderedArgs.list (ih hproper) hcount
  | absent =>
    intro value hvalue
    cases hvalue
  | present _ ih =>
    intro value hvalue
    cases hvalue
    exact ih hproper
  | expressionStatement _ _ ih =>
    exact rendered_expressionStatement (ih fun t ht => hproper t (by simp [ht]))
  | plainVariable _ hname => exact rendered_plainVariable hname (hproper _ (by simp))
  | initialVariable _ hname _ _ _ ih =>
    exact rendered_initialVariable hname (hproper _ (by simp))
      (ih fun t ht => hproper t (by simp [ht]))
  | noInitializer =>
    intro stmt hstmt
    cases hstmt
  | variableInitializer _ ih =>
    intro stmt hstmt depth
    cases hstmt
    exact (ih hproper depth).variable
  | expressionInitializer _ ih =>
    intro stmt hstmt depth
    cases hstmt
    exact (ih hproper depth).statement.declaration
  | expression hstmt ih =>
    have hclosed := opens_expressionStatement hstmt
    refine ⟨fun hopen => by simp [hclosed] at hopen, fun depth => ?_⟩
    rw [hclosed]
    exact (ih hproper depth).statement
  | print _ _ _ ih =>
    exact ⟨fun hopen => hopen, rendered_print (ih fun t ht => hproper t (by simp [ht]))⟩
  | returns hreturn _ _ ih =>
    exact ⟨fun hopen => hopen, rendered_returns hreturn (hproper _ (by simp))
      (ih fun t ht => hproper t (by simp [ht]))⟩
  | block _ _ _ ih =>
    exact ⟨fun hopen => hopen, rendered_block (ih fun t ht => hproper t (by simp [ht]))⟩
  | whileLoop _ _ _ _ _ ihcondition ihbody =>
    obtain ⟨hopens, hbody⟩ := ihbody fun t ht => hproper t (by simp [ht])
    exact ⟨hopens, rendered_whileLoop (ihcondition fun t ht => hproper t (by simp [ht])) hbody⟩
  | forLoop _ _ _ _ _ _ _ _ ihinit ihcondition ihincrement ihbody =>
    exact rendered_loop (ihcondition fun t ht => hproper t (by simp [ht]))
      (ihincrement fun t ht => hproper t (by simp [ht]))
      (ihbody fun t ht => hproper t (by simp [ht])) (ihinit fun t ht => hproper t (by simp [ht]))
  | ifThen _ _ _ _ _ ihcondition ihyes =>
    exact ⟨fun _ => rfl, rendered_ifThen (ihcondition fun t ht => hproper t (by simp [ht]))
      (ihyes fun t ht => hproper t (by simp [ht])).2⟩
  | ifElse _ _ _ _ _ _ _ ihcondition ihyes ihno =>
    obtain ⟨hclosed, hyes⟩ := ihyes fun t ht => hproper t (by simp [ht])
    obtain ⟨hopens, hno⟩ := ihno fun t ht => hproper t (by simp [ht])
    exact ⟨hopens, rendered_ifElse (ihcondition fun t ht => hproper t (by simp [ht]))
      (by simpa using hclosed) hyes hno⟩
  | classDef _ hname _ _ _ ih =>
    exact rendered_classDef hname (hproper _ (by simp)) (ih fun t ht => hproper t (by simp [ht]))
  | subclassDef _ hname _ hsuperclass _ _ _ ih =>
    exact rendered_subclassDef hname (hproper _ (by simp)) hsuperclass (hproper _ (by simp))
      (ih fun t ht => hproper t (by simp [ht]))
  | functionDef _ _ ih => exact rendered_functionDef (ih fun t ht => hproper t (by simp [ht]))
  | variableDef _ ih => exact fun depth => (ih hproper depth).variable
  | statement _ ih => exact fun depth => ((ih hproper).2 depth).declaration
  | noDeclarations => exact rendered_noDeclarations
  | moreDeclarations _ _ ihfirst ihrest =>
    exact rendered_moreDeclarations (ihfirst fun t ht => hproper t (by simp [ht]))
      (ihrest fun t ht => hproper t (by simp [ht]))
  | parameter hparam => exact rendered_parameter hparam (hproper _ (by simp))
  | moreParameters hparam _ hparams ih =>
    obtain ⟨first, rest, rfl⟩ := parameters_ne_nil hparams
    exact rendered_moreParameters hparam (hproper _ (by simp))
      (ih fun t ht => hproper t (by simp [ht]))
  | noParameters => exact rendered_noParameters
  | someParameters _ hcount ih => exact rendered_someParameters (ih hproper) hcount
  | function hname _ _ _ _ _ _ ihparams ihbody =>
    exact rendered_function hname (hproper _ (by simp))
      (ihparams fun t ht => hproper t (by simp [ht])) (ihbody fun t ht => hproper t (by simp [ht]))
  | noMethods => exact rendered_noMethods
  | moreMethods _ _ ihfirst ihrest =>
    exact rendered_moreMethods (ihfirst fun t ht => hproper t (by simp [ht]))
      (ihrest fun t ht => hproper t (by simp [ht]))

end Moth.Syntax
