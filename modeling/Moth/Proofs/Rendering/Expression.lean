import Moth.Proofs.Number.Source
import Moth.Proofs.Parsing.First
import Moth.Proofs.Rendering.Bare
import Moth.Proofs.Rendering.Spelling
/-!
# Rendered expressions

The text of a derived expression is cut into tokens from which the grammar derives the same
expression, groupings and places apart.  Everything compound stands between parentheses, so
every rendered expression binds as tightly as a call.
-/

namespace Moth.Syntax

open Scan

def Copies (sort : Nonterminal) (tree : sort.Tree) (ts : List Token) : Prop :=
  ∃ copy, Derives sort ts copy ∧ sort.bare copy = sort.bare tree

/-- The token has the text of its kind, and a number that can be written. -/
def Proper (token : Token) : Prop :=
  Spells token.kind token.lexeme.toList ∧
    ∀ value, token.kind = .number value → value.isFinite

/-- The text does not begin with an equal sign, which would fuse with a symbol before it. -/
def Begins (text : List Char) : Prop := ∃ c, text.head? = some c ∧ c ≠ '='

def Rendered (expr : Expr) : Prop :=
  Yields expr.render.toList Breaks (Copies (.phrase .call) expr) ∧ Begins expr.render.toList

/-! ## Levels -/

theorem rank_injective {level other : Level} (h : level.rank = other.rank) : level = other := by
  cases level <;> cases other <;> simp [Level.rank] at h ⊢

theorem rank_tighter {level : Level} (h : level.rank < Level.primary.rank) :
    level.tighter.rank = level.rank + 1 := by
  cases level <;> simp [Level.rank, Level.tighter] at h ⊢

/-- What binds tightly may stand wherever something looser may. -/
theorem Derives.loosen {ts : List Token} {expr : Expr} {other : Level}
    (h : Derives (.phrase other) ts expr) {level : Level} (hrank : level.rank ≤ other.rank) :
    Derives (.phrase level) ts expr := by
  induction hsteps : other.rank - level.rank generalizing level with
  | zero =>
    rw [rank_injective (show level.rank = other.rank by omega)]
    exact h
  | succ steps ih =>
    have hlast : other.rank ≤ Level.primary.rank := by cases other <;> decide
    have htighter := rank_tighter (show level.rank < Level.primary.rank by omega)
    exact .looser (ih (by omega) (by omega))

theorem Joins.rank_le {level : Level} {kind : Kind} {join : Token → Expr → Expr → Expr}
    (h : Joins level kind join) :
    level.rank ≤ Level.call.rank ∧ level.tighter.rank ≤ Level.call.rank := by
  cases h <;> decide

/-! ## Tokens in a copy -/

theorem bare_eq_of_word {token copy : Token} (h : copy.word = token.word) :
    copy.bare = token.bare := by
  simp only [Token.word, Prod.mk.injEq] at h
  exact Token.bare_eq_iff.2 h

theorem bare_eq_keyword {token copy : Token} {keyword : Keyword}
    (hkind : token.kind = .keyword keyword) (hproper : Proper token)
    (hcopy : copy.kind = .keyword keyword) (hlexeme : copy.lexeme = keyword.text) :
    copy.bare = token.bare := by
  have hspells := hproper.1
  rw [hkind] at hspells
  exact Token.bare_eq_iff.2
    ⟨hcopy.trans hkind.symm, hlexeme.trans (String.toList_inj.1 hspells).symm⟩

theorem bare_eq_symbol {token copy : Token} {symbol : Symbol}
    (hkind : token.kind = .symbol symbol) (hproper : Proper token)
    (hcopy : copy.kind = .symbol symbol) (hlexeme : copy.lexeme = symbol.text) :
    copy.bare = token.bare := by
  have hspells := hproper.1
  rw [hkind] at hspells
  exact Token.bare_eq_iff.2
    ⟨hcopy.trans hkind.symm, hlexeme.trans (String.toList_inj.1 hspells).symm⟩

theorem Begins.append {text : List Char} (h : Begins text) (other : List Char) :
    Begins (text ++ other) := by
  obtain ⟨c, hc, hne⟩ := h
  exact ⟨c, by simp [hc], hne⟩

theorem Begins.head_ne {text : List Char} (h : Begins text) : text.head? ≠ some '=' := by
  obtain ⟨c, hc, hne⟩ := h
  simpa [hc] using hne

theorem begins_name {name : Token} (hkind : name.kind = .identifier) (hproper : Proper name) :
    Begins name.lexeme.toList := by
  have hspells := hproper.1
  rw [hkind] at hspells
  obtain ⟨⟨c, more, heq, hc, -⟩, -⟩ := hspells
  refine ⟨c, by rw [heq]; rfl, ?_⟩
  rintro rfl
  exact absurd hc (by decide)

/-- The name of a proper token. -/
theorem yields_name {name : Token} (hkind : name.kind = .identifier) (hproper : Proper name)
    {text : List Char} {follow : List Char → Prop} {R : List Token → Prop}
    (hbreak : ∀ rest, follow rest → ∀ c ∈ (text ++ rest).head?, ¬ isNamePart c)
    (h : Yields text follow fun ts => ∀ token : Token, token.kind = .identifier →
      token.bare = name.bare → R (token :: ts)) :
    Yields (name.lexeme.toList ++ text) follow R := by
  have hspells := hproper.1
  rw [hkind] at hspells
  refine Yields.token .identifier hspells hbreak (h.imp fun ts hR token hword => ?_)
  rw [String.ofList_toList] at hword
  have hsame : token.word = name.word := by rw [hword, Token.word, hkind]
  exact hR token (congrArg Prod.fst hword) (bare_eq_of_word hsame)

/-! ## Primary expressions -/

theorem copies_primary {ts : List Token} {expr copy : Expr}
    (h : Derives (.phrase .primary) ts copy) (hbare : copy.bare = expr.bare) :
    Copies (.phrase .call) expr ts :=
  ⟨copy, .looser h, hbare⟩

/-- A literal's text is that of its kind. -/
theorem Writes.spells {kind : Kind} {value : Literal} (h : Writes kind value)
    {lexeme : List Char} (hspells : Spells kind lexeme)
    (hfinite : ∀ number, kind = .number number → number.isFinite) :
    Spells kind value.render.toList ∧ Begins value.render.toList ∧
      ∀ rest, Breaks rest → Apart kind rest := by
  cases h with
  | false | true | nil => exact ⟨rfl, ⟨_, rfl, by decide⟩, fun rest hrest => hrest.head⟩
  | number number =>
    have hnumeral := numeral_source (Numeral.not_negative hspells) (hfinite number rfl)
    exact ⟨hnumeral, hnumeral.head, fun rest hrest => hrest.number number⟩
  | string value =>
    refine ⟨⟨by simp [Literal.render], hspells.2⟩, ⟨'"', ?_, by decide⟩, fun _ _ => trivial⟩
    simp [Literal.render]

theorem rendered_literal {token : Token} {value : Literal} (h : Writes token.kind value)
    (hproper : Proper token) : Rendered (.literal value) := by
  obtain ⟨hspells, hhead, hapart⟩ := h.spells hproper.1 hproper.2
  refine ⟨?_, hhead⟩
  rw [← List.append_nil (Expr.render _).toList]
  refine Yields.token token.kind hspells hapart (.done fun copy hword => ?_)
  have hkind : copy.kind = token.kind := congrArg Prod.fst hword
  exact copies_primary (.literal (hkind ▸ h)) rfl

theorem rendered_this {keyword : Token} (h : keyword.kind = .keyword .this)
    (hproper : Proper keyword) : Rendered (.this keyword) := by
  refine ⟨?_, ⟨'t', by simp [Expr.render], by decide⟩⟩
  have htext : (Expr.this keyword).render.toList = Keyword.this.text.toList ++ [] := by
    simp [Expr.render, Keyword.text]
  rw [htext]
  refine Yields.keyword .this (fun rest hrest => hrest.head) (.done fun copy hkind hlexeme => ?_)
  refine copies_primary (.this hkind) ?_
  rw [Expr.bare, Expr.bare, bare_eq_keyword h hproper hkind hlexeme]

theorem rendered_ref {name : Token} (h : name.kind = .identifier) (hproper : Proper name) :
    Rendered (.ref name) := by
  refine ⟨?_, ?_⟩
  · have htext : (Expr.ref name).render.toList = name.lexeme.toList ++ [] :=
      (List.append_nil _).symm
    rw [htext]
    refine yields_name h hproper (fun rest hrest => hrest.head) (.done fun copy hkind hbare => ?_)
    refine copies_primary (.ref hkind) ?_
    rw [Expr.bare, Expr.bare, hbare]
  · exact begins_name h hproper

theorem rendered_super {keyword method : Token} (hsuper : keyword.kind = .keyword .super)
    (hmethod : method.kind = .identifier) (hproper : Proper keyword)
    (hproper' : Proper method) : Rendered (.super keyword method) := by
  refine ⟨?_, ⟨'s', by simp [Expr.render], by decide⟩⟩
  have htext : (Expr.super keyword method).render.toList =
      Keyword.super.text.toList ++ (Symbol.dot.text.toList ++ (method.lexeme.toList ++ [])) := by
    simp [Expr.render, Keyword.text, Symbol.text]
  rw [htext]
  apply Yields.keyword .super
  · intro rest _ c hc
    cases hc
    decide
  apply Yields.symbol .dot (fun _ _ => trivial)
  refine yields_name hmethod hproper' (fun rest hrest => hrest.head) ?_
  refine .done fun name hname hbare dot hdot _ copy hcopy hlexeme => ?_
  refine copies_primary (.super hcopy hdot hname) ?_
  rw [Expr.bare, Expr.bare, bare_eq_keyword hsuper hproper hcopy hlexeme, hbare]

/-! ## Compound expressions -/

theorem rendered_grouping {inner : Expr} (h : Rendered inner) : Rendered (.grouping inner) :=
  h

theorem not_namePart_space : isNamePart ' ' = false := rfl

theorem breaks_space (rest : List Char) : Breaks (' ' :: rest) :=
  breaks_cons rfl (by decide) rest

theorem breaks_symbol {symbol : Symbol} {rest : List Char}
    (h : symbol ∈ [Symbol.leftParen, .rightParen, .comma, .semicolon]) :
    Breaks (symbol.text.toList ++ rest) := by
  simp only [List.mem_cons, List.not_mem_nil, or_false] at h
  rcases h with rfl | rfl | rfl | rfl <;> exact breaks_cons rfl (by decide) rest

/-- What stands between parentheses is a primary expression. -/
theorem yields_parens {text : List Char} {expr : Expr}
    (h : Yields text Breaks (Copies (.phrase .assignment) expr)) :
    Yields (Symbol.leftParen.text.toList ++ (text ++ (Symbol.rightParen.text.toList ++ [])))
      Breaks (Copies (.phrase .call) expr) := by
  apply Yields.symbol .leftParen (fun _ _ => trivial)
  refine h.append (fun rest _ => ?_) ?_
  · rw [List.append_assoc]
    exact breaks_symbol (by simp)
  apply Yields.symbol .rightParen (fun _ _ => trivial)
  refine .done ?_
  rintro right hright - ts ⟨copy, hcopy, hbare⟩ left hleft -
  exact copies_primary (.grouping hleft hcopy hright) hbare

/-- The operator of a proper token, as it is rendered. -/
theorem Joins.render {level : Level} {kind : Kind} {join : Token → Expr → Expr → Expr}
    (h : Joins level kind join) {lexeme : String} (hspells : Spells kind lexeme.toList) :
    (∀ rest, Apart kind (' ' :: rest)) ∧ ∀ mark left right,
      (join mark left right).render = spaced left.render lexeme right.render ∧
        (join mark left right).bare = join mark.bare left.bare right.bare := by
  cases h <;> obtain rfl := String.toList_inj.1 hspells <;>
    exact ⟨by simp [Apart, not_namePart_space], fun mark left right => ⟨rfl, rfl⟩⟩

theorem Rendered.joined {level : Level} {mark : Token} {join : Token → Expr → Expr → Expr}
    {left right : Expr} (hmark : Joins level mark.kind join) (hproper : Proper mark)
    (hleft : Rendered left) (hright : Rendered right) : Rendered (join mark left right) := by
  obtain ⟨hapart, hjoin⟩ := hmark.render hproper.1
  obtain ⟨hrender, hbare⟩ := hjoin mark left right
  obtain ⟨hlevel, htighter⟩ := hmark.rank_le
  refine ⟨?_, ⟨'(', by simp [hrender, spaced], by decide⟩⟩
  have htext : (join mark left right).render.toList = Symbol.leftParen.text.toList ++
      ((left.render.toList ++ ' ' :: (mark.lexeme.toList ++ ' ' :: right.render.toList))
        ++ (Symbol.rightParen.text.toList ++ [])) := by
    simp [hrender, spaced, Symbol.text]
  rw [htext]
  apply yields_parens
  refine hleft.1.append (fun rest _ => breaks_space _) ?_
  refine .blank (.inl rfl) ?_
  refine .token mark.kind hproper.1 (fun rest _ => hapart _) ?_
  refine .blank (.inl rfl) (hright.1.imp ?_)
  rintro us ⟨copyRight, hus, hbareRight⟩ copyMark hword ts ⟨copyLeft, hts, hbareLeft⟩
  rw [String.ofList_toList] at hword
  have hkind : copyMark.kind = mark.kind := congrArg Prod.fst hword
  have hcopy := Derives.joined (hkind ▸ hmark) (hts.loosen hlevel) (hus.loosen htighter)
  refine ⟨_, hcopy.loosen (Nat.zero_le _), ?_⟩
  show (join copyMark copyLeft copyRight).bare = (join mark left right).bare
  rw [(hjoin _ _ _).2, hbare, bare_eq_of_word hword]
  exact congrArg₂ _ hbareLeft hbareRight

theorem Rendered.unary {mark : Token} {op : UnaryOp} {right : Expr}
    (hmark : Prefixes mark.kind op) (hproper : Proper mark) (hright : Rendered right) :
    Rendered (.unary op mark right) := by
  refine ⟨?_, ⟨'(', by simp [Expr.render], by decide⟩⟩
  obtain ⟨hkind, hprefixes⟩ : mark.kind = .symbol op.symbol ∧
      Prefixes (.symbol op.symbol) op := by
    generalize mark.kind = kind at hmark
    cases hmark <;> exact ⟨rfl, by constructor⟩
  have htext : (Expr.unary op mark right).render.toList = Symbol.leftParen.text.toList ++
      ((op.symbol.text.toList ++ right.render.toList) ++
        (Symbol.rightParen.text.toList ++ [])) := by
    simp [Expr.render, Symbol.text]
  rw [htext]
  apply yields_parens
  apply Yields.symbol op.symbol
  · -- nothing rendered begins with the sign that would extend `!`
    intro rest hrest
    cases op with
    | not => exact (hright.2.append rest).head_ne
    | negate => trivial
  refine hright.1.imp ?_
  rintro ts ⟨copy, hts, hbare⟩ copyMark hcopy hlexeme
  have hoperand : Derives (.phrase .unary) ts copy := hts.loosen (by decide)
  have hunary := Derives.unary (hcopy ▸ hprefixes) hoperand
  refine ⟨_, hunary.loosen (Nat.zero_le _), ?_⟩
  show (Expr.unary op copyMark copy).bare = (Expr.unary op mark right).bare
  rw [Expr.bare, Expr.bare, bare_eq_symbol hkind hproper hcopy hlexeme]
  exact congrArg _ hbare

/-- The point before a name does not go on with a number. -/
theorem breaks_dot {name : Token} (hkind : name.kind = .identifier) (hproper : Proper name)
    (rest : List Char) : Breaks (Symbol.dot.text.toList ++ (name.lexeme.toList ++ rest)) := by
  have hspells := hproper.1
  rw [hkind] at hspells
  obtain ⟨⟨c, more, heq, hc, -⟩, -⟩ := hspells
  rw [heq]
  rintro d others hd
  cases hd
  refine ⟨by decide, fun _ e he => ?_⟩
  cases he
  simp [not_isDigit_of_isNameStart hc]

theorem Rendered.get {object : Expr} {name : Token} (hobject : Rendered object)
    (hname : name.kind = .identifier) (hproper : Proper name) : Rendered (.get object name) := by
  have htext : (Expr.get object name).render.toList = object.render.toList ++
      (Symbol.dot.text.toList ++ (name.lexeme.toList ++ [])) := by
    simp [Expr.render, Symbol.text]
  rw [Rendered, htext]
  refine ⟨?_, hobject.2.append _⟩
  refine hobject.1.append (fun rest _ => ?_) ?_
  · simpa using breaks_dot hname hproper rest
  apply Yields.symbol .dot (fun _ _ => trivial)
  refine yields_name hname hproper (fun rest hrest => hrest.head) (.done ?_)
  rintro copyName hcopyName hbareName dot hdot - ts ⟨copy, hts, hbare⟩
  refine ⟨_, .get hts hdot hcopyName, ?_⟩
  show (Expr.get copy copyName).bare = (Expr.get object name).bare
  rw [Expr.bare, Expr.bare, hbareName]
  exact congrArg (Expr.get · _) hbare

theorem Rendered.assign {name : Token} {value : Expr} (hname : name.kind = .identifier)
    (hproper : Proper name) (hvalue : Rendered value) : Rendered (.assign name value) := by
  refine ⟨?_, ⟨'(', by simp [Expr.render, spaced], by decide⟩⟩
  have htext : (Expr.assign name value).render.toList = Symbol.leftParen.text.toList ++
      ((name.lexeme.toList ++ ' ' :: (Symbol.equal.text.toList ++ ' ' :: value.render.toList))
        ++ (Symbol.rightParen.text.toList ++ [])) := by
    simp [Expr.render, spaced, Symbol.text]
  rw [htext]
  apply yields_parens
  apply yields_name hname hproper
  · intro rest _ c hc
    cases hc
    decide
  refine .blank (.inl rfl) ?_
  apply Yields.symbol .equal (fun rest _ => by simp [Apart])
  refine .blank (.inl rfl) (hvalue.1.imp ?_)
  rintro us ⟨copy, hus, hbare⟩ mark hmark - copyName hcopyName hbareName
  refine ⟨_, .assign hcopyName hmark (hus.loosen (Nat.zero_le _)), ?_⟩
  show (Expr.assign copyName copy).bare = (Expr.assign name value).bare
  rw [Expr.bare, Expr.bare, hbareName]
  exact congrArg _ hbare

theorem Rendered.set {object value : Expr} {name : Token} (hobject : Rendered object)
    (hname : name.kind = .identifier) (hproper : Proper name) (hvalue : Rendered value) :
    Rendered (.set object name value) := by
  refine ⟨?_, ⟨'(', by simp [Expr.render, spaced], by decide⟩⟩
  have htext : (Expr.set object name value).render.toList = Symbol.leftParen.text.toList ++
      ((object.render.toList ++ (Symbol.dot.text.toList ++ (name.lexeme.toList ++
        ' ' :: (Symbol.equal.text.toList ++ ' ' :: value.render.toList))))
        ++ (Symbol.rightParen.text.toList ++ [])) := by
    simp [Expr.render, spaced, Symbol.text]
  rw [htext]
  apply yields_parens
  refine hobject.1.append (fun rest _ => ?_) ?_
  · rw [List.append_assoc, List.append_assoc]
    exact breaks_dot hname hproper _
  apply Yields.symbol .dot (fun _ _ => trivial)
  apply yields_name hname hproper
  · intro rest _ c hc
    cases hc
    decide
  refine .blank (.inl rfl) ?_
  apply Yields.symbol .equal (fun rest _ => by simp [Apart])
  refine .blank (.inl rfl) (hvalue.1.imp ?_)
  rintro us ⟨copyValue, hus, hbareValue⟩ mark hmark - copyName hcopyName hbareName dot hdot -
    ts ⟨copy, hts, hbare⟩
  refine ⟨_, .set hts hdot hcopyName hmark (hus.loosen (Nat.zero_le _)), ?_⟩
  show (Expr.set copy copyName copyValue).bare = (Expr.set object name value).bare
  rw [Expr.bare, Expr.bare, hbareName]
  exact congrArg₂ (Expr.set · _ ·) hbare hbareValue

/-! ## Lists of expressions -/

def RenderedArgs (args : List Expr) : Prop :=
  Yields (joinWith ", " (renderArgs args)).toList Breaks (Copies .arguments args)

theorem Rendered.argument {arg : Expr} (h : Rendered arg) : RenderedArgs [arg] := by
  refine h.1.imp ?_
  rintro ts ⟨copy, hts, hbare⟩
  refine ⟨[copy], .argument (hts.loosen (Nat.zero_le _)), ?_⟩
  show bareArgs [copy] = bareArgs [arg]
  rw [bareArgs, bareArgs]
  exact congrArg (· :: _) hbare

theorem RenderedArgs.cons {arg next : Expr} {args : List Expr} (h : Rendered arg)
    (hargs : RenderedArgs (next :: args)) : RenderedArgs (arg :: next :: args) := by
  have htext : (joinWith ", " (renderArgs (arg :: next :: args))).toList = arg.render.toList ++
      (Symbol.comma.text.toList ++ ' ' :: (joinWith ", " (renderArgs (next :: args))).toList) := by
    simp [renderArgs, joinWith, Symbol.text]
  rw [RenderedArgs, htext]
  refine h.1.append (fun rest _ => ?_) ?_
  · rw [List.append_assoc]
    exact breaks_symbol (by simp)
  apply Yields.symbol .comma (fun _ _ => trivial)
  refine .blank (.inl rfl) (Yields.imp hargs ?_)
  rintro us ⟨copies, hus, hbares⟩ comma hcomma - ts ⟨copy, hts, hbare⟩
  refine ⟨copy :: copies, .moreArguments (hts.loosen (Nat.zero_le _)) hcomma hus, ?_⟩
  show bareArgs (copy :: copies) = bareArgs (arg :: next :: args)
  rw [bareArgs, bareArgs]
  exact congrArg₂ (· :: ·) hbare hbares

def RenderedArgList (args : List Expr) : Prop :=
  Yields (joinWith ", " (renderArgs args)).toList Breaks (Copies .argumentList args)

theorem renderedArgList_nil : RenderedArgList [] :=
  .done ⟨[], .noArguments, rfl⟩

theorem RenderedArgs.list {args : List Expr} (h : RenderedArgs args)
    (hcount : args.length ≤ maxArgs) : RenderedArgList args := by
  refine Yields.imp h ?_
  rintro ts ⟨copies, hts, hbares⟩
  have hlength : copies.length = args.length := by
    rw [← length_bareArgs copies, ← length_bareArgs args]
    exact congrArg List.length hbares
  exact ⟨copies, .someArguments hts (hlength ▸ hcount), hbares⟩

theorem Rendered.call {callee : Expr} {paren : Token} {args : List Expr}
    (hcallee : Rendered callee) (hargs : RenderedArgList args)
    (hparen : paren.kind = .symbol .rightParen) (hproper : Proper paren) :
    Rendered (.call callee paren args) := by
  have htext : (Expr.call callee paren args).render.toList = callee.render.toList ++
      (Symbol.leftParen.text.toList ++ ((joinWith ", " (renderArgs args)).toList ++
        (Symbol.rightParen.text.toList ++ []))) := by
    simp [Expr.render, Symbol.text]
  rw [Rendered, htext]
  refine ⟨?_, hcallee.2.append _⟩
  refine hcallee.1.append (fun rest _ => ?_) ?_
  · rw [List.append_assoc]
    exact breaks_symbol (by simp)
  apply Yields.symbol .leftParen (fun _ _ => trivial)
  refine Yields.append hargs (fun rest _ => ?_) ?_
  · rw [List.append_assoc]
    exact breaks_symbol (by simp)
  apply Yields.symbol .rightParen (fun _ _ => trivial)
  refine .done ?_
  rintro right hright hlexeme us ⟨copies, hus, hbares⟩ left hleft - ts ⟨copy, hts, hbare⟩
  refine ⟨_, .call hts hleft hus hright, ?_⟩
  show (Expr.call copy right copies).bare = (Expr.call callee paren args).bare
  rw [Expr.bare, Expr.bare, bare_eq_symbol hparen hproper hright hlexeme]
  exact congrArg₂ (Expr.call · _ ·) hbare hbares

end Moth.Syntax
