import Moth.Proofs.Parsing.Abreast
/-!
# Expressions that a semicolon ends

An expression that takes up all tokens is read in the same way when a semicolon and other tokens
follow: no rule for expressions tells the end of the tokens from a semicolon.  The depth to which
things are nested is the same, so if the one is not too deep neither is the other.
-/

namespace Moth.Syntax

open Rule Grammar

/-- Nothing behind the tokens of the first run, and a semicolon behind those of the second. -/
def Fork.terminated {semicolon : Token} (h : semicolon.kind = .symbol .semicolon) : Fork where
  alone := []
  joined := [semicolon]
  inert := nofun
  inert' := by
    rintro _ ⟨⟩
    exact h
  agree noted noted' := noted'.size = noted.size
  push h _ := by simpa using h
  pushEnd h _ _ _ := by simpa using h

/-! ## Print statements -/

/-- An expression between `print` and a semicolon makes a statement, at the same level. -/
theorem declaration_print {bound levels : Nat} {mark semicolon : Token} {expr : Expr}
    {rest more : List Token} {stop : Token} {complaints complaints' : Array ParseComplaint}
    (hmark : mark.kind = .keyword .print) (hsemicolon : semicolon.kind = .symbol .semicolon)
    (h : (Rules.nested bound (levels + 1)).expression ⟨rest, stop, complaints⟩ =
      .ok expr ⟨semicolon :: more, stop, complaints'⟩) :
    (Rules.nested bound (levels + 1)).declaration ⟨mark :: rest, stop, complaints⟩ =
      .ok (some (.print expr)) ⟨more, stop, complaints'⟩ := by
  have hskip (kind : Kind) (hkind : .keyword .print ≠ kind) :
      take? kind ⟨mark :: rest, stop, complaints⟩ = .ok none ⟨mark :: rest, stop, complaints⟩ :=
    take?_other (by simpa [hmark] using hkind) stop complaints
  have hread : expression bound (Rules.nested bound levels) ⟨rest, stop, complaints⟩ =
      .ok expr ⟨semicolon :: more, stop, complaints'⟩ := h
  have hprint : printStatement (expression bound (Rules.nested bound levels))
      ⟨rest, stop, complaints⟩ = .ok (.print expr) ⟨more, stop, complaints'⟩ := by
    rw [printStatement, bind_ok hread, bind_ok (expect_same hsemicolon _ more stop complaints')]
    rfl
  have hstatement : statement bound (Rules.nested bound levels) ⟨mark :: rest, stop, complaints⟩ =
      .ok (.print expr) ⟨more, stop, complaints'⟩ := by
    have hfor := hskip (.keyword .for) (by decide)
    have hif := hskip (.keyword .if) (by decide)
    have hmine := take?_same hmark rest stop complaints
    exact (bind_ok hfor).trans ((bind_ok hif).trans ((bind_ok hmine).trans hprint))
  have hdeclaring : declaring bound (Rules.nested bound levels) ⟨mark :: rest, stop, complaints⟩ =
      .ok (.print expr) ⟨more, stop, complaints'⟩ := by
    have hclass := hskip (.keyword .class) (by decide)
    have hfun := hskip (.keyword .fun) (by decide)
    have hvar := hskip (.keyword .var) (by decide)
    exact (bind_ok hclass).trans ((bind_ok hfun).trans ((bind_ok hvar).trans hstatement))
  show recover (declaring bound (Rules.nested bound levels)) _ = _
  rw [recover, hdeclaring]

/-- What an expression that was parsed without complaint leaves: nothing. -/
theorem expression_of_parseExpression {tokens : List Token} {stop : Token} {levels : Nat}
    {expr : Expr} (h : parseExpression tokens stop levels = ⟨some expr, #[]⟩) :
    (Rules.nested tokens.length levels).expression ⟨tokens, stop, #[]⟩ =
      .ok expr ⟨[], stop, #[]⟩ := by
  have honward := (onward_nested tokens.length levels).expression ⟨tokens, stop, #[]⟩
  rw [parseExpression, wholeExpression, bind_apply] at h
  cases hreply : (Rules.nested tokens.length levels).expression ⟨tokens, stop, #[]⟩ with
  | failed after =>
    rw [hreply] at h
    cases h
  | tooDeep after =>
    rw [hreply] at h
    cases h
  | ok found after =>
    obtain ⟨rest, stop', complaints⟩ := after
    rw [hreply] at h honward
    obtain rfl : stop' = stop := honward.leads.stop
    cases rest with
    | nil =>
      obtain ⟨hfound, hcomplaints⟩ := Parsed.mk.inj h
      cases hfound
      cases hcomplaints
      rfl
    | cons token rest => cases h

/-- An expression that takes up all tokens is read in the same way with a semicolon behind them. -/
theorem expression_terminated {tokens : List Token} {stop semicolon : Token} {expr : Expr}
    {bound levels : Nat} (h : (Rules.nested tokens.length levels).expression ⟨tokens, stop, #[]⟩ =
      .ok expr ⟨[], stop, #[]⟩) (hsemicolon : semicolon.kind = .symbol .semicolon)
    (hbound : tokens.length ≤ bound) (stop' : Token) :
    (Rules.nested bound levels).expression ⟨tokens ++ [semicolon], stop', #[]⟩ =
      .ok expr ⟨[semicolon], stop', #[]⟩ := by
  have hleads := ((onward_nested bound levels).expression
    ⟨tokens ++ [semicolon], stop', #[]⟩).leads
  have halike := (abreast_nested hbound levels).1 tokens ⟨tokens ++ [], stop, #[]⟩
    ⟨tokens ++ [semicolon], stop', #[]⟩ (Nat.lt_succ_self _)
    (.mk rfl : Beside (.terminated hsemicolon) tokens _ _)
  rw [List.append_nil, h] at halike
  generalize (Rules.nested bound levels).expression ⟨tokens ++ [semicolon], stop', #[]⟩ = reply
    at hleads halike ⊢
  cases halike with
  | @ok _ rest _ joined _ hbeside =>
    obtain ⟨rest', stop'', complaints⟩ := joined
    obtain rfl : rest = [] := (List.append_eq_nil_iff.1 hbeside.rest.symm).1
    obtain rfl : rest' = [semicolon] := hbeside.rest'
    obtain rfl : complaints = #[] := Array.size_eq_zero_iff.1 hbeside.agree
    obtain rfl : stop'' = stop' := hleads.stop
    rfl

/-- An expression that is parsed by itself is parsed as what a print statement shows. -/
theorem parseProgram_print {tokens : List Token} {stop : Token} {levels : Nat} {expr : Expr}
    (h : parseExpression tokens stop levels = ⟨some expr, #[]⟩) {mark semicolon : Token}
    (hmark : mark.kind = .keyword .print) (hsemicolon : semicolon.kind = .symbol .semicolon)
    (stop' : Token) :
    parseProgram (mark :: (tokens ++ [semicolon])) stop' levels = ⟨[.print expr], #[]⟩ := by
  have hexpression := expression_of_parseExpression h
  have hread := expression_terminated hexpression hsemicolon
    (Nat.le_add_right tokens.length 2) stop'
  have hdeclaration : (Rules.nested (tokens.length + 2) levels).declaration
      ⟨mark :: (tokens ++ [semicolon]), stop', #[]⟩ =
      .ok (some (.print expr)) ⟨[], stop', #[]⟩ := by
    cases levels with
    | zero => cases hexpression
    | succ levels => exact declaration_print hmark hsemicolon hread
  have hlength : (mark :: (tokens ++ [semicolon])).length = tokens.length + 2 := by simp
  rw [parseProgram, hlength, programFrom]
  simp only [List.isEmpty_cons, Bool.false_eq_true, if_false, hdeclaration]
  rfl

end Moth.Syntax
