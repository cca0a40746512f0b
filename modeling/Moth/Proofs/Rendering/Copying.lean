import Moth.Proofs.Parsing.Exactness
import Moth.Proofs.Parsing.Spacing
import Moth.Proofs.Rendering.Expression
/-!
# The same words somewhere else

Which tree a list of tokens stands for depends on the words of the tokens and not on their places:
from tokens with the same words the grammar derives the same tree, places apart.
-/

namespace Moth

mutual

theorem Expr.bare_placeless : ∀ expr : Expr, (expr.relabel placeless).bare = expr.bare
  | .literal _ | .ref _ | .this _ | .super _ _ => rfl
  | .grouping inner => inner.bare_placeless
  | .unary op mark right => congrArg (Expr.unary op mark.bare) right.bare_placeless
  | .binary op mark left right =>
    congrArg₂ (Expr.binary op mark.bare) left.bare_placeless right.bare_placeless
  | .logical op mark left right =>
    congrArg₂ (Expr.logical op mark.bare) left.bare_placeless right.bare_placeless
  | .assign name value => congrArg (Expr.assign name.bare) value.bare_placeless
  | .call callee paren args =>
    congrArg₂ (Expr.call · paren.bare) callee.bare_placeless (bareArgs_placeless args)
  | .get object name => congrArg (Expr.get · name.bare) object.bare_placeless
  | .set object name value =>
    congrArg₂ (Expr.set · name.bare) object.bare_placeless value.bare_placeless

theorem bareArgs_placeless : ∀ args : List Expr,
    bareArgs (relabelArgs placeless args) = bareArgs args
  | [] => rfl
  | arg :: args => congrArg₂ List.cons arg.bare_placeless (bareArgs_placeless args)

end

theorem map_bare_placeless (value : Option Expr) :
    (value.map (Expr.relabel placeless)).map Expr.bare = value.map Expr.bare := by
  cases value with
  | none => rfl
  | some value => exact congrArg some value.bare_placeless

mutual

theorem Stmt.bare_placeless : ∀ stmt : Stmt, (stmt.relabel placeless).bare = stmt.bare
  | .expression value => congrArg Stmt.expression value.bare_placeless
  | .print value => congrArg Stmt.print value.bare_placeless
  | .var name init => congrArg (Stmt.var name.bare) (map_bare_placeless init)
  | .block body => congrArg Stmt.block (bareAll_placeless body)
  | .ifElse condition yes no => by
    rw [Stmt.relabel, Stmt.bare, Stmt.bare, condition.bare_placeless, yes.bare_placeless,
      bareElse_placeless no]
  | .whileLoop condition body =>
    congrArg₂ Stmt.whileLoop condition.bare_placeless body.bare_placeless
  | .function declaration => congrArg Stmt.function (bareFunction_placeless declaration)
  | .returns keyword value => congrArg (Stmt.returns keyword.bare) (map_bare_placeless value)
  | .classDef name superclass methods => by
    rw [Stmt.relabel, Stmt.bare, Stmt.bare, bareMethods_placeless methods, Option.map_map]
    rfl

theorem bareElse_placeless : ∀ no : Option Stmt, bareElse (relabelElse placeless no) = bareElse no
  | none => rfl
  | some no => congrArg some no.bare_placeless

theorem bareAll_placeless : ∀ body : List Stmt, bareAll (relabelAll placeless body) = bareAll body
  | [] => rfl
  | first :: rest => congrArg₂ List.cons first.bare_placeless (bareAll_placeless rest)

theorem bareFunction_placeless : ∀ declaration : FunctionDecl,
    bareFunction (relabelFunction placeless declaration) = bareFunction declaration
  | ⟨name, params, body⟩ => by
    rw [relabelFunction, bareFunction, bareFunction, bareAll_placeless body, List.map_map]
    rfl

theorem bareMethods_placeless : ∀ methods : List FunctionDecl,
    bareMethods (relabelMethods placeless methods) = bareMethods methods
  | [] => rfl
  | first :: rest =>
    congrArg₂ List.cons (bareFunction_placeless first) (bareMethods_placeless rest)

end

namespace Syntax

/-- The grammar derives from the same words the same program, places apart. -/
theorem Derives.copies {ts ts' : List Token} {program : List Stmt}
    (h : Derives .declarations ts program) (hwords : ts'.map Token.word = ts.map Token.word) :
    Copies .declarations program ts' := by
  have hlength : ts'.length = ts.length := by simpa using congrArg List.length hwords
  have hbares : ts'.map placeless.label = ts.map placeless.label := map_bare_of_words hwords
  -- a parser with a level for every token reads both alike
  let stop : Token := ⟨.eof, "", 1, 0, 0⟩
  let parsed (tokens : List Token) : Parsed (List Stmt) :=
    programFrom (Rules.nested ts.length (ts.length + 1)) ts.length #[] ⟨tokens, stop, #[]⟩
  have hparsed : parsed ts = ⟨program, #[]⟩ := by
    simpa using (programFrom_of_derives (ts.length + 1) stop #[] ts.length #[] h (Nat.le_refl _)
      (Nat.le_refl _)).resolve_right fun hdeep => absurd hdeep.1 (by omega)
  have hrelabel (tokens : List Token) := programFrom_relabel placeless
    (heeds_nested ts.length (ts.length + 1)) ts.length #[] ⟨tokens, stop, #[]⟩
  have halike : (parsed ts').relabel placeless = (parsed ts).relabel placeless := by
    rw [← hrelabel ts', ← hrelabel ts, Cursor.relabel, Cursor.relabel, hbares]
  rw [hparsed] at halike
  have hquiet : (parsed ts').complaints = #[] := by
    simpa [Parsed.relabel] using congrArg Parsed.complaints halike
  obtain ⟨-, hmore⟩ := derives_of_programFrom (sound_nested ts.length (ts.length + 1)) ts.length
    #[] ⟨ts', stop, #[]⟩ hquiet
  obtain ⟨copy, hcopy, hderives⟩ := hmore (Nat.le_of_eq hlength) (Nat.le_of_eq hlength)
  have htree : (parsed ts').tree = copy := hcopy.trans (List.nil_append copy)
  refine ⟨copy, hderives, ?_⟩
  have hsame := congrArg (fun parsed => bareAll parsed.tree) halike
  simp only [Parsed.relabel, bareAll_placeless, htree] at hsame
  exact hsame

/-- Two programs, one behind the other, are a program. -/
theorem Derives.followed {ts us : List Token} {program more : List Stmt}
    (h : Derives .declarations ts program) (hmore : Derives .declarations us more) :
    Derives .declarations (ts ++ us) (program ++ more) := by
  induction program generalizing ts with
  | nil =>
    cases h
    exact hmore
  | cons first rest ih =>
    cases h with
    | moreDeclarations hfirst hrest =>
      rw [List.append_assoc]
      exact .moreDeclarations hfirst (ih hrest)

end Syntax

end Moth
