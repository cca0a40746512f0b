import Moth.Proofs.Rendering.Bare
import Moth.Proofs.Twins.Tree
/-!
# Twins that are written otherwise

A twin stays a twin when it is written in another way: with other groupings, and at other places.
Trees that are equal when bare are twins of the same trees.
-/

namespace Moth

@[simp] theorem Token.lexeme_bare (token : Token) : token.bare.lexeme = token.lexeme := rfl

theorem lexeme_bareFunction (declaration : FunctionDecl) :
    (bareFunction declaration).name.lexeme = declaration.name.lexeme := by
  cases declaration
  rfl

/-- Of the reference on the left only the name counts. -/
def Matching.Blind (M : Matching) : Prop :=
  ∀ {ρs token name token' name'} (other : Token), M.pairs ρs token name token' name' →
    M.pairs ρs other name token' name'

section

variable {M : Matching}

theorem Matching.Blind.pairs_bare (hM : M.Blind) {ρs : List Renaming} {token token' : Token}
    {name name' : String} :
    M.pairs ρs token.bare name token' name' ↔ M.pairs ρs token name token' name' :=
  ⟨hM token, hM token.bare⟩

/-! ## Bare trees on the left -/

mutual

theorem Expr.Twin.bare_iff (hM : M.Blind) (ρs : List Renaming) : ∀ (expr : Expr) {other : Expr},
    expr.bare.Twin M ρs other ↔ expr.Twin M ρs other
  | .literal _, _ => .rfl
  | .grouping inner, _ => Expr.Twin.bare_iff hM ρs inner
  | .unary _ _ right, _ => by
    simp only [Expr.bare, Expr.Twin, Expr.Twin.bare_iff hM ρs right]
  | .binary _ _ left right, _ | .logical _ _ left right, _ => by
    simp only [Expr.bare, Expr.Twin, Expr.Twin.bare_iff hM ρs left,
      Expr.Twin.bare_iff hM ρs right]
  | .ref _, _ | .this _, _ | .super _ _, _ => by
    simp only [Expr.bare, Expr.Twin, hM.pairs_bare, Token.lexeme_bare]
  | .assign _ value, _ => by
    simp only [Expr.bare, Expr.Twin, hM.pairs_bare, Token.lexeme_bare,
      Expr.Twin.bare_iff hM ρs value]
  | .call callee _ args, _ => by
    simp only [Expr.bare, Expr.Twin, Expr.Twin.bare_iff hM ρs callee,
      argTwins_bare_iff hM ρs args]
  | .get object _, _ => by
    simp only [Expr.bare, Expr.Twin, Token.lexeme_bare, Expr.Twin.bare_iff hM ρs object]
  | .set object _ value, _ => by
    simp only [Expr.bare, Expr.Twin, Token.lexeme_bare, Expr.Twin.bare_iff hM ρs object,
      Expr.Twin.bare_iff hM ρs value]

theorem argTwins_bare_iff (hM : M.Blind) (ρs : List Renaming) : ∀ (args : List Expr)
    {others : List Expr}, argTwins M ρs (bareArgs args) others ↔ argTwins M ρs args others
  | [], _ => .rfl
  | arg :: args, _ => by
    simp only [bareArgs, argTwins, Expr.Twin.bare_iff hM ρs arg, argTwins_bare_iff hM ρs args]

end

theorem initTwin_bare_iff (hM : M.Blind) (ρs : List Renaming) (init : Option Expr)
    {other : Option Expr} :
    initTwin M ρs (init.map Expr.bare) other ↔ initTwin M ρs init other := by
  cases init with
  | none => rfl
  | some init => simp only [Option.map_some, initTwin, Expr.Twin.bare_iff hM ρs init]

theorem superclassTwin_bare_iff (hM : M.Blind) (ρs : List Renaming) (superclass : Option Token)
    {other : Option Token} :
    superclassTwin M ρs (superclass.map Token.bare) other ↔
      superclassTwin M ρs superclass other := by
  cases superclass with
  | none => rfl
  | some name => simp only [Option.map_some, superclassTwin, hM.pairs_bare, Token.lexeme_bare]

theorem classRenamings_bare (ρs : List Renaming) (superclass : Option Token) :
    classRenamings ρs (superclass.map Token.bare) = classRenamings ρs superclass := by
  rw [classRenamings, classRenamings, Option.isSome_map]

mutual

theorem Stmt.Twin.bare_iff (hM : M.Blind) : ∀ (ρs : List Renaming) (stmt : Stmt) {other : Stmt},
    stmt.bare.Twin M ρs other ↔ stmt.Twin M ρs other
  | ρs, .expression value, _ | ρs, .print value, _ => by
    simp only [Stmt.bare, Stmt.Twin, Expr.Twin.bare_iff hM ρs value]
  | ρs, .var _ init, _ => by
    simp only [Stmt.bare, Stmt.Twin, Token.lexeme_bare, initTwin_bare_iff hM ρs init]
  | ρs, .block body, _ => by
    simp only [Stmt.bare, Stmt.Twin, stmtTwins_bare_iff hM _ body]
  | ρs, .ifElse condition yes no, _ => by
    simp only [Stmt.bare, Stmt.Twin, Expr.Twin.bare_iff hM ρs condition,
      Stmt.Twin.bare_iff hM ρs yes, elseTwin_bare_iff hM ρs no]
  | ρs, .whileLoop condition body, _ => by
    simp only [Stmt.bare, Stmt.Twin, Expr.Twin.bare_iff hM ρs condition,
      Stmt.Twin.bare_iff hM ρs body]
  | ρs, .function declaration, _ => by
    simp only [Stmt.bare, Stmt.Twin, NameStays, lexeme_bareFunction,
      functionTwin_bare_iff hM ρs declaration]
  | ρs, .returns _ value, _ => by
    simp only [Stmt.bare, Stmt.Twin, initTwin_bare_iff hM ρs value]
  | ρs, .classDef _ superclass methods, _ => by
    simp only [Stmt.bare, Stmt.Twin, NameStays, Token.lexeme_bare, classRenamings_bare,
      superclassTwin_bare_iff hM ρs superclass, methodTwins_bare_iff hM _ methods]
termination_by structural _ stmt => stmt

theorem elseTwin_bare_iff (hM : M.Blind) : ∀ (ρs : List Renaming) (no : Option Stmt)
    {other : Option Stmt}, elseTwin M ρs (bareElse no) other ↔ elseTwin M ρs no other
  | _, none, _ => .rfl
  | ρs, some no, _ => by simp only [bareElse, elseTwin, Stmt.Twin.bare_iff hM ρs no]
termination_by structural _ no => no

theorem stmtTwins_bare_iff (hM : M.Blind) : ∀ (ρs : List Renaming) (body : List Stmt)
    {others : List Stmt}, stmtTwins M ρs (bareAll body) others ↔ stmtTwins M ρs body others
  | _, [], _ => .rfl
  | ρs, first :: rest, _ => by
    simp only [bareAll, stmtTwins, Stmt.Twin.bare_iff hM ρs first, stmtTwins_bare_iff hM ρs rest]
termination_by structural _ body => body

theorem functionTwin_bare_iff (hM : M.Blind) : ∀ (ρs : List Renaming) (declaration : FunctionDecl)
    {other : FunctionDecl},
    functionTwin M ρs (bareFunction declaration) other ↔ functionTwin M ρs declaration other
  | _, ⟨_, _, body⟩, _ => by
    simp only [bareFunction, functionTwin, Token.lexeme_bare, List.map_map, Function.comp_def,
      stmtTwins_bare_iff hM _ body]
termination_by structural _ declaration => declaration

theorem methodTwins_bare_iff (hM : M.Blind) : ∀ (ρs : List Renaming) (methods : List FunctionDecl)
    {others : List FunctionDecl},
    methodTwins M ρs (bareMethods methods) others ↔ methodTwins M ρs methods others
  | _, [], _ => .rfl
  | ρs, first :: rest, _ => by
    simp only [bareMethods, methodTwins, functionTwin_bare_iff hM ρs first,
      methodTwins_bare_iff hM ρs rest]
termination_by structural _ methods => methods

end

/-! ## On the right -/

theorem Matching.flip_flip_le (M : Matching) : M.flip.flip.Le M where
  allows hρ := hρ
  pairs {ρs token name token' name'} hpair := by
    have hback : M.pairs ((ρs.map .symm).map .symm) token name token' name' := hpair
    rwa [Renaming.map_symm_map_symm] at hback

/-- The twin is seen from the other side, where it may be written in any way. -/
theorem stmtTwins_respell (hM : M.flip.Blind) (ρs : List Renaming) (body : List Stmt)
    {others others' : List Stmt} (h : stmtTwins M ρs body others)
    (hbare : bareAll others = bareAll others') : stmtTwins M ρs body others' := by
  have hflip := (stmtTwins_bare_iff hM (ρs.map .symm) others).2 (stmtTwins_symm ρs body h)
  rw [hbare, stmtTwins_bare_iff hM (ρs.map .symm) others'] at hflip
  have hback := stmtTwins_symm (ρs.map .symm) others' hflip
  rw [Renaming.map_symm_map_symm] at hback
  exact stmtTwins_mono M.flip_flip_le ρs body hback

end

end Moth
