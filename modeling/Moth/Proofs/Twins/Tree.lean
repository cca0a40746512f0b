import Moth.Proofs.Resolving.Events
import Moth.Proofs.Twins.Names
/-!
# Twin trees

Two trees are twins if they differ only in groupings, in the places of their tokens, and in the
names of variables, where all variables of a scope are renamed by one renaming.  What is asked of
the references, and which renamings there may be, is left open: it is a `Matching`.
-/

namespace Moth

/-- What is asked of two references, each a token and the name that it stands for, under the
renamings of the scopes around them, from the inside out. -/
structure Matching where
  allows : Renaming → Prop
  pairs : List Renaming → Token → String → Token → String → Prop

def Expr.core : Expr → Expr
  | .grouping inner => inner.core
  | expr => expr

section

variable (M : Matching)

mutual

def Expr.Twin (ρs : List Renaming) : Expr → Expr → Prop
  | .literal value, other => other.core = .literal value
  | .grouping inner, other => inner.Twin ρs other
  | .unary op _ right, other =>
    ∃ mark' right', other.core = .unary op mark' right' ∧ right.Twin ρs right'
  | .binary op _ left right, other => ∃ mark' left' right',
    other.core = .binary op mark' left' right' ∧ left.Twin ρs left' ∧ right.Twin ρs right'
  | .logical op _ left right, other => ∃ mark' left' right',
    other.core = .logical op mark' left' right' ∧ left.Twin ρs left' ∧ right.Twin ρs right'
  | .ref name, other =>
    ∃ name', other.core = .ref name' ∧ M.pairs ρs name name.lexeme name' name'.lexeme
  | .assign name value, other => ∃ name' value', other.core = .assign name' value' ∧
    M.pairs ρs name name.lexeme name' name'.lexeme ∧ value.Twin ρs value'
  | .call callee _ args, other => ∃ callee' paren' args',
    other.core = .call callee' paren' args' ∧ callee.Twin ρs callee' ∧ argTwins ρs args args'
  | .get object name, other => ∃ object' name', other.core = .get object' name' ∧
    object.Twin ρs object' ∧ name'.lexeme = name.lexeme
  | .set object name value, other => ∃ object' name' value',
    other.core = .set object' name' value' ∧ object.Twin ρs object' ∧
      name'.lexeme = name.lexeme ∧ value.Twin ρs value'
  | .this keyword, other => ∃ keyword', other.core = .this keyword' ∧
    M.pairs ρs keyword keyword.lexeme keyword' keyword'.lexeme
  | .super keyword method, other => ∃ keyword' method', other.core = .super keyword' method' ∧
    M.pairs ρs keyword "super" keyword' "super" ∧ method'.lexeme = method.lexeme

def argTwins (ρs : List Renaming) : List Expr → List Expr → Prop
  | [], others => others = []
  | arg :: args, others =>
    ∃ arg' args', others = arg' :: args' ∧ arg.Twin ρs arg' ∧ argTwins ρs args args'

end

def initTwin (ρs : List Renaming) : Option Expr → Option Expr → Prop
  | none, other => other = none
  | some init, other => ∃ init', other = some init' ∧ init.Twin M ρs init'

def superclassTwin (ρs : List Renaming) : Option Token → Option Token → Prop
  | none, other => other = none
  | some name, other =>
    ∃ name', other = some name' ∧ M.pairs ρs name name.lexeme name' name'.lexeme

/-- The scopes around the methods of a class: one for `this`, and before it one for `super`. -/
def classRenamings (ρs : List Renaming) (superclass : Option Token) : List Renaming :=
  .same :: if superclass.isSome then .same :: ρs else ρs

def NameStays (ρs : List Renaming) (name name' : Token) : Prop :=
  name'.lexeme = name.lexeme ∧ Renaming.along ρs 0 name.lexeme = name.lexeme

mutual

def Stmt.Twin (ρs : List Renaming) : Stmt → Stmt → Prop
  | .expression value, other => ∃ value', other = .expression value' ∧ value.Twin M ρs value'
  | .print value, other => ∃ value', other = .print value' ∧ value.Twin M ρs value'
  | .var name init, other => ∃ name' init', other = .var name' init' ∧
    name'.lexeme = Renaming.along ρs 0 name.lexeme ∧ initTwin M ρs init init'
  | .block body, other =>
    ∃ body' ρ, other = .block body' ∧ M.allows ρ ∧ stmtTwins (ρ :: ρs) body body'
  | .ifElse condition yes no, other => ∃ condition' yes' no',
    other = .ifElse condition' yes' no' ∧ condition.Twin M ρs condition' ∧ yes.Twin ρs yes' ∧
      elseTwin ρs no no'
  | .whileLoop condition body, other => ∃ condition' body',
    other = .whileLoop condition' body' ∧ condition.Twin M ρs condition' ∧ body.Twin ρs body'
  | .function declaration, other => ∃ declaration', other = .function declaration' ∧
    NameStays ρs declaration.name declaration'.name ∧ functionTwin ρs declaration declaration'
  | .returns _ value, other =>
    ∃ keyword' value', other = .returns keyword' value' ∧ initTwin M ρs value value'
  | .classDef name superclass methods, other => ∃ name' superclass' methods',
    other = .classDef name' superclass' methods' ∧ NameStays ρs name name' ∧
      superclassTwin M ρs superclass superclass' ∧
      methodTwins (classRenamings ρs superclass) methods methods'
termination_by structural stmt => stmt

def elseTwin (ρs : List Renaming) : Option Stmt → Option Stmt → Prop
  | none, other => other = none
  | some no, other => ∃ no', other = some no' ∧ no.Twin ρs no'
termination_by structural no => no

def stmtTwins (ρs : List Renaming) : List Stmt → List Stmt → Prop
  | [], others => others = []
  | first :: rest, others =>
    ∃ first' rest', others = first' :: rest' ∧ first.Twin ρs first' ∧ stmtTwins ρs rest rest'
termination_by structural body => body

def functionTwin (ρs : List Renaming) : FunctionDecl → FunctionDecl → Prop
  | ⟨name, params, body⟩, other => other.name.lexeme = name.lexeme ∧ ∃ ρ, M.allows ρ ∧
    other.params.map (·.lexeme) = params.map (fun param => ρ param.lexeme) ∧
      stmtTwins (ρ :: ρs) body other.body
termination_by structural declaration => declaration

def methodTwins (ρs : List Renaming) : List FunctionDecl → List FunctionDecl → Prop
  | [], others => others = []
  | first :: rest, others =>
    ∃ first' rest', others = first' :: rest' ∧ functionTwin ρs first first' ∧
      methodTwins ρs rest rest'
termination_by structural methods => methods

end

end

/-! ## Groupings -/

namespace Expr

theorem events_core (place : Place) : ∀ expr : Expr, expr.core.events place = expr.events place
  | .grouping inner => inner.events_core place
  | .literal _ | .unary .. | .binary .. | .logical .. | .ref _ | .assign .. | .call .. | .get ..
  | .set .. | .this _ | .super .. => rfl

/-- Only what is inside the groupings counts. -/
theorem Twin.congr {M : Matching} {ρs : List Renaming} {other other' : Expr}
    (h : other.core = other'.core) : ∀ expr : Expr, expr.Twin M ρs other → expr.Twin M ρs other'
  | .grouping inner, htwin => Twin.congr h inner htwin
  | .literal _, htwin | .unary .., htwin | .binary .., htwin | .logical .., htwin | .ref _, htwin
  | .assign .., htwin | .call .., htwin | .get .., htwin | .set .., htwin | .this _, htwin
  | .super .., htwin => by
    unfold Expr.Twin at htwin ⊢
    rwa [← h]

theorem Twin.grouped {M : Matching} {ρs : List Renaming} {expr inner : Expr}
    (h : expr.Twin M ρs inner) : expr.Twin M ρs (.grouping inner) :=
  Twin.congr (show inner.core = (Expr.grouping inner).core from rfl) expr h

theorem Twin.of_core {M : Matching} {ρs : List Renaming} {other : Expr} : ∀ expr : Expr,
    expr.core.Twin M ρs other → expr.Twin M ρs other
  | .grouping inner, htwin => Twin.of_core inner htwin
  | .literal _, htwin | .unary .., htwin | .binary .., htwin | .logical .., htwin | .ref _, htwin
  | .assign .., htwin | .call .., htwin | .get .., htwin | .set .., htwin | .this _, htwin
  | .super .., htwin => htwin

end Expr

section

variable {M : Matching} {ρs : List Renaming}

theorem functionTwin.name : ∀ {declaration other : FunctionDecl},
    functionTwin M ρs declaration other → other.name.lexeme = declaration.name.lexeme
  | ⟨_, _, _⟩, _, h => h.1

theorem functionTwin.inside : ∀ {declaration other : FunctionDecl},
    functionTwin M ρs declaration other → ∃ ρ, M.allows ρ ∧
      other.params.map (·.lexeme) = declaration.params.map (fun param => ρ param.lexeme) ∧
        stmtTwins M (ρ :: ρs) declaration.body other.body
  | ⟨_, _, _⟩, _, h => h.2

end

/-! ## Other matchings -/

structure Matching.Le (M N : Matching) : Prop where
  allows : ∀ {ρ}, M.allows ρ → N.allows ρ
  pairs : ∀ {ρs token name token' name'}, M.pairs ρs token name token' name' →
    N.pairs ρs token name token' name'

section

variable {M N : Matching}

mutual

theorem Expr.Twin.mono (h : M.Le N) (ρs : List Renaming) : ∀ (expr : Expr) {other : Expr},
    expr.Twin M ρs other → expr.Twin N ρs other
  | .literal _, _, htwin => htwin
  | .grouping inner, _, htwin => Expr.Twin.mono h ρs inner htwin
  | .unary _ _ right, _, ⟨mark', right', hcore, hright⟩ =>
    ⟨mark', right', hcore, Expr.Twin.mono h ρs right hright⟩
  | .binary _ _ left right, _, ⟨mark', left', right', hcore, hleft, hright⟩ =>
    ⟨mark', left', right', hcore, Expr.Twin.mono h ρs left hleft, Expr.Twin.mono h ρs right hright⟩
  | .logical _ _ left right, _, ⟨mark', left', right', hcore, hleft, hright⟩ =>
    ⟨mark', left', right', hcore, Expr.Twin.mono h ρs left hleft, Expr.Twin.mono h ρs right hright⟩
  | .ref _, _, ⟨name', hcore, hname⟩ => ⟨name', hcore, h.pairs hname⟩
  | .assign _ value, _, ⟨name', value', hcore, hname, hvalue⟩ =>
    ⟨name', value', hcore, h.pairs hname, Expr.Twin.mono h ρs value hvalue⟩
  | .call callee _ args, _, ⟨callee', paren', args', hcore, hcallee, hargs⟩ =>
    ⟨callee', paren', args', hcore, Expr.Twin.mono h ρs callee hcallee,
      argTwins_mono h ρs args hargs⟩
  | .get object _, _, ⟨object', name', hcore, hobject, hname⟩ =>
    ⟨object', name', hcore, Expr.Twin.mono h ρs object hobject, hname⟩
  | .set object _ value, _, ⟨object', name', value', hcore, hobject, hname, hvalue⟩ =>
    ⟨object', name', value', hcore, Expr.Twin.mono h ρs object hobject, hname,
      Expr.Twin.mono h ρs value hvalue⟩
  | .this _, _, ⟨keyword', hcore, hkeyword⟩ => ⟨keyword', hcore, h.pairs hkeyword⟩
  | .super _ _, _, ⟨keyword', method', hcore, hkeyword, hmethod⟩ =>
    ⟨keyword', method', hcore, h.pairs hkeyword, hmethod⟩

theorem argTwins_mono (h : M.Le N) (ρs : List Renaming) : ∀ (args : List Expr) {others : List Expr},
    argTwins M ρs args others → argTwins N ρs args others
  | [], _, htwins => htwins
  | arg :: args, _, ⟨arg', args', heq, harg, hargs⟩ =>
    ⟨arg', args', heq, Expr.Twin.mono h ρs arg harg, argTwins_mono h ρs args hargs⟩

end

theorem initTwin_mono (h : M.Le N) (ρs : List Renaming) :
    ∀ (init : Option Expr) {other : Option Expr},
    initTwin M ρs init other → initTwin N ρs init other
  | none, _, htwin => htwin
  | some init, _, ⟨init', heq, hinit⟩ => ⟨init', heq, Expr.Twin.mono h ρs init hinit⟩

theorem superclassTwin_mono (h : M.Le N) (ρs : List Renaming) :
    ∀ (superclass : Option Token) {other : Option Token},
    superclassTwin M ρs superclass other → superclassTwin N ρs superclass other
  | none, _, htwin => htwin
  | some _, _, ⟨name', heq, hname⟩ => ⟨name', heq, h.pairs hname⟩

mutual

theorem Stmt.Twin.mono (h : M.Le N) : ∀ (ρs : List Renaming) (stmt : Stmt) {other : Stmt},
    stmt.Twin M ρs other → stmt.Twin N ρs other
  | ρs, .expression value, _, ⟨value', heq, hvalue⟩ =>
    ⟨value', heq, Expr.Twin.mono h ρs value hvalue⟩
  | ρs, .print value, _, ⟨value', heq, hvalue⟩ => ⟨value', heq, Expr.Twin.mono h ρs value hvalue⟩
  | ρs, .var _ init, _, ⟨name', init', heq, hname, hinit⟩ =>
    ⟨name', init', heq, hname, initTwin_mono h ρs init hinit⟩
  | ρs, .block body, _, ⟨body', ρ, heq, hρ, hbody⟩ =>
    ⟨body', ρ, heq, h.allows hρ, stmtTwins_mono h (ρ :: ρs) body hbody⟩
  | ρs, .ifElse condition yes no, _, ⟨condition', yes', no', heq, hcondition, hyes, hno⟩ =>
    ⟨condition', yes', no', heq, Expr.Twin.mono h ρs condition hcondition,
      Stmt.Twin.mono h ρs yes hyes, elseTwin_mono h ρs no hno⟩
  | ρs, .whileLoop condition body, _, ⟨condition', body', heq, hcondition, hbody⟩ =>
    ⟨condition', body', heq, Expr.Twin.mono h ρs condition hcondition,
      Stmt.Twin.mono h ρs body hbody⟩
  | ρs, .function declaration, _, ⟨declaration', heq, hname, hdeclaration⟩ =>
    ⟨declaration', heq, hname, functionTwin_mono h ρs declaration hdeclaration⟩
  | ρs, .returns _ value, _, ⟨keyword', value', heq, hvalue⟩ =>
    ⟨keyword', value', heq, initTwin_mono h ρs value hvalue⟩
  | ρs, .classDef _ superclass methods, _,
      ⟨name', superclass', methods', heq, hname, hsuper, hmethods⟩ =>
    ⟨name', superclass', methods', heq, hname, superclassTwin_mono h ρs superclass hsuper,
      methodTwins_mono h (classRenamings ρs superclass) methods hmethods⟩
termination_by structural _ stmt => stmt

theorem elseTwin_mono (h : M.Le N) : ∀ (ρs : List Renaming) (no : Option Stmt)
    {other : Option Stmt}, elseTwin M ρs no other → elseTwin N ρs no other
  | _, none, _, htwin => htwin
  | ρs, some no, _, ⟨no', heq, hno⟩ => ⟨no', heq, Stmt.Twin.mono h ρs no hno⟩
termination_by structural _ no => no

theorem stmtTwins_mono (h : M.Le N) : ∀ (ρs : List Renaming) (body : List Stmt)
    {others : List Stmt}, stmtTwins M ρs body others → stmtTwins N ρs body others
  | _, [], _, htwins => htwins
  | ρs, first :: rest, _, ⟨first', rest', heq, hfirst, hrest⟩ =>
    ⟨first', rest', heq, Stmt.Twin.mono h ρs first hfirst, stmtTwins_mono h ρs rest hrest⟩
termination_by structural _ body => body

theorem functionTwin_mono (h : M.Le N) : ∀ (ρs : List Renaming) (declaration : FunctionDecl)
    {other : FunctionDecl}, functionTwin M ρs declaration other →
    functionTwin N ρs declaration other
  | ρs, ⟨_, _, body⟩, _, ⟨hname, ρ, hρ, hparams, hbody⟩ =>
    ⟨hname, ρ, h.allows hρ, hparams, stmtTwins_mono h (ρ :: ρs) body hbody⟩
termination_by structural _ declaration => declaration

theorem methodTwins_mono (h : M.Le N) : ∀ (ρs : List Renaming) (methods : List FunctionDecl)
    {others : List FunctionDecl}, methodTwins M ρs methods others → methodTwins N ρs methods others
  | _, [], _, htwins => htwins
  | ρs, first :: rest, _, ⟨first', rest', heq, hfirst, hrest⟩ =>
    ⟨first', rest', heq, functionTwin_mono h ρs first hfirst, methodTwins_mono h ρs rest hrest⟩
termination_by structural _ methods => methods

end

end

/-! ## The other way round -/

def Matching.flip (M : Matching) : Matching where
  allows ρ := M.allows ρ.symm
  pairs ρs token name token' name' := M.pairs (ρs.map .symm) token' name' token name

namespace Matching

variable {M : Matching} {ρs : List Renaming}

theorem flip_pairs {token token' : Token} {name name' : String}
    (h : M.pairs ρs token name token' name') :
    M.flip.pairs (ρs.map .symm) token' name' token name := by
  show M.pairs ((ρs.map .symm).map .symm) token name token' name'
  rwa [Renaming.map_symm_map_symm]

end Matching

theorem Renaming.along_symm {ρs : List Renaming} {hops : Nat} {name name' : String}
    (h : name' = Renaming.along ρs hops name) :
    name = Renaming.along (ρs.map Renaming.symm) hops name' := by
  rw [h, along_map_symm, symm_apply_apply]

theorem NameStays.symm {ρs : List Renaming} {name name' : Token} (h : NameStays ρs name name') :
    NameStays (ρs.map .symm) name' name :=
  ⟨h.1.symm, by rw [h.1]; exact (Renaming.along_symm h.2.symm).symm⟩

section

variable {M : Matching}

mutual

theorem Expr.Twin.symm (ρs : List Renaming) : ∀ (expr : Expr) {other : Expr},
    expr.Twin M ρs other → other.Twin M.flip (ρs.map .symm) expr
  | .grouping inner, _, htwin => (Expr.Twin.symm ρs inner htwin).grouped
  | .literal _, _, hcore => Expr.Twin.of_core _ (by rw [hcore]; rfl)
  | .unary _ mark right, _, ⟨_, _, hcore, hright⟩ =>
    Expr.Twin.of_core _ (by rw [hcore]; exact ⟨mark, right, rfl, Expr.Twin.symm ρs right hright⟩)
  | .binary _ mark left right, _, ⟨_, _, _, hcore, hleft, hright⟩ => Expr.Twin.of_core _ (by
    rw [hcore]
    exact ⟨mark, left, right, rfl, Expr.Twin.symm ρs left hleft, Expr.Twin.symm ρs right hright⟩)
  | .logical _ mark left right, _, ⟨_, _, _, hcore, hleft, hright⟩ => Expr.Twin.of_core _ (by
    rw [hcore]
    exact ⟨mark, left, right, rfl, Expr.Twin.symm ρs left hleft, Expr.Twin.symm ρs right hright⟩)
  | .ref name, _, ⟨_, hcore, hname⟩ =>
    Expr.Twin.of_core _ (by rw [hcore]; exact ⟨name, rfl, Matching.flip_pairs hname⟩)
  | .assign name value, _, ⟨_, _, hcore, hname, hvalue⟩ => Expr.Twin.of_core _ (by
    rw [hcore]
    exact ⟨name, value, rfl, Matching.flip_pairs hname, Expr.Twin.symm ρs value hvalue⟩)
  | .call callee paren args, _, ⟨_, _, _, hcore, hcallee, hargs⟩ => Expr.Twin.of_core _ (by
    rw [hcore]
    exact ⟨callee, paren, args, rfl, Expr.Twin.symm ρs callee hcallee,
      argTwins_symm ρs args hargs⟩)
  | .get object name, _, ⟨_, _, hcore, hobject, hname⟩ => Expr.Twin.of_core _ (by
    rw [hcore]
    exact ⟨object, name, rfl, Expr.Twin.symm ρs object hobject, hname.symm⟩)
  | .set object name value, _, ⟨_, _, _, hcore, hobject, hname, hvalue⟩ => Expr.Twin.of_core _ (by
    rw [hcore]
    exact ⟨object, name, value, rfl, Expr.Twin.symm ρs object hobject, hname.symm,
      Expr.Twin.symm ρs value hvalue⟩)
  | .this keyword, _, ⟨_, hcore, hkeyword⟩ =>
    Expr.Twin.of_core _ (by rw [hcore]; exact ⟨keyword, rfl, Matching.flip_pairs hkeyword⟩)
  | .super keyword method, _, ⟨_, _, hcore, hkeyword, hmethod⟩ => Expr.Twin.of_core _ (by
    rw [hcore]
    exact ⟨keyword, method, rfl, Matching.flip_pairs hkeyword, hmethod.symm⟩)

theorem argTwins_symm (ρs : List Renaming) : ∀ (args : List Expr) {others : List Expr},
    argTwins M ρs args others → argTwins M.flip (ρs.map .symm) others args
  | [], _, rfl => rfl
  | arg :: args, _, ⟨_, _, rfl, harg, hargs⟩ =>
    ⟨arg, args, rfl, Expr.Twin.symm ρs arg harg, argTwins_symm ρs args hargs⟩

end

theorem initTwin_symm {ρs : List Renaming} : ∀ {init other : Option Expr},
    initTwin M ρs init other → initTwin M.flip (ρs.map .symm) other init
  | none, _, rfl => rfl
  | some init, _, ⟨_, rfl, hinit⟩ => ⟨init, rfl, Expr.Twin.symm ρs init hinit⟩

theorem superclassTwin_symm {ρs : List Renaming} : ∀ {superclass other : Option Token},
    superclassTwin M ρs superclass other → superclassTwin M.flip (ρs.map .symm) other superclass
  | none, _, rfl => rfl
  | some name, _, ⟨_, rfl, hname⟩ => ⟨name, rfl, Matching.flip_pairs hname⟩

theorem classRenamings_symm {ρs : List Renaming} {superclass superclass' : Option Token}
    (h : superclassTwin M ρs superclass superclass') :
    (classRenamings ρs superclass).map .symm = classRenamings (ρs.map .symm) superclass' := by
  cases superclass with
  | none =>
    obtain rfl : superclass' = none := h
    rfl
  | some name =>
    obtain ⟨name', rfl, -⟩ := h
    rfl

mutual

theorem Stmt.Twin.symm : ∀ (ρs : List Renaming) (stmt : Stmt) {other : Stmt},
    stmt.Twin M ρs other → other.Twin M.flip (ρs.map .symm) stmt
  | ρs, .expression value, _, ⟨_, rfl, hvalue⟩ => ⟨value, rfl, Expr.Twin.symm ρs value hvalue⟩
  | ρs, .print value, _, ⟨_, rfl, hvalue⟩ => ⟨value, rfl, Expr.Twin.symm ρs value hvalue⟩
  | _, .var name init, _, ⟨_, _, rfl, hname, hinit⟩ =>
    ⟨name, init, rfl, Renaming.along_symm hname, initTwin_symm hinit⟩
  | ρs, .block body, _, ⟨_, ρ, rfl, hρ, hbody⟩ =>
    ⟨body, ρ.symm, rfl, hρ, stmtTwins_symm (ρ :: ρs) body hbody⟩
  | ρs, .ifElse condition yes no, _, ⟨_, _, _, rfl, hcondition, hyes, hno⟩ =>
    ⟨condition, yes, no, rfl, Expr.Twin.symm ρs condition hcondition, Stmt.Twin.symm ρs yes hyes,
      elseTwin_symm ρs no hno⟩
  | ρs, .whileLoop condition body, _, ⟨_, _, rfl, hcondition, hbody⟩ =>
    ⟨condition, body, rfl, Expr.Twin.symm ρs condition hcondition, Stmt.Twin.symm ρs body hbody⟩
  | ρs, .function declaration, _, ⟨_, rfl, hname, hdeclaration⟩ =>
    ⟨declaration, rfl, hname.symm, functionTwin_symm ρs declaration hdeclaration⟩
  | _, .returns keyword value, _, ⟨_, _, rfl, hvalue⟩ =>
    ⟨keyword, value, rfl, initTwin_symm hvalue⟩
  | ρs, .classDef name superclass methods, _, ⟨_, _, _, rfl, hname, hsuper, hmethods⟩ =>
    ⟨name, superclass, methods, rfl, hname.symm, superclassTwin_symm hsuper,
      classRenamings_symm hsuper ▸
        methodTwins_symm (classRenamings ρs superclass) methods hmethods⟩
termination_by structural _ stmt => stmt

theorem elseTwin_symm : ∀ (ρs : List Renaming) (no : Option Stmt) {other : Option Stmt},
    elseTwin M ρs no other → elseTwin M.flip (ρs.map .symm) other no
  | _, none, _, rfl => rfl
  | ρs, some no, _, ⟨_, rfl, hno⟩ => ⟨no, rfl, Stmt.Twin.symm ρs no hno⟩
termination_by structural _ no => no

theorem stmtTwins_symm : ∀ (ρs : List Renaming) (body : List Stmt) {others : List Stmt},
    stmtTwins M ρs body others → stmtTwins M.flip (ρs.map .symm) others body
  | _, [], _, rfl => rfl
  | ρs, first :: rest, _, ⟨_, _, rfl, hfirst, hrest⟩ =>
    ⟨first, rest, rfl, Stmt.Twin.symm ρs first hfirst, stmtTwins_symm ρs rest hrest⟩
termination_by structural _ body => body

theorem functionTwin_symm : ∀ (ρs : List Renaming) (declaration : FunctionDecl)
    {other : FunctionDecl}, functionTwin M ρs declaration other →
    functionTwin M.flip (ρs.map .symm) other declaration
  | ρs, ⟨name, params, body⟩, ⟨name', params', body'⟩, ⟨hname, ρ, hρ, hparams, hbody⟩ => by
    refine ⟨hname.symm, ρ.symm, hρ, ?_, stmtTwins_symm (ρ :: ρs) body hbody⟩
    have hback := congrArg (List.map ρ.symm) hparams
    simp only [List.map_map, Function.comp_def, Renaming.symm_apply_apply] at hback
    exact hback.symm
termination_by structural _ declaration => declaration

theorem methodTwins_symm : ∀ (ρs : List Renaming) (methods : List FunctionDecl)
    {others : List FunctionDecl}, methodTwins M ρs methods others →
    methodTwins M.flip (ρs.map .symm) others methods
  | _, [], _, rfl => rfl
  | ρs, first :: rest, _, ⟨_, _, rfl, hfirst, hrest⟩ =>
    ⟨first, rest, rfl, functionTwin_symm ρs first hfirst, methodTwins_symm ρs rest hrest⟩
termination_by structural _ methods => methods

end

end

/-! ## A tree and itself -/

def Renaming.none (depth : Nat) : List Renaming := List.replicate depth .same

@[simp] theorem Renaming.along_none (depth hops : Nat) :
    Renaming.along (Renaming.none depth) hops = .same := by
  induction depth generalizing hops with
  | zero => rfl
  | succ depth ih => cases hops with
    | zero => rfl
    | succ hops => exact ih hops

def Matching.Fixes (M : Matching) (events : List Event) : Prop :=
  ∀ event ∈ events, ∀ reference, event.reference? = some reference →
    ∀ depth name, M.pairs (Renaming.none depth) reference.token name reference.token name

namespace Matching.Fixes

variable {M : Matching} {events more : List Event} {event : Event}

theorem left (h : M.Fixes (events ++ more)) : M.Fixes events :=
  fun event hevent => h event (List.mem_append_left _ hevent)

theorem right (h : M.Fixes (events ++ more)) : M.Fixes more :=
  fun event hevent => h event (List.mem_append_right _ hevent)

theorem tail (h : M.Fixes (event :: events)) : M.Fixes events :=
  fun event hevent => h event (List.mem_cons_of_mem _ hevent)

theorem head (h : M.Fixes (event :: events)) {reference : Reference}
    (href : event.reference? = some reference) (depth : Nat) (name : String) :
    M.pairs (Renaming.none depth) reference.token name reference.token name :=
  h event List.mem_cons_self reference href depth name

end Matching.Fixes

section

variable {M : Matching} {place : Place}

mutual

theorem Expr.Twin.refl (depth : Nat) : ∀ expr : Expr, M.Fixes (expr.events place) →
    expr.Twin M (Renaming.none depth) expr
  | .grouping inner, h => Expr.Twin.grouped (Expr.Twin.refl depth inner h)
  | .literal _, _ => rfl
  | .unary _ mark right, h => ⟨mark, right, rfl, Expr.Twin.refl depth right h⟩
  | .binary _ mark left right, h => ⟨mark, left, right, rfl, Expr.Twin.refl depth left h.left,
    Expr.Twin.refl depth right h.right⟩
  | .logical _ mark left right, h => ⟨mark, left, right, rfl, Expr.Twin.refl depth left h.left,
    Expr.Twin.refl depth right h.right⟩
  | .ref name, h => ⟨name, rfl, h.head rfl depth name.lexeme⟩
  | .assign name value, h => ⟨name, value, rfl, h.right.head rfl depth name.lexeme,
    Expr.Twin.refl depth value h.left⟩
  | .call callee paren args, h => ⟨callee, paren, args, rfl, Expr.Twin.refl depth callee h.left,
    argTwins_refl depth args h.right⟩
  | .get object name, h => ⟨object, name, rfl, Expr.Twin.refl depth object h, rfl⟩
  | .set object name value, h => ⟨object, name, value, rfl, Expr.Twin.refl depth object h.right,
    rfl, Expr.Twin.refl depth value h.left⟩
  | .this keyword, h => ⟨keyword, rfl, h.head rfl depth keyword.lexeme⟩
  | .super keyword method, h => ⟨keyword, method, rfl, h.head rfl depth "super", rfl⟩

theorem argTwins_refl (depth : Nat) : ∀ args : List Expr, M.Fixes (argEvents place args) →
    argTwins M (Renaming.none depth) args args
  | [], _ => rfl
  | arg :: args, h =>
    ⟨arg, args, rfl, Expr.Twin.refl depth arg h.left, argTwins_refl depth args h.right⟩

end

theorem initTwin_refl (depth : Nat) : ∀ {init : Option Expr}, M.Fixes (initEvents place init) →
    initTwin M (Renaming.none depth) init init
  | none, _ => rfl
  | some init, h => ⟨init, rfl, Expr.Twin.refl depth init h⟩

theorem superclassTwin_refl (depth : Nat) {name : Token} : ∀ {superclass : Option Token},
    M.Fixes (superclassEvents place name superclass) →
    superclassTwin M (Renaming.none depth) superclass superclass
  | none, _ => rfl
  | some superclass, h => ⟨superclass, rfl, h.head rfl depth superclass.lexeme⟩

theorem NameStays.refl (depth : Nat) (name : Token) : NameStays (Renaming.none depth) name name :=
  ⟨rfl, by rw [Renaming.along_none, Renaming.same_apply]⟩

theorem classRenamings_none (depth : Nat) (superclass : Option Token) :
    ∃ deeper, classRenamings (Renaming.none depth) superclass = Renaming.none deeper := by
  cases superclass with
  | none => exact ⟨depth + 1, rfl⟩
  | some name => exact ⟨depth + 2, rfl⟩

mutual

theorem Stmt.Twin.refl (hsame : M.allows .same) : ∀ (depth : Nat) (place : Place) (stmt : Stmt),
    M.Fixes (stmt.events place) → stmt.Twin M (Renaming.none depth) stmt
  | depth, _, .expression value, h => ⟨value, rfl, Expr.Twin.refl depth value h⟩
  | depth, _, .print value, h => ⟨value, rfl, Expr.Twin.refl depth value h⟩
  | depth, _, .var name init, h =>
    ⟨name, init, rfl, by rw [Renaming.along_none, Renaming.same_apply], initTwin_refl depth h.tail⟩
  | depth, place, .block body, h =>
    ⟨body, .same, rfl, hsame, stmtTwins_refl hsame (depth + 1) _ body h⟩
  | depth, place, .ifElse condition yes no, h =>
    ⟨condition, yes, no, rfl, Expr.Twin.refl depth condition h.left,
      Stmt.Twin.refl hsame depth place yes h.right.left,
      elseTwin_refl hsame depth place no h.right.right⟩
  | depth, place, .whileLoop condition body, h =>
    ⟨condition, body, rfl, Expr.Twin.refl depth condition h.left,
      Stmt.Twin.refl hsame depth place body h.right⟩
  | depth, place, .function declaration, h =>
    ⟨declaration, rfl, .refl depth declaration.name,
      functionTwin_refl hsame depth _ _ declaration h.tail⟩
  | depth, _, .returns keyword value, h => ⟨keyword, value, rfl, initTwin_refl depth h.tail⟩
  | depth, place, .classDef name superclass methods, h => by
    refine ⟨name, superclass, methods, rfl, .refl depth name,
      superclassTwin_refl depth h.tail.left, ?_⟩
    obtain ⟨deeper, hdeeper⟩ := classRenamings_none depth superclass
    rw [hdeeper]
    exact methodTwins_refl hsame deeper _ _ methods h.tail.right
termination_by structural _ _ stmt => stmt

theorem elseTwin_refl (hsame : M.allows .same) : ∀ (depth : Nat) (place : Place)
    (no : Option Stmt), M.Fixes (elseEvents place no) → elseTwin M (Renaming.none depth) no no
  | _, _, none, _ => rfl
  | depth, place, some no, h => ⟨no, rfl, Stmt.Twin.refl hsame depth place no h⟩
termination_by structural _ _ no => no

theorem stmtTwins_refl (hsame : M.allows .same) : ∀ (depth : Nat) (place : Place)
    (body : List Stmt), M.Fixes (eventsAll place body) →
    stmtTwins M (Renaming.none depth) body body
  | _, _, [], _ => rfl
  | depth, place, first :: rest, h =>
    ⟨first, rest, rfl, Stmt.Twin.refl hsame depth place first h.left,
      stmtTwins_refl hsame depth _ rest h.right⟩
termination_by structural _ _ body => body

theorem functionTwin_refl (hsame : M.allows .same) : ∀ (depth : Nat) (context : Context)
    (place : Place) (declaration : FunctionDecl),
    M.Fixes (functionEvents context place declaration) →
    functionTwin M (Renaming.none depth) declaration declaration
  | depth, _, _, ⟨_, _, body⟩, h =>
    ⟨rfl, .same, hsame, rfl, stmtTwins_refl hsame (depth + 1) _ body h.right⟩
termination_by structural _ _ _ declaration => declaration

theorem methodTwins_refl (hsame : M.allows .same) : ∀ (depth : Nat) (inClass : ClassContext)
    (place : Place) (methods : List FunctionDecl),
    M.Fixes (methodEvents inClass place methods) →
    methodTwins M (Renaming.none depth) methods methods
  | _, _, _, [], _ => rfl
  | depth, inClass, place, first :: rest, h =>
    ⟨first, rest, rfl, functionTwin_refl hsame depth _ place first h.left,
      methodTwins_refl hsame depth inClass place rest h.right⟩
termination_by structural _ _ _ methods => methods

end

end

end Moth
