import Moth.Proofs.Resolving.Standing
import Moth.Proofs.Twins.Resolved
/-!
# Renaming a local variable

A variable of a block, or a parameter or variable of a function, gets a new name at its
declaration and at the references that lead to it, and nowhere else.  If the new name is not in
use, the program with the new name is a twin of the program, where the scope of the variable
exchanges the two names and all other scopes keep theirs.
-/

namespace Moth

def Stmt.variable? : Stmt → Option Token
  | .var name _ => some name
  | _ => none

/-- A local variable gets a new name.  It is known by the token that declares it. -/
structure LocalRenaming where
  declared : Token
  fresh : String
  /-- Where the references of the program lead. -/
  links : Resolution

namespace LocalRenaming

variable (r : LocalRenaming)

/-- One scope further in.  From the scope of the variable on, the distance to it is counted. -/
def enter (names : List Token) : Option Nat → Option Nat
  | some depth => some (depth + 1)
  | none => if r.declared ∈ names then some 0 else none

def declaration (depth : Option Nat) (name : Token) : Token :=
  if depth = some 0 ∧ name = r.declared then { name with lexeme := r.fresh } else name

/-- A reference is renamed if it leads to the scope of the variable, and has its name. -/
def reference : Option Nat → Token → Token
  | none, name => name
  | some depth, name =>
    if r.links.hops? name = some depth ∧ name.lexeme = r.declared.lexeme then
      { name with lexeme := r.fresh }
    else name

theorem declaration_cases (depth : Option Nat) (name : Token) :
    r.declaration depth name = name ∨
      r.declaration depth name = { name with lexeme := r.fresh } := by
  unfold declaration
  split
  · exact .inr rfl
  · exact .inl rfl

theorem reference_cases (depth : Option Nat) (name : Token) :
    r.reference depth name = name ∨ r.reference depth name = { name with lexeme := r.fresh } := by
  unfold reference
  split
  · exact .inl rfl
  · split
    · exact .inr rfl
    · exact .inl rfl

end LocalRenaming

section

variable (r : LocalRenaming)

mutual

def Expr.rename (depth : Option Nat) : Expr → Expr
  | .literal value => .literal value
  | .grouping inner => .grouping (inner.rename depth)
  | .unary op mark right => .unary op mark (right.rename depth)
  | .binary op mark left right => .binary op mark (left.rename depth) (right.rename depth)
  | .logical op mark left right => .logical op mark (left.rename depth) (right.rename depth)
  | .ref name => .ref (r.reference depth name)
  | .assign name value => .assign (r.reference depth name) (value.rename depth)
  | .call callee paren args => .call (callee.rename depth) paren (renameArgs depth args)
  | .get object name => .get (object.rename depth) name
  | .set object name value => .set (object.rename depth) name (value.rename depth)
  | .this keyword => .this keyword
  | .super keyword method => .super keyword method

def renameArgs (depth : Option Nat) : List Expr → List Expr
  | [] => []
  | arg :: args => arg.rename depth :: renameArgs depth args

end

mutual

def Stmt.rename (depth : Option Nat) : Stmt → Stmt
  | .expression value => .expression (value.rename r depth)
  | .print value => .print (value.rename r depth)
  | .var name init => .var (r.declaration depth name) (init.map (Expr.rename r depth))
  | .block body => .block (renameAll (r.enter (body.filterMap Stmt.variable?) depth) body)
  | .ifElse condition yes no =>
    .ifElse (condition.rename r depth) (yes.rename depth) (renameElse depth no)
  | .whileLoop condition body => .whileLoop (condition.rename r depth) (body.rename depth)
  | .function declaration => .function (renameFunction depth declaration)
  | .returns keyword value => .returns keyword (value.map (Expr.rename r depth))
  | .classDef name superclass methods =>
    .classDef name (superclass.map (r.reference depth))
      (renameMethods (r.enter [] (if superclass.isSome then r.enter [] depth else depth)) methods)

def renameElse (depth : Option Nat) : Option Stmt → Option Stmt
  | none => none
  | some no => some (no.rename depth)

def renameAll (depth : Option Nat) : List Stmt → List Stmt
  | [] => []
  | first :: rest => first.rename depth :: renameAll depth rest

def renameFunction (depth : Option Nat) : FunctionDecl → FunctionDecl
  | ⟨name, params, body⟩ =>
    ⟨name, params.map (r.declaration (r.enter (params ++ body.filterMap Stmt.variable?) depth)),
      renameAll (r.enter (params ++ body.filterMap Stmt.variable?) depth) body⟩

def renameMethods (depth : Option Nat) : List FunctionDecl → List FunctionDecl
  | [] => []
  | first :: rest => renameFunction depth first :: renameMethods depth rest

end

end

/-! ## Names of a scope -/

theorem Quiet.left {events more : List Event} (h : Quiet (events ++ more)) : Quiet events :=
  fun event hevent => h event (List.mem_append_left _ hevent)

theorem Quiet.right {events more : List Event} (h : Quiet (events ++ more)) : Quiet more :=
  fun event hevent => h event (List.mem_append_right _ hevent)

namespace Place

variable {place : Place}

theorem innermost?_set (h : place.frames ≠ []) (token : Token) (finished : Bool) (name : String) :
    (place.set token finished).innermost? name =
      if token.lexeme = name then some finished else place.innermost? name := by
  obtain ⟨context, frames⟩ := place
  cases frames with
  | nil => exact absurd rfl h
  | cons frame outer => exact Bindings.find?_set frame.names token.lexeme name finished

theorem frames_set (h : place.frames ≠ []) (token : Token) (finished : Bool) :
    (place.set token finished).frames ≠ [] := by
  obtain ⟨context, frames⟩ := place
  cases frames with
  | nil => exact absurd rfl h
  | cons frame outer => exact List.cons_ne_nil _ _

theorem frames_after (h : place.frames ≠ []) (stmt : Stmt) : (place.after stmt).frames ≠ [] := by
  unfold Place.after
  cases stmt.declared? with
  | none => exact h
  | some name => exact frames_set h name true

/-- What is declared behind a statement is new there, so it is another name than that of the
statement, and it was new before. -/
theorem innermost?_after (h : place.frames ≠ []) {stmt : Stmt} {name : String}
    (hnone : (place.after stmt).innermost? name = none) :
    (∀ declared, stmt.declared? = some declared → declared.lexeme ≠ name) ∧
      place.innermost? name = none := by
  unfold Place.after at hnone
  cases hdeclared : stmt.declared? with
  | none =>
    rw [hdeclared] at hnone
    exact ⟨nofun, hnone⟩
  | some declared =>
    rw [hdeclared] at hnone
    simp only [innermost?_set h] at hnone
    split at hnone
    · cases hnone
    · next hne =>
      refine ⟨?_, hnone⟩
      rintro _ ⟨⟩
      exact hne

end Place

theorem Stmt.declaration_mem {stmt : Stmt} {name : Token} (h : stmt.declared? = some name)
    (place : Place) : .declaration name place ∈ stmt.events place := by
  cases stmt <;> cases h <;> exact List.mem_cons_self

theorem innermost?_of_quiet {name : Token} {place : Place}
    (h : (Event.declaration name place).complaint? = none) :
    place.innermost? name.lexeme = none := by
  rw [Event.complaint?] at h
  split at h
  · cases h
  · next hnone => exact Option.not_isSome_iff_eq_none.1 hnone

/-- The names that are declared in a scope are new there, and no two of them are the same. -/
theorem declared_apart {body : List Stmt} {place : Place} (hframes : place.frames ≠ [])
    (h : Quiet (eventsAll place body)) :
    (∀ stmt ∈ body, ∀ name, stmt.declared? = some name → place.innermost? name.lexeme = none) ∧
      ∀ stmt ∈ body, ∀ other ∈ body, ∀ name name', stmt.declared? = some name →
        other.declared? = some name' → name.lexeme = name'.lexeme → stmt = other := by
  induction body generalizing place with
  | nil => exact ⟨nofun, nofun⟩
  | cons first rest ih =>
    obtain ⟨hnew, hapart⟩ := ih (Place.frames_after hframes first) h.right
    have hrest := fun stmt hstmt name hname =>
      Place.innermost?_after hframes (hnew stmt hstmt name hname)
    have hfirst : ∀ name, first.declared? = some name → place.innermost? name.lexeme = none :=
      fun name hname => innermost?_of_quiet (h.left _ (first.declaration_mem hname place))
    refine ⟨List.forall_mem_cons.2 ⟨hfirst, fun stmt hstmt name hname =>
      (hrest stmt hstmt name hname).2⟩, ?_⟩
    intro stmt hstmt other hother name name' hname hname' heq
    rcases List.mem_cons.1 hstmt with rfl | hstmt' <;>
      rcases List.mem_cons.1 hother with rfl | hother'
    · rfl
    · exact absurd heq ((hrest other hother' name' hname').1 name hname)
    · exact absurd heq.symm ((hrest stmt hstmt' name hname).1 name' hname')
    · exact hapart stmt hstmt' other hother' name name' hname hname' heq

/-- The parameters of a function are variables that stand before its body. -/
theorem eventsAll_params (params : List Token) (body : List Stmt) (place : Place) :
    eventsAll place (params.map (Stmt.var · none) ++ body) =
      paramEvents place params ++ eventsAll (place.setAll params) body := by
  induction params generalizing place with
  | nil => rfl
  | cons param params ih => exact congrArg (Event.declaration param place :: ·) (ih _)

theorem variables_params (params : List Token) (body : List Stmt) :
    (params.map (Stmt.var · none) ++ body).filterMap Stmt.variable? =
      params ++ body.filterMap Stmt.variable? := by
  rw [List.filterMap_append, List.filterMap_map]
  exact congrArg (· ++ _) List.filterMap_some

theorem Stmt.declared?_of_variable? {stmt : Stmt} {name : Token} (h : stmt.variable? = some name) :
    stmt.declared? = some name := by
  cases stmt <;> cases h
  rfl

namespace LocalRenaming

variable (r : LocalRenaming)

/-- In the scope of the variable no other statement declares its name. -/
def Sole (stmt : Stmt) : Prop :=
  ∀ name, stmt.declared? = some name → name.lexeme = r.declared.lexeme →
    stmt.variable? = some r.declared

theorem sole_of_quiet {body : List Stmt} {place : Place} (hframes : place.frames ≠ [])
    (h : Quiet (eventsAll place body)) (hmem : r.declared ∈ body.filterMap Stmt.variable?) :
    ∀ stmt ∈ body, r.Sole stmt := by
  obtain ⟨source, hsource, hvariable⟩ := List.mem_filterMap.1 hmem
  intro stmt hstmt name hname heq
  have hsame := (declared_apart hframes h).2 stmt hstmt source hsource name r.declared hname
    (Stmt.declared?_of_variable? hvariable) heq
  rw [hsame, hvariable]

end LocalRenaming

end Moth
