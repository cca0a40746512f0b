import Moth.Proofs.Resolving.Tokens
/-!
# Uses of tokens

How often a token is used in what a rule of the parser has read: in a tree, how many of the events
in it are about the token.
-/

namespace Moth

class Uses (α : Type) where
  uses (token : Token) : α → Nat

open Uses

instance : Uses Unit := ⟨fun _ _ => 0⟩

instance : Uses Bool := ⟨fun _ _ => 0⟩

instance : Uses Token := ⟨fun token found => [found].count token⟩

instance {α : Type} [Uses α] : Uses (Option α) := ⟨fun token found => found.elim 0 (uses token)⟩

instance {α : Type} [Uses α] : Uses (List α) :=
  ⟨fun token items => items.foldr (uses token · + ·) 0⟩

instance {α : Type} [Uses α] : Uses (Array α) := ⟨fun token items => uses token items.toList⟩

instance : Uses Expr := ⟨fun token expr => (eventTokens (expr.events .top)).count token⟩

instance : Uses Stmt := ⟨fun token stmt => (eventTokens (stmt.events .top)).count token⟩

instance : Uses FunctionDecl :=
  ⟨fun token found => uses token found.name + (uses token found.params + uses token found.body)⟩

section

variable {α : Type} [Uses α] (token : Token) (place : Place)

@[grind =] theorem uses_none : uses token (none : Option α) = 0 := rfl

@[grind =] theorem uses_some (item : α) : uses token (some item) = uses token item := rfl

@[grind =] theorem uses_cons (item : α) (items : List α) :
    uses token (item :: items) = uses token item + uses token items := rfl

@[grind =] theorem uses_toList (items : Array α) : uses token items.toList = uses token items := rfl

@[grind =] theorem uses_push (items : Array α) (item : α) :
    uses token (items.push item) = uses token items + uses token item := by
  rw [← uses_toList, ← uses_toList, Array.toList_push]
  induction items.toList with
  | nil => exact Nat.add_comm ..
  | cons first rest ih => rw [List.cons_append, uses_cons, uses_cons, ih, Nat.add_assoc]

@[grind =] theorem uses_function (found : FunctionDecl) : uses token found =
    uses token found.name + (uses token found.params + uses token found.body) := rfl

@[grind =] theorem Expr.uses_eq (expr : Expr) :
    uses token expr = (eventTokens (expr.events .top)).count token := rfl

@[grind =] theorem Stmt.uses_eq (stmt : Stmt) :
    uses token stmt = (eventTokens (stmt.events .top)).count token := rfl

theorem count_cons_eq_uses (found : Token) (rest : List Token) :
    (found :: rest).count token = uses token found + rest.count token := by
  simp [uses, List.count_cons, Nat.add_comm]

/-! ## Uses in events -/

@[grind =] theorem count_noEvents : (eventTokens []).count token = 0 := rfl

@[grind =] theorem count_consEvents (event : Event) (events : List Event) :
    (eventTokens (event :: events)).count token =
      uses token event.token + (eventTokens events).count token :=
  count_cons_eq_uses ..

@[grind =] theorem count_appendEvents (events more : List Event) :
    (eventTokens (events ++ more)).count token =
      (eventTokens events).count token + (eventTokens more).count token := by
  rw [eventTokens_append, List.count_append]

@[grind =] theorem count_exprEvents (expr : Expr) :
    (eventTokens (expr.events place)).count token = uses token expr :=
  congrArg (List.count token) (expr.eventTokens_eq .top place)

@[grind =] theorem count_argEvents (args : List Expr) :
    (eventTokens (argEvents place args)).count token = uses token args := by
  induction args with
  | nil => rfl
  | cons arg args ih => rw [argEvents, count_appendEvents, count_exprEvents, ih, uses_cons]

@[grind =] theorem count_initEvents (init : Option Expr) :
    (eventTokens (initEvents place init)).count token = uses token init := by
  cases init with
  | none => rfl
  | some init => exact count_exprEvents token place init

@[grind =] theorem count_stmtEvents (stmt : Stmt) :
    (eventTokens (stmt.events place)).count token = uses token stmt :=
  congrArg (List.count token) (stmt.eventTokens_eq .top place)

@[grind =] theorem count_elseEvents (no : Option Stmt) :
    (eventTokens (elseEvents place no)).count token = uses token no := by
  cases no with
  | none => rfl
  | some no => exact count_stmtEvents token place no

@[grind =] theorem count_eventsAll (body : List Stmt) :
    (eventTokens (eventsAll place body)).count token = uses token body := by
  induction body generalizing place with
  | nil => rfl
  | cons first rest ih => rw [eventsAll, count_appendEvents, count_stmtEvents, ih, uses_cons]

theorem count_paramEvents (params : List Token) :
    (eventTokens (paramEvents place params)).count token = uses token params := by
  induction params generalizing place with
  | nil => rfl
  | cons param params ih => rw [paramEvents, count_consEvents, ih]; rfl

@[grind =] theorem count_functionEvents (context : Context) (found : FunctionDecl) :
    (eventTokens (functionEvents context place found)).count token =
      uses token found.params + uses token found.body := by
  rw [functionEvents, count_appendEvents, count_paramEvents, count_eventsAll]

/-- The names of methods are no events. -/
theorem count_methodEvents (inClass : ClassContext) (methods : List FunctionDecl) :
    (eventTokens (methodEvents inClass place methods)).count token ≤ uses token methods := by
  induction methods with
  | nil => exact Nat.le_refl _
  | cons first rest ih =>
    rw [methodEvents, count_appendEvents, count_functionEvents, uses_cons, uses_function]
    omega

@[grind =] theorem count_superclassEvents (name : Token) (superclass : Option Token) :
    (eventTokens (superclassEvents place name superclass)).count token = uses token superclass := by
  cases superclass <;> rfl

end

attribute [grind =] Expr.events Stmt.events Event.token

end Moth
