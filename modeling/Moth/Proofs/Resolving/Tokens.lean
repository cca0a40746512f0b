import Moth.Proofs.Parsing.Relabelling
import Moth.Proofs.Resolving.Parsed
/-!
# The tokens of events

The tokens that the resolver comes to in a tree do not depend on the place where the tree stands,
and a relabelling changes nothing but their labels.
-/

namespace Moth

section

variable (r : Relabelling)

mutual

theorem Expr.eventTokens_relabel (place other : Place) : ∀ expr : Expr,
    eventTokens ((expr.relabel r).events other) = (eventTokens (expr.events place)).map r.label
  | .literal _ => rfl
  | .grouping inner => inner.eventTokens_relabel place other
  | .unary _ _ right => right.eventTokens_relabel place other
  | .binary _ _ left right | .logical _ _ left right => by
    simp only [Expr.relabel, Expr.events, eventTokens_append, List.map_append,
      left.eventTokens_relabel place other, right.eventTokens_relabel place other]
  | .ref _ | .this _ | .super _ _ => rfl
  | .assign name value => by
    simp only [Expr.relabel, Expr.events, eventTokens_append, List.map_append,
      value.eventTokens_relabel place other]
    rfl
  | .call callee _ args => by
    simp only [Expr.relabel, Expr.events, eventTokens_append, List.map_append,
      callee.eventTokens_relabel place other, argTokens_relabel place other args]
  | .get object _ => object.eventTokens_relabel place other
  | .set object _ value => by
    simp only [Expr.relabel, Expr.events, eventTokens_append, List.map_append,
      value.eventTokens_relabel place other, object.eventTokens_relabel place other]

theorem argTokens_relabel (place other : Place) : ∀ args : List Expr,
    eventTokens (argEvents other (relabelArgs r args)) =
      (eventTokens (argEvents place args)).map r.label
  | [] => rfl
  | arg :: args => by
    simp only [relabelArgs, argEvents, eventTokens_append, List.map_append,
      arg.eventTokens_relabel place other, argTokens_relabel place other args]

end

theorem initTokens_relabel (place other : Place) (init : Option Expr) :
    eventTokens (initEvents other (init.map (Expr.relabel r))) =
      (eventTokens (initEvents place init)).map r.label := by
  cases init with
  | none => rfl
  | some init => exact init.eventTokens_relabel r place other

theorem paramTokens_relabel (params : List Token) (place other : Place) :
    eventTokens (paramEvents other (params.map r.label)) =
      (eventTokens (paramEvents place params)).map r.label := by
  induction params generalizing place other with
  | nil => rfl
  | cons param params ih =>
    simp only [List.map_cons, paramEvents, eventTokens_cons, ih (place.set param true)]
    rfl

mutual

theorem Stmt.eventTokens_relabel (place other : Place) : ∀ stmt : Stmt,
    eventTokens ((stmt.relabel r).events other) = (eventTokens (stmt.events place)).map r.label
  | .expression value | .print value => value.eventTokens_relabel r place other
  | .var name init => congrArg (r.label name :: ·) (initTokens_relabel r _ _ init)
  | .block body => allTokens_relabel _ _ body
  | .ifElse condition yes no => by
    simp only [Stmt.relabel, Stmt.events, eventTokens_append, List.map_append,
      condition.eventTokens_relabel r place other, yes.eventTokens_relabel place other,
      elseTokens_relabel place other no]
  | .whileLoop condition body => by
    simp only [Stmt.relabel, Stmt.events, eventTokens_append, List.map_append,
      condition.eventTokens_relabel r place other, body.eventTokens_relabel place other]
  | .function ⟨name, params, body⟩ =>
    congrArg (r.label name :: ·) (functionTokens_relabel _ _ _ _ ⟨name, params, body⟩)
  | .returns keyword value =>
    congrArg (r.label keyword :: ·) (initTokens_relabel r place other value)
  | .classDef name superclass methods => by
    have hmethods := methodTokens_relabel (classContext superclass)
      (classContext (superclass.map r.label)) (place.inClass name superclass methods)
      (other.inClass (r.label name) (superclass.map r.label) (relabelMethods r methods)) methods
    simp only [Stmt.relabel, Stmt.events, eventTokens_cons, eventTokens_append, List.map_cons,
      List.map_append, hmethods]
    cases superclass <;> rfl

theorem elseTokens_relabel (place other : Place) : ∀ no : Option Stmt,
    eventTokens (elseEvents other (relabelElse r no)) =
      (eventTokens (elseEvents place no)).map r.label
  | none => rfl
  | some no => no.eventTokens_relabel place other

theorem allTokens_relabel (place other : Place) : ∀ body : List Stmt,
    eventTokens (eventsAll other (relabelAll r body)) =
      (eventTokens (eventsAll place body)).map r.label
  | [] => rfl
  | first :: rest => by
    simp only [relabelAll, eventsAll, eventTokens_append, List.map_append,
      first.eventTokens_relabel place other, allTokens_relabel (place.after first) _ rest]

theorem functionTokens_relabel (context context' : Context) (place other : Place) :
    ∀ declaration : FunctionDecl,
    eventTokens (functionEvents context' other (relabelFunction r declaration)) =
      (eventTokens (functionEvents context place declaration)).map r.label
  | ⟨name, params, body⟩ => by
    simp only [relabelFunction, functionEvents, eventTokens_append, List.map_append,
      paramTokens_relabel r params (place.inFunction context ⟨name, params, body⟩),
      allTokens_relabel ((place.inFunction context ⟨name, params, body⟩).setAll params) _ body]

theorem methodTokens_relabel (inClass inClass' : ClassContext) (place other : Place) :
    ∀ methods : List FunctionDecl,
    eventTokens (methodEvents inClass' other (relabelMethods r methods)) =
      (eventTokens (methodEvents inClass place methods)).map r.label
  | [] => rfl
  | first :: rest => by
    simp only [relabelMethods, methodEvents, eventTokens_append, List.map_append,
      functionTokens_relabel ⟨methodContext first.name, inClass⟩ _ place other first,
      methodTokens_relabel inClass inClass' place other rest]

end

end

/-! ## At other places -/

def Relabelling.same : Relabelling := ⟨fun token => token, fun _ => rfl⟩

theorem Relabelling.label_same : same.label = id := rfl

mutual

theorem Expr.relabel_same : ∀ expr : Expr, expr.relabel .same = expr
  | .literal _ | .ref _ | .this _ | .super _ _ => rfl
  | .grouping inner => congrArg Expr.grouping inner.relabel_same
  | .unary op mark right => congrArg (Expr.unary op mark) right.relabel_same
  | .binary op mark left right =>
    congrArg₂ (Expr.binary op mark) left.relabel_same right.relabel_same
  | .logical op mark left right =>
    congrArg₂ (Expr.logical op mark) left.relabel_same right.relabel_same
  | .assign name value => congrArg (Expr.assign name) value.relabel_same
  | .call callee paren args =>
    congrArg₂ (Expr.call · paren ·) callee.relabel_same (relabelArgs_same args)
  | .get object name => congrArg (Expr.get · name) object.relabel_same
  | .set object name value =>
    congrArg₂ (Expr.set · name ·) object.relabel_same value.relabel_same

theorem relabelArgs_same : ∀ args : List Expr, relabelArgs .same args = args
  | [] => rfl
  | arg :: args => congrArg₂ List.cons arg.relabel_same (relabelArgs_same args)

end

theorem relabelInit_same (init : Option Expr) : init.map (Expr.relabel .same) = init := by
  cases init with
  | none => rfl
  | some init => exact congrArg some init.relabel_same

mutual

theorem Stmt.relabel_same : ∀ stmt : Stmt, stmt.relabel .same = stmt
  | .expression value => congrArg Stmt.expression value.relabel_same
  | .print value => congrArg Stmt.print value.relabel_same
  | .var name init => congrArg (Stmt.var name) (relabelInit_same init)
  | .block body => congrArg Stmt.block (relabelAll_same body)
  | .ifElse condition yes no => by
    rw [Stmt.relabel, condition.relabel_same, yes.relabel_same, relabelElse_same no]
  | .whileLoop condition body =>
    congrArg₂ Stmt.whileLoop condition.relabel_same body.relabel_same
  | .function declaration => congrArg Stmt.function (relabelFunction_same declaration)
  | .returns keyword value => congrArg (Stmt.returns keyword) (relabelInit_same value)
  | .classDef name superclass methods => by
    rw [Stmt.relabel, relabelMethods_same methods, Relabelling.label_same, Option.map_id]
    rfl

theorem relabelElse_same : ∀ no : Option Stmt, relabelElse .same no = no
  | none => rfl
  | some no => congrArg some no.relabel_same

theorem relabelAll_same : ∀ body : List Stmt, relabelAll .same body = body
  | [] => rfl
  | first :: rest => congrArg₂ List.cons first.relabel_same (relabelAll_same rest)

theorem relabelFunction_same : ∀ declaration : FunctionDecl,
    relabelFunction .same declaration = declaration
  | ⟨name, params, body⟩ => by
    rw [relabelFunction, relabelAll_same body, Relabelling.label_same, List.map_id]
    rfl

theorem relabelMethods_same : ∀ methods : List FunctionDecl, relabelMethods .same methods = methods
  | [] => rfl
  | first :: rest => congrArg₂ List.cons (relabelFunction_same first) (relabelMethods_same rest)

end

theorem Expr.eventTokens_eq (place other : Place) (expr : Expr) :
    eventTokens (expr.events other) = eventTokens (expr.events place) := by
  have htokens := expr.eventTokens_relabel .same place other
  rwa [expr.relabel_same, Relabelling.label_same, List.map_id] at htokens

theorem Stmt.eventTokens_eq (place other : Place) (stmt : Stmt) :
    eventTokens (stmt.events other) = eventTokens (stmt.events place) := by
  have htokens := stmt.eventTokens_relabel .same place other
  rwa [stmt.relabel_same, Relabelling.label_same, List.map_id] at htokens

end Moth
