import Moth.Proofs.Execution.Code
import Moth.Proofs.Resolving.Tokens
/-!
# Where tokens come from

A relabelling that keeps the tokens of a text keeps all that is made of them: the trees that they
are parsed into and the tokens of every complaint.  For any list of tokens there is a relabelling
that keeps those and no others, so no stage has a token from anywhere else.
-/

namespace Moth

variable {r : Relabelling}

/-! ## Parsing -/

theorem forall_of_map_eq {α : Type} {f : α → α} {items : List α} (h : items.map f = items) :
    ∀ item ∈ items, f item = item :=
  List.map_inj_left.1 (h.trans items.map_id.symm)

theorem map_label_of_forall {tokens : List Token} (h : ∀ token ∈ tokens, r.label token = token) :
    tokens.map r.label = tokens :=
  (List.map_congr_left h).trans tokens.map_id

theorem kept_of_complaints {complaints : Array ParseComplaint}
    (h : complaints.map (ParseComplaint.relabel r) = complaints) :
    ∀ complaint ∈ complaints, r.label complaint.token = complaint.token := by
  intro complaint hmem
  have hlist : complaints.toList.map (ParseComplaint.relabel r) = complaints.toList := by
    rw [← Array.toList_map, h]
  have hsame := forall_of_map_eq hlist complaint (Array.mem_toList_iff.2 hmem)
  exact congrArg ParseComplaint.token hsame

theorem parseProgram_kept {tokens : List Token} {stop : Token} {levels : Nat}
    (htokens : ∀ token ∈ tokens, r.label token = token) (hstop : r.label stop = stop) :
    (∀ stmt ∈ (parseProgram tokens stop levels).tree, stmt.relabel r = stmt) ∧
      ∀ complaint ∈ (parseProgram tokens stop levels).complaints,
        r.label complaint.token = complaint.token := by
  have hparsed := parseProgram_relabel r tokens stop levels
  rw [map_label_of_forall htokens, hstop] at hparsed
  constructor
  · have htree := (congrArg Parsed.tree hparsed).symm
    simp only [Parsed.relabel, relabelAll_eq_map] at htree
    exact forall_of_map_eq htree
  · exact kept_of_complaints (congrArg Parsed.complaints hparsed).symm

theorem wholeExpression_follows {rules : Rules} (h : Syntax.Heeds r rules) :
    Syntax.Follows r (Expr.relabel r) (wholeExpression rules) (wholeExpression rules) := by
  apply Syntax.Follows.bind h.expression
  intro expr
  apply Syntax.Follows.atEnd
  intro ended
  cases ended with
  | true => exact .done rfl
  | false => exact .fails

theorem parseExpression_kept {tokens : List Token} {stop : Token} {levels : Nat}
    (htokens : ∀ token ∈ tokens, r.label token = token) (hstop : r.label stop = stop) :
    (∀ expr, (parseExpression tokens stop levels).tree = some expr → expr.relabel r = expr) ∧
      ∀ complaint ∈ (parseExpression tokens stop levels).complaints,
        r.label complaint.token = complaint.token := by
  have hfollows := wholeExpression_follows (Syntax.heeds_nested (r := r) tokens.length levels)
    ⟨tokens, stop, #[]⟩
  have hcursor : Cursor.relabel r ⟨tokens, stop, #[]⟩ = ⟨tokens, stop, #[]⟩ := by
    simp only [Cursor.relabel, map_label_of_forall htokens, hstop, Array.map_empty]
  rw [hcursor] at hfollows
  rw [parseExpression]
  generalize wholeExpression (Rules.nested tokens.length levels) ⟨tokens, stop, #[]⟩ = reply
    at hfollows ⊢
  cases reply with
  | ok expr cursor =>
    obtain ⟨hexpr, hkept⟩ := Reply.ok.inj hfollows
    refine ⟨fun found hfound => ?_, kept_of_complaints (congrArg Cursor.complaints hkept).symm⟩
    cases hfound
    exact hexpr.symm
  | failed cursor =>
    have hkept := Reply.failed.inj hfollows
    refine ⟨fun found hfound => ?_, kept_of_complaints (congrArg Cursor.complaints hkept).symm⟩
    cases hfound
  | tooDeep cursor =>
    have hkept := Reply.tooDeep.inj hfollows
    have hdeep : (cursor.complainAt cursor.peek .tooMuchNesting).relabel r =
        cursor.complainAt cursor.peek .tooMuchNesting := by
      rw [← Cursor.complainAt_relabel, ← Cursor.peek_relabel, ← hkept]
    refine ⟨fun found hfound => ?_, kept_of_complaints (congrArg Cursor.complaints hdeep)⟩
    cases hfound

/-! ## Trees -/

theorem Expr.parts_kept {expr : Expr} (h : expr.relabel r = expr) :
    ∀ part ∈ expr.parts, part.relabel r = part := by
  cases expr with
  | call callee paren args =>
    simp only [Expr.relabel, Expr.call.injEq, relabelArgs_eq_map] at h
    exact List.forall_mem_cons.2 ⟨h.1, forall_of_map_eq h.2.2⟩
  | _ => simp_all [Expr.parts]

theorem Expr.marks_kept {expr : Expr} (h : expr.relabel r = expr) :
    ∀ mark ∈ expr.marks, r.label mark = mark := by
  cases expr <;> simp_all [Expr.marks]

/-- What a relabelling keeps that keeps a function. -/
theorem relabelFunction_kept {declaration : FunctionDecl}
    (h : relabelFunction r declaration = declaration) :
    r.label declaration.name = declaration.name ∧
      (∀ param ∈ declaration.params, r.label param = param) ∧
      ∀ stmt ∈ declaration.body, stmt.relabel r = stmt := by
  obtain ⟨name, params, body⟩ := declaration
  simp only [relabelFunction, FunctionOf.mk.injEq, relabelAll_eq_map] at h
  exact ⟨h.1, forall_of_map_eq h.2.1, forall_of_map_eq h.2.2⟩

namespace Stmt

variable {stmt : Stmt}

theorem exprs_kept (h : stmt.relabel r = stmt) : ∀ part ∈ stmt.exprs, part.relabel r = part := by
  cases stmt with
  | var name init => cases init <;> simp_all [exprs]
  | returns keyword value => cases value <;> simp_all [exprs]
  | classDef name superclass methods => cases superclass <;> simp_all [exprs]
  | _ => simp_all [exprs]

theorem parts_kept (h : stmt.relabel r = stmt) : ∀ part ∈ stmt.parts, part.relabel r = part := by
  cases stmt with
  | block body =>
    simp only [Stmt.relabel, Stmt.block.injEq, relabelAll_eq_map] at h
    exact forall_of_map_eq h
  | ifElse condition yes no => cases no <;> simp_all [parts]
  | _ => simp_all [parts]

theorem functions_kept (h : stmt.relabel r = stmt) :
    ∀ found ∈ stmt.functions, relabelFunction r found.1 = found.1 := by
  cases stmt with
  | function declaration =>
    simp only [Stmt.relabel, Stmt.function.injEq] at h
    exact List.forall_mem_singleton.2 h
  | classDef name superclass methods =>
    simp only [Stmt.relabel, Stmt.classDef.injEq, relabelMethods_eq_map] at h
    exact List.forall_mem_map.2 (forall_of_map_eq h.2.2)
  | _ => simp [functions]

theorem marks_kept (h : stmt.relabel r = stmt) : ∀ mark ∈ stmt.marks, r.label mark = mark := by
  cases stmt with
  | classDef name superclass methods => cases superclass <;> simp_all [marks]
  | _ => simp [marks]

end Stmt

def Relabelling.code (r : Relabelling) : Code where
  expr tree := tree.relabel r = tree
  stmt tree := tree.relabel r = tree
  function declaration _ := relabelFunction r declaration = declaration
  token token := r.label token = token
  expr_parts := Expr.parts_kept
  expr_marks := Expr.marks_kept
  stmt_exprs := Stmt.exprs_kept
  stmt_parts := Stmt.parts_kept
  stmt_functions := Stmt.functions_kept
  stmt_marks := Stmt.marks_kept
  body h := (relabelFunction_kept h).2.2

/-! ## Resolving -/

theorem resolveProgram_kept {program : List Stmt} (hbranched : BranchedAll program)
    (h : ∀ stmt ∈ program, stmt.relabel r = stmt) :
    ∀ complaint ∈ (resolveProgram program).complaints,
      r.label complaint.token = complaint.token := by
  have hprogram : relabelAll r program = program := by
    rw [relabelAll_eq_map]
    exact (List.map_congr_left h).trans program.map_id
  have htokens := allTokens_relabel r .top .top program
  rw [hprogram] at htokens
  intro complaint hmem
  rw [resolveProgram_eq hbranched, List.mem_toArray] at hmem
  obtain ⟨event, hevent, hcomplaint⟩ := List.mem_filterMap.1 hmem
  rw [Event.token_of_complaint? hcomplaint]
  exact forall_of_map_eq htokens.symm _ (List.mem_map_of_mem hevent)

/-! ## Known tokens -/

/-- A relabelling that keeps some tokens and puts all others into another unit. -/
def Relabelling.keeping (known : List Token) : Relabelling where
  label token := if token ∈ known then token else { token with unit := token.unit + 1 }
  kind_label token := by split <;> rfl

theorem Relabelling.keeping_eq_iff {known : List Token} {token : Token} :
    (keeping known).label token = token ↔ token ∈ known := by
  simp only [keeping]
  constructor
  · intro h
    by_cases hmem : token ∈ known
    · exact hmem
    · rw [if_neg hmem] at h
      have hunit : token.unit + 1 = token.unit := congrArg Token.unit h
      omega
  · exact fun hmem => if_pos hmem

end Moth
