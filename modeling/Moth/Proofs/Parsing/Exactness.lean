import Moth.Proofs.Parsing.ReadStatement
import Moth.Proofs.Parsing.Soundness
/-!
# The parser accepts exactly the grammar

A program is accepted, without a complaint, if and only if the grammar derives it, and
what the parser gives is then the one tree that the grammar derives.  Only nesting beyond
the limit stands between the two, and no program nests deeper than it has tokens.
-/

namespace Moth.Syntax

open Rule

/-- The parser gave up because of nesting. -/
def TooDeep {α : Type} (parsed : Parsed α) : Prop :=
  ∃ complaint ∈ parsed.complaints, complaint.fault = .tooMuchNesting

/-! ## What is derived is accepted -/

theorem tooDeep_complainAt {α : Type} (tree : α) (cursor : Cursor) (token : Token) :
    TooDeep ⟨tree, (cursor.complainAt token .tooMuchNesting).complaints⟩ :=
  ⟨⟨token, .tooMuchNesting⟩, by simp [Cursor.complainAt], rfl⟩

theorem programFrom_nil (rules : Rules) (steps : Nat) (found : Array Stmt) (stop : Token)
    (complaints : Array ParseComplaint) :
    programFrom rules steps found ⟨[], stop, complaints⟩ = ⟨found.toList, complaints⟩ := by
  cases steps <;> rfl

/-- Behind what is derived the parser goes on with what follows. -/
theorem programFrom_append_of_derives {bound : Nat} (levels : Nat) (stop : Token)
    (complaints : Array ParseComplaint) {more : List Token}
    (hmore : ahead more ≠ some (.keyword .else)) : ∀ {program : List Stmt} {ts : List Token}
    (steps : Nat) (found : Array Stmt), Derives .declarations ts program →
    ts.length ≤ bound → ts.length ≤ steps →
    let rules := Rules.nested bound levels
    let parsed := programFrom rules steps found ⟨ts ++ more, stop, complaints⟩
    (∃ fewer, steps ≤ fewer + ts.length ∧
      parsed = programFrom rules fewer (found ++ program.toArray) ⟨more, stop, complaints⟩) ∨
      levels ≤ ts.length ∧ TooDeep parsed
  | [], ts, steps, found, h, _, _ => by
    left
    cases h
    exact ⟨steps, Nat.le_refl _, by simp⟩
  | first :: program, ts, steps, found, h, hbound, hsteps => by
    cases h with
    | @moreDeclarations us vs _ _ hfirst hrest =>
      obtain ⟨kind, hkind, -⟩ := hfirst.starts
      have hpos := ahead_ne_nil hkind
      rw [List.length_append] at hbound hsteps ⊢
      rw [List.append_assoc]
      obtain ⟨steps, rfl⟩ : ∃ fewer, steps = fewer + 1 := ⟨steps - 1, by omega⟩
      have hsome : (us ++ (vs ++ more)).isEmpty = false := by
        cases us <;> simp at hpos ⊢
      have helse : ahead (vs ++ more) ≠ some (.keyword .else) := by
        intro heq
        cases vs with
        | nil => exact hmore heq
        | cons token vs => exact absurd (hrest.starts _ heq) (by decide)
      have hread : Reads (Rules.nested bound levels).declaration levels us (some first)
          (vs ++ more) :=
        reads_nested Rules.declaration rfl fun n =>
          hfirst.complete bound n _ (by omega) helse
      simp only [programFrom, hsome]
      rcases hread stop complaints with hok | ⟨hlevels, cursor, hdeep⟩
      · have ih := programFrom_append_of_derives levels stop complaints hmore steps
          (found.push first) hrest (show vs.length ≤ bound by omega) (by omega)
        simp only [hok]
        refine ih.imp ?_ fun hdeep => ⟨by omega, hdeep.2⟩
        rintro ⟨fewer, hfewer, heq⟩
        exact ⟨fewer, by omega, by simpa using heq⟩
      · simp only [hdeep]
        exact .inr ⟨by omega, tooDeep_complainAt _ _ _⟩

theorem programFrom_of_derives {bound : Nat} (levels : Nat) (stop : Token)
    (complaints : Array ParseComplaint) {program : List Stmt} {ts : List Token}
    (steps : Nat) (found : Array Stmt) (h : Derives .declarations ts program)
    (hbound : ts.length ≤ bound) (hsteps : ts.length ≤ steps) :
    let parsed := programFrom (Rules.nested bound levels) steps found ⟨ts, stop, complaints⟩
    parsed = ⟨found.toList ++ program, complaints⟩ ∨ levels ≤ ts.length ∧ TooDeep parsed := by
  have hnone : ahead [] ≠ some (.keyword .else) := nofun
  have hparsed := programFrom_append_of_derives levels stop complaints hnone steps found h hbound
    hsteps
  rw [List.append_nil] at hparsed
  refine hparsed.imp_left ?_
  rintro ⟨fewer, -, heq⟩
  rw [heq, programFrom_nil, Array.toList_append]

/-! ## What is accepted is derived -/

theorem derives_of_programFrom {bound : Nat} {rules : Rules} (h : Sound (bound + 1) rules) :
    ∀ (steps : Nat) (found : Array Stmt) (cursor : Cursor),
    let parsed := programFrom rules steps found cursor
    parsed.complaints = #[] → cursor.complaints = #[] ∧
      (cursor.rest.length ≤ bound → cursor.rest.length ≤ steps →
        ∃ program, parsed.tree = found.toList ++ program ∧
          Derives .declarations cursor.rest program)
  | 0, found, cursor => by
    intro parsed hquiet
    refine ⟨hquiet, fun _ hsteps => ⟨[], by simp [parsed, programFrom], ?_⟩⟩
    rw [List.length_eq_zero_iff.1 (Nat.le_zero.1 hsteps)]
    exact .noDeclarations
  | steps + 1, found, cursor => by
    have hends := h.declaration cursor
    simp only [programFrom]
    by_cases hempty : cursor.rest.isEmpty
    · simp only [hempty, if_true]
      intro hquiet
      refine ⟨hquiet, fun _ _ => ⟨[], by simp, ?_⟩⟩
      rw [List.isEmpty_iff.1 hempty]
      exact .noDeclarations
    simp only [hempty, Bool.false_eq_true, if_false]
    revert hends
    cases rules.declaration cursor with
    | failed after =>
      intro hsize hquiet
      simp only at hquiet
      simp [Ends, hquiet] at hsize
    | tooDeep after => simp [Cursor.complainAt]
    | ok result after =>
      rintro ⟨hsize, hread⟩
      have quiet (hafter : after.complaints = #[]) : cursor.complaints = #[] := by
        simpa [hafter] using hsize
      cases result with
      | none =>
        intro hquiet
        obtain ⟨hafter, -⟩ := derives_of_programFrom h steps found after hquiet
        refine ⟨quiet hafter, fun hbound _ => ?_⟩
        obtain ⟨ts, -, stmt, hstmt, -⟩ := hread (by rw [hafter, quiet hafter]) (by omega)
        cases hstmt
      | some first =>
        intro hquiet
        obtain ⟨hafter, hmore⟩ := derives_of_programFrom h steps (found.push first) after hquiet
        refine ⟨quiet hafter, fun hbound hsteps => ?_⟩
        obtain ⟨ts, hts, stmt, hstmt, hfirst⟩ :=
          hread (by rw [hafter, quiet hafter]) (by omega)
        cases hstmt
        obtain ⟨kind, hkind, -⟩ := hfirst.starts
        have hpos := ahead_ne_nil hkind
        rw [hts, List.length_append] at hbound hsteps
        obtain ⟨program, hprogram, hrest⟩ := hmore (by omega) (by omega)
        refine ⟨first :: program, by simpa using hprogram, ?_⟩
        rw [hts]
        exact .moreDeclarations hfirst hrest

theorem parseProgram_of_derives {tokens : List Token} {program : List Stmt}
    (h : Derives .declarations tokens program) (stop : Token) (levels : Nat) :
    parseProgram tokens stop levels = ⟨program, #[]⟩ ∨
      levels ≤ tokens.length ∧ TooDeep (parseProgram tokens stop levels) :=
  programFrom_of_derives levels stop #[] tokens.length #[] h (Nat.le_refl _)
    (Nat.le_refl _)

theorem derives_of_parseProgram {tokens : List Token} {stop : Token} {levels : Nat}
    (h : (parseProgram tokens stop levels).complaints = #[]) :
    Derives .declarations tokens (parseProgram tokens stop levels).tree := by
  obtain ⟨-, hmore⟩ := derives_of_programFrom (sound_nested tokens.length levels)
    tokens.length #[] ⟨tokens, stop, #[]⟩ h
  obtain ⟨program, hprogram, hderives⟩ := hmore (Nat.le_refl _) (Nat.le_refl _)
  rw [parseProgram, hprogram]
  simpa using hderives

theorem derives_of_parsed {tokens : List Token} {stop : Token} {levels : Nat}
    {program : List Stmt} (h : parseProgram tokens stop levels = ⟨program, #[]⟩) :
    Derives .declarations tokens program := by
  have hderives := derives_of_parseProgram (congrArg Parsed.complaints h)
  rwa [h] at hderives

theorem parseExpression_of_derives {tokens : List Token} {expr : Expr}
    (h : Derives (.phrase .assignment) tokens expr) (stop : Token) (levels : Nat) :
    parseExpression tokens stop levels = ⟨some expr, #[]⟩ ∨
      levels ≤ tokens.length ∧ TooDeep (parseExpression tokens stop levels) := by
  have hread : Reads (Rules.nested tokens.length levels).expression levels tokens
      expr [] :=
    Completes.nested h.complete levels (Nat.le_refl _) (stops_nil _)
  rw [parseExpression, wholeExpression]
  rcases hread stop #[] with hok | ⟨hlevels, cursor, hdeep⟩
  · rw [List.append_nil] at hok
    rw [bind_ok hok]
    exact .inl rfl
  · rw [List.append_nil] at hdeep
    rw [bind_tooDeep hdeep]
    exact .inr ⟨hlevels, tooDeep_complainAt _ _ _⟩

theorem meets_wholeExpression (tokens : List Token) (levels : Nat) : Meets (tokens.length + 1)
    (wholeExpression (Rules.nested tokens.length levels)) fun ts expr rest =>
      rest = [] ∧ Derives (.phrase .assignment) ts expr := by
  apply Meets.bind (sound_nested tokens.length levels).expression
  intro expr
  apply Meets.atEnd
  intro ended
  cases ended with
  | true => exact .done fun rest hrest ts hexpr => ⟨by simpa using hrest, by simpa using hexpr⟩
  | false => exact .fails

theorem derives_of_parseExpression {tokens : List Token} {stop : Token} {levels : Nat}
    {expr : Expr} (h : parseExpression tokens stop levels = ⟨some expr, #[]⟩) :
    Derives (.phrase .assignment) tokens expr := by
  have hends := meets_wholeExpression tokens levels ⟨tokens, stop, #[]⟩
  rw [parseExpression] at h
  revert hends h
  cases wholeExpression (Rules.nested tokens.length levels) ⟨tokens, stop, #[]⟩ with
  | failed after => simp
  | tooDeep after => simp
  | ok found after =>
    rintro h ⟨-, hread⟩
    obtain ⟨hfound, hafter⟩ : found = expr ∧ after.complaints = #[] := by simpa using h
    obtain ⟨ts, hts, hnil, hderives⟩ := hread (by rw [hafter]) (Nat.lt_succ_self _)
    simp only [hnil, List.append_nil] at hts
    rw [hts, ← hfound]
    exact hderives

/-- There is a complaint when no expression could be read. -/
theorem complaints_of_parseExpression_none {tokens : List Token} {stop : Token} {levels : Nat}
    (h : (parseExpression tokens stop levels).tree = none) :
    (parseExpression tokens stop levels).complaints ≠ #[] := by
  have hends := meets_wholeExpression tokens levels ⟨tokens, stop, #[]⟩
  rw [parseExpression] at h ⊢
  revert hends h
  cases wholeExpression (Rules.nested tokens.length levels) ⟨tokens, stop, #[]⟩ with
  | ok found after => simp
  | tooDeep after => simp [Cursor.complainAt]
  | failed after =>
    intro _ hends heq
    have hmore : 0 < after.complaints.size := hends
    have hnone : after.complaints = #[] := heq
    simp [hnone] at hmore

/-- The grammar is unambiguous, however deep its phrases nest. -/
theorem Derives.program_unique {tokens : List Token} {program other : List Stmt}
    (h : Derives .declarations tokens program) (h' : Derives .declarations tokens other) :
    program = other := by
  -- a parser with a level for every token reads both
  have reads {tree : List Stmt} (htree : Derives .declarations tokens tree) :=
    (programFrom_of_derives (tokens.length + 1) ⟨.eof, "", 1, 0, 0⟩ #[] tokens.length #[] htree
      (Nat.le_refl _) (Nat.le_refl _)).resolve_right fun hdeep => absurd hdeep.1 (by omega)
  simpa using (reads h).symm.trans (reads h')

/-- The parser accepts a program exactly if the grammar derives it, and gives the tree of
the derivation; nesting counts only beyond the limit, whatever that is, and no program has two
trees. -/
theorem parseProgram_exact (tokens : List Token) (stop : Token) (levels : Nat)
    (program : List Stmt) :
    (((parseProgram tokens stop levels).complaints = #[] ∧
        (parseProgram tokens stop levels).tree = program) ↔
      Derives .declarations tokens program ∧ ¬ TooDeep (parseProgram tokens stop levels)) ∧
    (Derives .declarations tokens program → tokens.length < levels →
      ¬ TooDeep (parseProgram tokens stop levels)) ∧
    ∀ other, Derives .declarations tokens program → Derives .declarations tokens other →
      program = other := by
  refine ⟨⟨?_, ?_⟩, ?_, fun other h h' => h.program_unique h'⟩
  · rintro ⟨hquiet, rfl⟩
    refine ⟨derives_of_parseProgram hquiet, ?_⟩
    rintro ⟨complaint, hmem, -⟩
    simp [hquiet] at hmem
  · rintro ⟨hderives, hshallow⟩
    rcases parseProgram_of_derives hderives stop levels with hparsed | ⟨-, hdeep⟩
    · rw [hparsed]
      exact ⟨rfl, rfl⟩
    · exact absurd hdeep hshallow
  · intro hderives hlength hdeep
    rcases parseProgram_of_derives hderives stop levels with hparsed | ⟨hlimit, -⟩
    · rw [hparsed] at hdeep
      obtain ⟨complaint, hmem, -⟩ := hdeep
      simp at hmem
    · omega

/-- The tokens of `if (a) if (b) c; else d;`, the offsets counting the tokens. -/
def openIf : List Token :=
  [⟨.keyword .if, "if", 1, 0, 0⟩, ⟨.symbol .leftParen, "(", 1, 1, 0⟩,
    ⟨.identifier, "a", 1, 2, 0⟩, ⟨.symbol .rightParen, ")", 1, 3, 0⟩,
    ⟨.keyword .if, "if", 1, 4, 0⟩, ⟨.symbol .leftParen, "(", 1, 5, 0⟩,
    ⟨.identifier, "b", 1, 6, 0⟩, ⟨.symbol .rightParen, ")", 1, 7, 0⟩,
    ⟨.identifier, "c", 1, 8, 0⟩, ⟨.symbol .semicolon, ";", 1, 9, 0⟩,
    ⟨.keyword .else, "else", 1, 10, 0⟩,
    ⟨.identifier, "d", 1, 11, 0⟩, ⟨.symbol .semicolon, ";", 1, 12, 0⟩]

/-- The tree of `openIf`, where the inner `if` has the `else`. -/
def openIfTree : List Stmt :=
  [.ifElse (.ref ⟨.identifier, "a", 1, 2, 0⟩)
    (.ifElse (.ref ⟨.identifier, "b", 1, 6, 0⟩) (.expression (.ref ⟨.identifier, "c", 1, 8, 0⟩))
      (some (.expression (.ref ⟨.identifier, "d", 1, 11, 0⟩)))) none]

theorem openIf_exact : Derives .declarations openIf openIfTree ∧
    openIf.length < nestingLimit ∧
    ∀ other, Derives .declarations openIf other → openIfTree = other := by
  have hexact := parseProgram_exact openIf ⟨.eof, "", 1, 13, 0⟩ nestingLimit openIfTree
  obtain ⟨hderives, -⟩ := hexact.1.1 ⟨rfl, rfl⟩
  exact ⟨hderives, by decide, fun other => hexact.2.2 other hderives⟩

end Moth.Syntax
