import Moth.Proofs.Parsing.Exactness
import Moth.Proofs.Parsing.Loops
/-!
# The parser always comes to an end

Whatever the tokens are, the parser moves on through them and stops.  Its rules leave a position
that is no lower and still in the text, its loops end by themselves, a statement that is read or
given up takes a token, and what is left out has been complained about.
-/

namespace Moth

/-- The cursor stands before a token, or at the end, of a text.  The positions count the tokens
from zero; the end has the number behind the last. -/
structure Cursor.At (tokens : List Token) (stop : Token) (position : Nat) (cursor : Cursor) :
    Prop where
  le : position ≤ tokens.length
  rest : cursor.rest = tokens.drop position
  stop : cursor.stop = stop

namespace Syntax

open Rule Grammar Uses

variable {α : Type} {tokens : List Token} {stop : Token} {cursor after : Cursor}
  {position further : Nat}

theorem Cursor.At.length (h : cursor.At tokens stop position) :
    cursor.rest.length + position = tokens.length := by
  have hle := h.le
  rw [h.rest, List.length_drop]
  omega

theorem Cursor.At.rest_ne_nil (h : cursor.At tokens stop position)
    (hposition : position < tokens.length) : cursor.rest ≠ [] := by
  rw [h.rest, Ne, List.drop_eq_nil_iff]
  omega

/-- A cursor further on has a position further on, by as much as the tokens are fewer. -/
theorem Cursor.At.leads (h : cursor.At tokens stop position) (hleads : cursor.Leads after) :
    after.At tokens stop (tokens.length - after.rest.length) ∧
      position ≤ tokens.length - after.rest.length := by
  have hlength := Cursor.At.length h
  have hless : after.rest.length ≤ cursor.rest.length := hleads.rest.length_le
  have hsuffix : after.rest <:+ tokens := by
    refine hleads.rest.trans ?_
    rw [h.rest]
    exact List.drop_suffix position tokens
  exact ⟨⟨Nat.sub_le _ _, List.suffix_iff_eq_drop.1 hsuffix, hleads.stop.trans h.stop⟩, by omega⟩

/-! ## The token before -/

def previous? (tokens : List Token) : Nat → Option Token
  | 0 => none
  | position + 1 => tokens[position]?

/-- Where skipping comes to that has taken a token, each time looking at the token before the
position.  It comes to nothing if it would look for a token before the first. -/
def skipLooking (tokens : List Token) : Nat → Nat → Option Nat
  | 0, position => some position
  | steps + 1, position =>
    match tokens[position]? with
    | none => some position
    | some next => do
      let last ← previous? tokens position
      if last.kind = .symbol .semicolon || startsStatement next.kind then return position
      skipLooking tokens steps (position + 1)

def skipFrom (tokens : List Token) (position : Nat) : Option Nat := do
  let position := if position < tokens.length then position + 1 else position
  let _ ← previous? tokens position
  skipLooking tokens tokens.length position

theorem skipLooking_eq (steps : Nat) {last : Token} (hlast : previous? tokens position = some last)
    (hle : position ≤ tokens.length) (hsteps : tokens.length ≤ steps + position) :
    ∃ further, skipLooking tokens steps position = some further ∧ position ≤ further ∧
      further ≤ tokens.length ∧ skipAfter last (tokens.drop position) = tokens.drop further := by
  induction steps generalizing last position with
  | zero =>
    have hend : tokens.drop position = [] := List.drop_eq_nil_iff.2 (by omega)
    exact ⟨position, rfl, Nat.le_refl _, hle, by rw [hend, skipAfter]⟩
  | succ steps ih =>
    rw [skipLooking]
    rcases Nat.lt_or_ge position tokens.length with hlt | hge
    · rw [List.getElem?_eq_getElem hlt, List.drop_eq_getElem_cons hlt]
      simp only [hlast, Option.bind_eq_bind, Option.bind_some, skipAfter]
      split
      · exact ⟨position, rfl, Nat.le_refl _, hle, (List.drop_eq_getElem_cons hlt).symm⟩
      · have hnext : previous? tokens (position + 1) = some tokens[position] :=
          List.getElem?_eq_getElem hlt
        obtain ⟨further, hskip, hmore, hin, hdrop⟩ := ih hnext hlt (by omega)
        exact ⟨further, hskip, by omega, hin, hdrop⟩
    · have hend : tokens.drop position = [] := List.drop_eq_nil_iff.2 hge
      rw [List.getElem?_eq_none hge]
      exact ⟨position, rfl, Nat.le_refl _, hle, by rw [hend, skipAfter]⟩

/-- Behind a first token, or with a token ahead, skipping never looks before the first token. -/
theorem skipFrom_eq (h : after.At tokens stop position)
    (hsome : 0 < position ∨ position < tokens.length) :
    ∃ further, skipFrom tokens position = some further ∧ position ≤ further ∧
      Cursor.At tokens stop further { after with rest := skip after.rest } := by
  rw [skipFrom]
  rcases Nat.lt_or_ge position tokens.length with hlt | hge
  · have hlast : previous? tokens (position + 1) = some tokens[position] :=
      List.getElem?_eq_getElem hlt
    obtain ⟨further, hskip, hmore, hin, hdrop⟩ :=
      skipLooking_eq tokens.length hlast hlt (by omega)
    refine ⟨further, ?_, by omega, hin, ?_, h.stop⟩
    · simp only [hlt, if_true, hlast, Option.bind_eq_bind, Option.bind_some, hskip]
    · simp only [h.rest, List.drop_eq_getElem_cons hlt, skip, hdrop]
  · obtain ⟨before, rfl⟩ : ∃ before, position = before + 1 := ⟨position - 1, by omega⟩
    have hle := h.le
    have hlast : previous? tokens (before + 1) = some tokens[before] :=
      List.getElem?_eq_getElem (by omega)
    obtain ⟨further, hskip, hmore, hin, hdrop⟩ :=
      skipLooking_eq tokens.length hlast hle (by omega)
    have hend : tokens.drop (before + 1) = [] := List.drop_eq_nil_iff.2 hge
    refine ⟨further, ?_, hmore, hin, ?_, h.stop⟩
    · simp only [Nat.not_lt.2 hge, if_false, hlast, Option.bind_eq_bind, Option.bind_some, hskip]
    · rw [← hdrop, hend, skipAfter]
      simp only [h.rest, hend, skip]

/-- A token was handed over at a position: it is the one before the position behind. -/
structure Handed (tokens : List Token) (stop : Token) (position : Nat) (token : Token)
    (after : Cursor) : Prop where
  previous : previous? tokens (position + 1) = some token
  at_next : after.At tokens stop (position + 1)

section

variable {token : Token} (h : cursor.At tokens stop position)

include h

theorem handed_of_rest {rest : List Token} (hrest : cursor.rest = token :: rest) :
    Handed tokens stop position token { cursor with rest } := by
  have hlength := Cursor.At.length h
  rw [hrest, List.length_cons] at hlength
  have hlt : position < tokens.length := by omega
  have hdrop := h.rest.symm.trans hrest
  rw [List.drop_eq_getElem_cons hlt] at hdrop
  obtain ⟨htoken, htail⟩ := List.cons.inj hdrop
  exact ⟨(List.getElem?_eq_getElem hlt).trans (congrArg some htoken), hlt, htail.symm, h.stop⟩

theorem handed_of_take? {kind : Kind} (htake : take? kind cursor = .ok (some token) after) :
    Handed tokens stop position token after := by
  rw [take?] at htake
  split at htake
  · cases htake
  · next found rest hrest =>
    split at htake <;> cases htake
    exact handed_of_rest h hrest

theorem handed_of_takePicked {pick : Kind → Option α} {choice : α}
    (htake : takePicked pick cursor = .ok (some (choice, token)) after) :
    Handed tokens stop position token after := by
  rw [takePicked] at htake
  split at htake
  · cases htake
  · next found rest hrest =>
    split at htake <;> cases htake
    exact handed_of_rest h hrest

theorem handed_of_expect {kind : Kind} {fault : ParseFault}
    (htake : expect kind fault cursor = .ok token after) :
    Handed tokens stop position token after := by
  rw [expect] at htake
  split at htake
  · cases htake
  · next found rest hrest =>
    split at htake <;> cases htake
    exact handed_of_rest h hrest

end

/-! ## The rules -/

inductive Method (bound : Nat) (inner : Rules) : {α : Type} → Rule α → Prop where
  | level (level : Level) : Method bound inner (level.rule bound inner)
  | more (level : Level) (steps : Nat) (expr : Expr) :
      Method bound inner (level.more bound inner steps expr)
  | arguments (steps : Nat) (args : Array Expr) : Method bound inner (arguments inner steps args)
  | finishCall (callee : Expr) : Method bound inner (finishCall bound inner callee)
  | expressionStatement : Method bound inner (expressionStatement (expression bound inner))
  | varDeclaration : Method bound inner (varDeclaration (expression bound inner))
  | expressionUnless (kind : Kind) :
      Method bound inner (expressionUnless kind (expression bound inner))
  | forInitializer : Method bound inner (forInitializer (expression bound inner))
  | forStatement : Method bound inner (forStatement (expression bound inner) inner.statement)
  | ifStatement : Method bound inner (ifStatement (expression bound inner) inner.statement)
  | whileStatement : Method bound inner (whileStatement (expression bound inner) inner.statement)
  | printStatement : Method bound inner (printStatement (expression bound inner))
  | returnStatement (keyword : Token) :
      Method bound inner (returnStatement keyword (expression bound inner))
  | declarations (steps : Nat) (body : Array Stmt) :
      Method bound inner (declarations inner steps body)
  | block : Method bound inner (block bound inner)
  | statement : Method bound inner (statement bound inner)
  | parameters (steps : Nat) (params : Array Token) : Method bound inner (parameters steps params)
  | function (sort : FunctionSort) : Method bound inner (function bound inner sort)
  | methods (steps : Nat) (found : Array FunctionDecl) :
      Method bound inner (methods bound inner steps found)
  | classDeclaration : Method bound inner (classDeclaration bound inner)
  | declaration : Method bound inner (declaration bound inner)
  | wholeExpression : Method bound inner (wholeExpression (Rules.around bound inner))

section

variable {limit bound : Nat} {inner : Rules} (h : Onward limit inner)

include h

theorem advances_level (level : Level) :
    Advances (limit + 1) 1 (fun _ => 0) (level.rule bound inner) := by
  have hunary : Advances (limit + 1) 1 (fun _ => 0) (Level.unary.rule bound inner) :=
    advances_unary h
  have hfactor : Advances (limit + 1) 1 (fun _ => 0) (Level.factor.rule bound inner) :=
    advances_leftGrouped .factor hunary
  have hterm : Advances (limit + 1) 1 (fun _ => 0) (Level.term.rule bound inner) :=
    advances_leftGrouped .term hfactor
  have hcomparison : Advances (limit + 1) 1 (fun _ => 0) (Level.comparison.rule bound inner) :=
    advances_leftGrouped .comparison hterm
  have hequality : Advances (limit + 1) 1 (fun _ => 0) (Level.equality.rule bound inner) :=
    advances_leftGrouped .equality hcomparison
  cases level with
  | assignment => exact advances_expression h
  | disjunction => exact advances_disjunction h
  | conjunction => exact advances_leftGrouped .conjunction hequality
  | equality => exact hequality
  | comparison => exact hcomparison
  | term => exact hterm
  | factor => exact hfactor
  | unary => exact hunary
  | call => exact advances_call h
  | primary => exact advances_primary h

theorem advances_more (level : Level) (steps : Nat) (expr : Expr) :
    Advances limit 0 (fun token => uses token expr) (level.more bound inner steps expr) := by
  have hoperands (level : Level) : Advances limit 0 (fun token => uses token expr)
      (operands (level.tighter.rule bound inner) (join? level) steps expr) :=
    advances_operands level
      ((advances_level h level.tighter).weaken (Nat.le_succ _) (Nat.le_refl _)) steps expr
  cases level with
  | assignment | unary | primary => exact .done fun _ => Nat.le_refl _
  | call => exact (advances_accesses h steps expr).weaken (Nat.le_succ _) (Nat.le_refl _)
  | _ => exact hoperands _

theorem Method.advances {rule : Rule α} (hmethod : Method bound inner rule) (cursor : Cursor) :
    Comes limit 0 cursor (rule cursor) := by
  have hexpression : Advances limit 1 (fun _ => 0) (expression bound inner) :=
    (advances_expression h).weaken (Nat.le_succ _) (Nat.le_refl _)
  have any {β : Type} [Uses β] {least : Nat} {rule : Rule β}
      (hrule : Advances limit least (fun _ => 0) rule) : Comes limit 0 cursor (rule cursor) :=
    (hrule.any cursor).toComes
  have deepen {β : Type} [Uses β] {least : Nat} {rule : Rule β}
      (hrule : Advances (limit + 1) least (fun _ => 0) rule) : Comes limit 0 cursor (rule cursor) :=
    any (hrule.weaken (Nat.le_succ _) (Nat.le_refl _))
  cases hmethod with
  | level level => exact deepen (advances_level h level)
  | more level steps expr => exact (advances_more h level steps expr cursor).toComes
  | arguments steps args => exact (advances_arguments h steps args cursor).toComes
  | finishCall callee => exact (advances_finishCall h callee cursor).toComes
  | expressionStatement => exact any (advances_expressionStatement hexpression)
  | varDeclaration => exact any (advances_varDeclaration hexpression)
  | expressionUnless kind => exact any (advances_expressionUnless hexpression)
  | forInitializer => exact any (advances_forInitializer hexpression)
  | forStatement => exact any (advances_forStatement hexpression h.statement)
  | ifStatement => exact any (advances_ifStatement hexpression h.statement)
  | whileStatement => exact any (advances_whileStatement hexpression h.statement)
  | printStatement => exact any (advances_printStatement hexpression)
  | returnStatement keyword =>
    exact ((advances_returnStatement hexpression keyword).any cursor).toComes
  | declarations steps body => exact (advances_declarations h steps body cursor).toComes
  | block => exact any (advances_block h)
  | statement => exact deepen (advances_statement h)
  | parameters steps params => exact (advances_parameters steps params cursor).toComes
  | function sort => exact any (advances_function h sort)
  | methods steps found => exact (advances_methods h steps found cursor).toComes
  | classDeclaration => exact any (advances_classDeclaration h)
  | declaration => exact deepen (advances_declaration h)
  | wholeExpression => exact deepen (advances_wholeExpression (onward_around h))

end

/-- How a rule goes on through a text from a position: to a position no lower and still in the
text, with no complaint taken back.  If it fails it has complained, and it is nested too deeply only
where as many tokens are ahead as there are levels. -/
structure Forward (tokens : List Token) (stop : Token) (levels position : Nat) (cursor : Cursor)
    (reply : Reply α) : Prop where
  further : ∃ further, position ≤ further ∧ reply.cursor.At tokens stop further
  kept : cursor.complaints.toList <+: reply.cursor.complaints.toList
  noted : ∀ after, reply = .failed after → cursor.complaints.size < after.complaints.size
  shallow : ∀ after, reply = .tooDeep after → levels ≤ tokens.length - position

theorem Comes.forward {levels least : Nat} {reply : Reply α}
    (hcomes : Comes levels least cursor reply) (h : cursor.At tokens stop position) :
    Forward tokens stop levels position cursor reply where
  further := by
    obtain ⟨hat, hle⟩ := Cursor.At.leads h hcomes.leads
    exact ⟨_, hle, hat⟩
  kept := hcomes.leads.complaints
  noted := hcomes.noted
  shallow after hreply := by
    have hlength := Cursor.At.length h
    have hdeep := hcomes.shallow after hreply
    omega

/-- All loops of the rules end by themselves, whatever they have read so far. -/
structure LoopsEnd (bound : Nat) (inner : Rules) (cursor : Cursor) : Prop where
  operands : ∀ (level : Level) (left : Expr),
    Loops (operandsRound (level.tighter.rule bound inner) (join? level)) left cursor
      (operands (level.tighter.rule bound inner) (join? level) bound left cursor)
  accesses : ∀ expr : Expr,
    Loops (accessesRound bound inner) expr cursor (accesses bound inner bound expr cursor)
  arguments : ∀ args : Array Expr,
    Loops (argumentsRound inner) args cursor (arguments inner bound args cursor)
  declarations : ∀ body : Array Stmt,
    Loops (declarationsRound inner) body cursor (declarations inner bound body cursor)
  parameters : ∀ params : Array Token,
    Loops parametersRound params cursor (parameters bound params cursor)
  methods : ∀ found : Array FunctionDecl,
    Loops (methodsRound bound inner) found cursor (methods bound inner bound found cursor)

theorem loopsEnd_nested (bound levels : Nat) (hbound : cursor.rest.length < bound) :
    LoopsEnd bound (Rules.nested bound levels) cursor where
  operands _ left := operands_loops (advances_level (onward_nested bound levels) _) hbound left
  accesses expr := accesses_loops hbound (onward_nested bound levels) expr
  arguments args := arguments_loops hbound (onward_nested bound levels) args
  declarations body := declarations_loops hbound (eats_nested bound levels) body
  parameters params := parameters_loops hbound params
  methods found := methods_loops hbound (onward_nested bound levels) found

/-! ## Declarations -/

/-- A rule for declarations that may do anything at the end of the tokens. -/
def onlyAhead (odd rule : Rule (Option Stmt)) : Rule (Option Stmt) := fun cursor =>
  if cursor.rest.isEmpty then odd cursor else rule cursor

/-- Within a block no declaration is asked for at the end. -/
theorem declarations_onlyAhead (odd : Rule (Option Stmt)) (inner : Rules) (steps : Nat)
    (body : Array Stmt) :
    declarations { inner with declaration := onlyAhead odd inner.declaration } steps body =
      declarations inner steps body := by
  induction steps generalizing body with
  | zero => rfl
  | succ steps ih =>
    funext cursor
    obtain ⟨rest, stop, complaints⟩ := cursor
    simp only [declarations, ih]
    rw [bind_ok (sees_apply _ rest stop complaints), bind_ok (sees_apply _ rest stop complaints),
      bind_ok (rfl : atEnd ⟨rest, stop, complaints⟩ = .ok rest.isEmpty ⟨rest, stop, complaints⟩),
      bind_ok (rfl : atEnd ⟨rest, stop, complaints⟩ = .ok rest.isEmpty ⟨rest, stop, complaints⟩)]
    cases rest with
    | nil => simp
    | cons token rest => split <;> rfl

/-- Nor is one at the end of a program. -/
theorem programFrom_onlyAhead (odd : Rule (Option Stmt)) (rules : Rules) (steps : Nat)
    (body : Array Stmt) (cursor : Cursor) :
    programFrom { rules with declaration := onlyAhead odd rules.declaration } steps body cursor =
      programFrom rules steps body cursor := by
  induction steps generalizing body cursor with
  | zero => rfl
  | succ steps ih =>
    simp only [programFrom, ih]
    by_cases hend : cursor.rest.isEmpty
    · rw [if_pos hend, if_pos hend]
    · rw [if_neg hend, if_neg hend, onlyAhead, if_neg hend]

/-- What becomes of a declaration where a token is ahead, at a level with `levels` further in. -/
structure Declares (tokens : List Token) (stop : Token) (levels position : Nat) (cursor : Cursor) :
    Prop where
  settles : tokens.length - position ≤ levels → ∃ found after,
    (Rules.nested tokens.length (levels + 1)).declaration cursor = .ok found after
  recovers : ∀ after,
    (Rules.nested tokens.length (levels + 1)).declaration cursor ≠ .failed after
  eats : ∀ found after,
    (Rules.nested tokens.length (levels + 1)).declaration cursor = .ok found after →
    ∃ further, position < further ∧ after.At tokens stop further ∧
      (found = none → cursor.complaints.size < after.complaints.size)
  skips : ∀ failed, declaring tokens.length (Rules.nested tokens.length levels) cursor =
      .failed failed →
    ∃ reached further, failed.At tokens stop reached ∧ skipFrom tokens reached = some further ∧
      ∃ after, (Rules.nested tokens.length (levels + 1)).declaration cursor = .ok none after ∧
        after.At tokens stop further

theorem declaration_nested (bound levels : Nat) :
    (Rules.nested bound (levels + 1)).declaration =
      recover (declaring bound (Rules.nested bound levels)) := rfl

theorem advances_declaring_nested (bound levels : Nat) :
    Advances (levels + 1) 1 (fun _ => 0) (declaring bound (Rules.nested bound levels)) :=
  advances_declaring (onward_nested bound levels)

section

variable {levels : Nat} (h : cursor.At tokens stop position) (hposition : position < tokens.length)

include h hposition

theorem declaration_eats {found : Option Stmt}
    (hreply : (Rules.nested tokens.length (levels + 1)).declaration cursor = .ok found after) :
    ∃ further, position < further ∧ after.At tokens stop further ∧
      (found = none → cursor.complaints.size < after.complaints.size) := by
  have hleads := ((onward_nested tokens.length (levels + 1)).declaration cursor).leads
  rw [hreply, Reply.cursor] at hleads
  obtain ⟨hat, -⟩ := Cursor.At.leads h hleads
  refine ⟨_, ?_, hat, ?_⟩
  · have hless := eats_nested tokens.length (levels + 1) cursor found after
      (Cursor.At.rest_ne_nil h hposition) hreply
    have hlength := Cursor.At.length h
    omega
  · rintro rfl
    exact recover_noted (advances_declaring_nested tokens.length levels) hreply

/-- What is skipped behind a fault is found without looking before the first token. -/
theorem declaration_skips {failed : Cursor}
    (hreply : declaring tokens.length (Rules.nested tokens.length levels) cursor =
      .failed failed) :
    ∃ reached further, failed.At tokens stop reached ∧ skipFrom tokens reached = some further ∧
      ∃ after, (Rules.nested tokens.length (levels + 1)).declaration cursor = .ok none after ∧
        after.At tokens stop further := by
  have hleads := (advances_declaring_nested tokens.length levels cursor).leads
  rw [hreply, Reply.cursor] at hleads
  obtain ⟨hat, hle⟩ := Cursor.At.leads h hleads
  obtain ⟨further, hskip, -, hfurther⟩ := skipFrom_eq hat (by omega)
  refine ⟨_, further, hat, hskip, _, ?_, hfurther⟩
  rw [declaration_nested, recover, hreply]

theorem declares_nested : Declares tokens stop levels position cursor where
  settles hlevels := by
    have hcomes := advances_declaring_nested tokens.length levels cursor
    have hlength := Cursor.At.length h
    rw [declaration_nested, recover]
    cases hreply : declaring tokens.length (Rules.nested tokens.length levels) cursor with
    | ok stmt after => exact ⟨some stmt, after, rfl⟩
    | failed after => exact ⟨none, _, rfl⟩
    | tooDeep after =>
      have hdeep := hcomes.shallow after hreply
      omega
  recovers after := by
    rw [declaration_nested, recover]
    cases declaring tokens.length (Rules.nested tokens.length levels) cursor <;>
      exact fun hfailed => by cases hfailed
  eats _ _ := declaration_eats h hposition
  skips _ := declaration_skips h hposition

end

/-! ## Whole texts -/

/-- The loop over the statements of a program comes to an end, having dropped a number of them.
It knows no bound on its rounds. -/
inductive ProgramLoop (rules : Rules) : Nat → Array Stmt → Cursor → Parsed (List Stmt) → Prop where
  | ended {body : Array Stmt} {cursor : Cursor} (hrest : cursor.rest = []) :
      ProgramLoop rules 0 body cursor ⟨body.toList, cursor.complaints⟩
  | kept {dropped : Nat} {body : Array Stmt} {cursor next : Cursor} {stmt : Stmt}
      {parsed : Parsed (List Stmt)} (hrest : cursor.rest ≠ [])
      (hread : rules.declaration cursor = .ok (some stmt) next)
      (hmore : ProgramLoop rules dropped (body.push stmt) next parsed) :
      ProgramLoop rules dropped body cursor parsed
  | dropped {dropped : Nat} {body : Array Stmt} {cursor next : Cursor}
      {parsed : Parsed (List Stmt)} (hrest : cursor.rest ≠ [])
      (hread : rules.declaration cursor = .ok none next)
      (hmore : ProgramLoop rules dropped body next parsed) :
      ProgramLoop rules (dropped + 1) body cursor parsed
  | tooDeep {body : Array Stmt} {cursor next : Cursor} (hrest : cursor.rest ≠ [])
      (hread : rules.declaration cursor = .tooDeep next) :
      ProgramLoop rules 0 body cursor
        ⟨body.toList, (next.complainAt next.peek .tooMuchNesting).complaints⟩

/-- The loop ends by itself, and has complained as often as it has dropped a statement. -/
theorem programLoop_programFrom (levels steps : Nat) (body : Array Stmt)
    (h : cursor.At tokens stop position) (hsteps : tokens.length ≤ steps + position) :
    ∃ dropped, ProgramLoop (Rules.nested tokens.length levels) dropped body cursor
        (programFrom (Rules.nested tokens.length levels) steps body cursor) ∧
      cursor.complaints.size + dropped ≤
        (programFrom (Rules.nested tokens.length levels) steps body
          cursor).complaints.size := by
  have hlength := Cursor.At.length h
  induction steps generalizing body cursor position with
  | zero =>
    have hrest : cursor.rest = [] := List.length_eq_zero_iff.1 (by omega)
    exact ⟨0, .ended hrest, Nat.le_refl _⟩
  | succ steps ih =>
    rw [programFrom]
    rcases Nat.lt_or_ge position tokens.length with hlt | hge
    · have hrest := Cursor.At.rest_ne_nil h hlt
      rw [if_neg (by simpa using hrest)]
      cases levels with
      | zero =>
        -- with no level left every declaration is nested too deeply
        exact ⟨0, .tooDeep hrest rfl, (Cursor.Leads.complainAt cursor _ .tooMuchNesting).size_le⟩
      | succ levels =>
        have hdeclares : Declares tokens stop levels position cursor := declares_nested h hlt
        cases hreply : (Rules.nested tokens.length (levels + 1)).declaration cursor with
        | failed next => exact absurd hreply (hdeclares.recovers next)
        | tooDeep next =>
          have hleads := ((onward_nested tokens.length (levels + 1)).declaration cursor).leads
          rw [hreply] at hleads
          refine ⟨0, .tooDeep hrest hreply, ?_⟩
          exact (hleads.trans (.complainAt next _ .tooMuchNesting)).size_le
        | ok found next =>
          have hleads := ((onward_nested tokens.length (levels + 1)).declaration cursor).leads
          rw [hreply] at hleads
          have hsize : cursor.complaints.size ≤ next.complaints.size := hleads.size_le
          obtain ⟨further, hfurther, hat, hnoted⟩ := hdeclares.eats found next hreply
          cases found with
          | some stmt =>
            obtain ⟨dropped, hloop, hcount⟩ :=
              ih (body.push stmt) hat (by omega) (Cursor.At.length hat)
            exact ⟨dropped, .kept hrest hreply hloop, by simp only; omega⟩
          | none =>
            obtain ⟨dropped, hloop, hcount⟩ := ih body hat (by omega) (Cursor.At.length hat)
            have hmore := hnoted rfl
            exact ⟨dropped + 1, .dropped hrest hreply hloop, by simp only; omega⟩
    · have hrest : cursor.rest = [] := List.length_eq_zero_iff.1 (by omega)
      rw [if_pos (by simp [hrest])]
      exact ⟨0, .ended hrest, Nat.le_refl _⟩

/-- The parser moves on through every text and stops, whatever the tokens are.

* Every rule, at every level of nesting, goes `Forward` from every position.
* The loops end by themselves.  They stand behind a token already taken.
* Where a token is ahead, a declaration is read or dropped, and takes a token either way; where none
  is ahead no declaration is asked for.
* A token is looked back at only where one has been taken.
* The loop over the statements ends, having complained as often as it dropped a statement; with no
  complaint the tree is that of the whole text, and an expression is missing only with a complaint.
-/
theorem parser_progresses (tokens : List Token) (stop : Token) :
    (∀ (levels : Nat) {α : Type} {rule : Rule α},
      Method tokens.length (Rules.nested tokens.length levels) rule →
      ∀ position cursor, cursor.At tokens stop position →
        Forward tokens stop levels position cursor (rule cursor)) ∧
    (∀ levels position cursor, 0 < position → cursor.At tokens stop position →
      LoopsEnd tokens.length (Rules.nested tokens.length levels) cursor) ∧
    (∀ levels position cursor, position < tokens.length → cursor.At tokens stop position →
      Declares tokens stop levels position cursor) ∧
    (∀ (odd : Rule (Option Stmt)) (rules : Rules) (steps : Nat) (body : Array Stmt),
      let guarded := { rules with declaration := onlyAhead odd rules.declaration }
      declarations guarded steps body = declarations rules steps body ∧
        programFrom guarded steps body = programFrom rules steps body) ∧
    (∀ position cursor token after, Cursor.At tokens stop position cursor →
      (∃ kind, take? kind cursor = .ok (some token) after) ∨
        (∃ kind fault, expect kind fault cursor = .ok token after) ∨
        (∃ (α : Type) (pick : Kind → Option α) (choice : α),
          takePicked pick cursor = .ok (some (choice, token)) after) →
      Handed tokens stop position token after) ∧
    ∀ levels,
      (∃ dropped, ProgramLoop (Rules.nested tokens.length levels) dropped #[]
          ⟨tokens, stop, #[]⟩ (parseProgram tokens stop levels) ∧
        dropped ≤ (parseProgram tokens stop levels).complaints.size) ∧
      ((parseProgram tokens stop levels).complaints = #[] →
        Derives .declarations tokens (parseProgram tokens stop levels).tree) ∧
      ((parseExpression tokens stop levels).tree = none →
        (parseExpression tokens stop levels).complaints ≠ #[]) := by
  have hstart : Cursor.At tokens stop 0 ⟨tokens, stop, #[]⟩ := ⟨Nat.zero_le _, rfl, rfl⟩
  refine ⟨?_, ?_, ?_, ?_, ?_, fun levels => ⟨?_, derives_of_parseProgram,
    complaints_of_parseExpression_none⟩⟩
  · intro levels α rule hmethod position cursor h
    exact (hmethod.advances (onward_nested tokens.length levels) cursor).forward h
  · intro levels position cursor hposition h
    have hlength := Cursor.At.length h
    exact loopsEnd_nested tokens.length levels (by omega)
  · intro levels position cursor hposition h
    exact declares_nested h hposition
  · intro odd rules steps body
    exact ⟨declarations_onlyAhead odd rules steps body,
      funext (programFrom_onlyAhead odd rules steps body)⟩
  · rintro position cursor token after h
      (⟨kind, htake⟩ | ⟨kind, fault, htake⟩ | ⟨α, pick, choice, htake⟩)
    · exact handed_of_take? h htake
    · exact handed_of_expect h htake
    · exact handed_of_takePicked h htake
  · obtain ⟨dropped, hloop, hcount⟩ :=
      programLoop_programFrom levels tokens.length #[] hstart (Nat.le_refl _)
    exact ⟨dropped, hloop, Nat.le_trans (Nat.le_add_left _ _) hcount⟩

end Syntax

end Moth
