import Moth.Proofs.Parsing.Exactness
import Moth.Proofs.Parsing.Faulty
/-!
# A faulty statement spoils only itself

A program is put together from fragments, some of which the parser accepts and some of which are
faulty statements.  What the parser makes of the program is what it makes of the fragments, one
behind the other: the statements of the one sort and the complaints about the other.
-/

namespace Moth.Syntax

open Rule Grammar

structure Fragment where
  tokens : List Token
  stop : Token

namespace Fragment

def parsed (fragment : Fragment) (levels : Nat) : Parsed (List Stmt) :=
  parseProgram fragment.tokens fragment.stop levels

def Valid (fragment : Fragment) (levels : Nat) : Prop :=
  (fragment.parsed levels).complaints = #[]

/-- The fragment is one statement, as far as can be seen without parsing it, but the parser finds
no statement in it.  There is one semicolon, at the end, and no brace; there is no keyword that
begins a statement except perhaps as the first token, and the first token is not `for`, behind
which there may be more semicolons, nor `else`, which may belong to what is before it. -/
structure Faulty (fragment : Fragment) (levels : Nat) : Prop where
  ends : fragment.tokens.getLast?.map (·.kind) = some (.symbol .semicolon)
  once : ∀ token ∈ fragment.tokens.dropLast, token.kind ≠ .symbol .semicolon
  unbraced : ∀ token ∈ fragment.tokens,
    token.kind ≠ .symbol .leftBrace ∧ token.kind ≠ .symbol .rightBrace
  start : ahead fragment.tokens ≠ some (.keyword .for) ∧
    ahead fragment.tokens ≠ some (.keyword .else)
  inner : ∀ token ∈ fragment.tokens.tail, startsStatement token.kind = false
  nothing : (fragment.parsed levels).tree = []

end Fragment

theorem exists_inside {tokens : List Token}
    (hends : tokens.getLast?.map (·.kind) = some (.symbol .semicolon))
    (honce : ∀ token ∈ tokens.dropLast, token.kind ≠ .symbol .semicolon)
    (hunbraced : ∀ token ∈ tokens,
      token.kind ≠ .symbol .leftBrace ∧ token.kind ≠ .symbol .rightBrace)
    (hinner : ∀ token ∈ tokens, startsStatement token.kind = false) :
    ∃ common semicolon, tokens = common ++ [semicolon] ∧ Inside common ∧
      semicolon.kind = .symbol .semicolon := by
  obtain ⟨semicolon, hlast, hsemicolon⟩ := Option.map_eq_some_iff.1 hends
  obtain ⟨common, rfl⟩ := List.getLast?_eq_some_iff.1 hlast
  rw [List.dropLast_concat] at honce
  refine ⟨common, semicolon, rfl, fun token htoken => ?_, hsemicolon⟩
  have hmem := List.mem_append_left [semicolon] htoken
  exact ⟨honce token htoken, (hunbraced token hmem).1, hinner token hmem⟩

namespace Fragment

variable {fragment : Fragment} {levels : Nat}

theorem Faulty.single (h : fragment.Faulty levels) : Single fragment.tokens := by
  obtain ⟨hends, honce, hunbraced, hstart, hinner, -⟩ := h
  cases htokens : fragment.tokens with
  | nil => rw [htokens] at hends; cases hends
  | cons first rest =>
    rw [htokens] at hends honce hunbraced hstart hinner
    cases hfirst : startsStatement first.kind with
    | false =>
      have hall : ∀ token ∈ first :: rest, startsStatement token.kind = false :=
        List.forall_mem_cons.2 ⟨hfirst, hinner⟩
      obtain ⟨common, semicolon, htokens, hinside, hsemicolon⟩ :=
        exists_inside hends honce hunbraced hall
      exact htokens ▸ .calm hinside hsemicolon
    | true =>
      cases rest with
      | nil =>
        -- the only token would be the semicolon
        have hsemicolon : first.kind = .symbol .semicolon := by simpa using hends
        rw [hsemicolon] at hfirst
        cases hfirst
      | cons next rest =>
        rw [List.getLast?_cons_cons] at hends
        rw [List.dropLast_cons_cons] at honce
        obtain ⟨common, semicolon, htokens, hinside, hsemicolon⟩ := exists_inside hends
          (fun token htoken => honce token (List.mem_cons_of_mem _ htoken))
          (fun token htoken => hunbraced token (List.mem_cons_of_mem _ htoken)) hinner
        exact htokens ▸ .opening hfirst (by simpa using hstart.1) hinside hsemicolon

theorem Faulty.length_pos (h : fragment.Faulty levels) : 0 < fragment.tokens.length := by
  have hends := h.ends
  cases htokens : fragment.tokens with
  | nil => rw [htokens] at hends; cases hends
  | cons first rest => exact Nat.succ_pos _

/-- The parser's only step on a fragment that is one statement. -/
theorem Faulty.parsed_eq (h : fragment.Faulty levels) : ∃ steps, fragment.parsed levels =
    match (Rules.nested fragment.tokens.length levels).declaration
        ⟨fragment.tokens, fragment.stop, #[]⟩ with
    | .ok (some stmt) next =>
      programFrom (Rules.nested fragment.tokens.length levels) steps #[stmt] next
    | .ok none next =>
      programFrom (Rules.nested fragment.tokens.length levels) steps #[] next
    | .failed next => ⟨[], next.complaints⟩
    | .tooDeep next => ⟨[], (next.complainAt next.peek .tooMuchNesting).complaints⟩ := by
  obtain ⟨steps, hsteps⟩ : ∃ steps, fragment.tokens.length = steps + 1 :=
    ⟨fragment.tokens.length - 1, by have := h.length_pos; omega⟩
  have hsome : fragment.tokens.isEmpty = false := by
    cases htokens : fragment.tokens with
    | nil => rw [htokens] at hsteps; cases hsteps
    | cons first rest => rfl
  refine ⟨steps, ?_⟩
  rw [parsed, parseProgram]
  generalize Rules.nested fragment.tokens.length levels = rules
  simp only [hsteps, programFrom, hsome]
  rfl

/-- A faulty statement is left out also in front of more tokens, with the same complaints. -/
theorem Faulty.declaration (h : fragment.Faulty levels) {bound : Nat}
    (hbound : fragment.tokens.length ≤ bound) (more : List Token)
    (complaints : Array ParseComplaint) (stop : Token) :
    let reply := (Rules.nested bound levels).declaration
      ⟨fragment.tokens ++ more, stop, complaints⟩
    (∃ stop', reply = .ok none ⟨more, stop', complaints ++ (fragment.parsed levels).complaints⟩) ∨
      ∃ cursor, reply = .tooDeep cursor := by
  have hrecovered := h.single.recovered levels hbound more complaints fragment.stop stop
  have hnothing := h.nothing
  obtain ⟨steps, hparsed⟩ := h.parsed_eq
  generalize (Rules.nested fragment.tokens.length levels).declaration
    ⟨fragment.tokens, fragment.stop, #[]⟩ = alone at hrecovered hparsed
  generalize (Rules.nested bound levels).declaration
    ⟨fragment.tokens ++ more, stop, complaints⟩ = joined at hrecovered ⊢
  cases hrecovered with
  | @kept stmt after _ hrest =>
    obtain ⟨rest, stop, complaints⟩ := after
    obtain rfl : rest = [] := hrest
    rw [hparsed] at hnothing
    simp only [programFrom_nil] at hnothing
    cases hnothing
  | leftOut noted stop stop' =>
    simp only [programFrom_nil] at hparsed
    exact .inl ⟨stop', by rw [hparsed]⟩
  | tooDeep => exact .inr ⟨_, rfl⟩

/-- No fragment begins with `else`, so neither does what is put together from them. -/
theorem ahead_flatMap_tokens {fragments : List Fragment}
    (h : ∀ fragment ∈ fragments, fragment.Valid levels ∨ fragment.Faulty levels) :
    ahead (fragments.flatMap (·.tokens)) ≠ some (.keyword .else) := by
  induction fragments with
  | nil => nofun
  | cons fragment fragments ih =>
    obtain ⟨hfragment, hfragments⟩ := List.forall_mem_cons.1 h
    have helse : ahead fragment.tokens ≠ some (.keyword .else) := by
      rcases hfragment with hvalid | hfaulty
      · intro heq
        exact absurd ((derives_of_parseProgram hvalid).starts _ heq) (by decide)
      · exact hfaulty.start.2
    rw [List.flatMap_cons]
    cases htokens : fragment.tokens with
    | nil => exact ih hfragments
    | cons first rest =>
      rw [htokens] at helse
      exact helse

theorem programFrom_fragments {fragments : List Fragment}
    (h : ∀ fragment ∈ fragments, fragment.Valid levels ∨ fragment.Faulty levels) {bound steps : Nat}
    (hbound : (fragments.flatMap (·.tokens)).length ≤ bound)
    (hsteps : (fragments.flatMap (·.tokens)).length ≤ steps) (found : Array Stmt) (stop : Token)
    (complaints : Array ParseComplaint) :
    let parsed := programFrom (Rules.nested bound levels) steps found
      ⟨fragments.flatMap (·.tokens), stop, complaints⟩
    (parsed.tree =
        found.toList ++ fragments.flatMap (fun fragment => (fragment.parsed levels).tree) ∧
      parsed.complaints.toList =
        complaints.toList ++
          fragments.flatMap fun fragment => (fragment.parsed levels).complaints.toList) ∨
      TooDeep parsed := by
  induction fragments generalizing steps found stop complaints with
  | nil =>
    left
    simp only [List.flatMap_nil, programFrom_nil, List.append_nil, and_self]
  | cons fragment fragments ih =>
    obtain ⟨hfragment, hfragments⟩ := List.forall_mem_cons.1 h
    simp only [List.flatMap_cons, List.length_append] at hbound hsteps ⊢
    rcases hfragment with hvalid | hfaulty
    · have hderives := derives_of_parseProgram hvalid
      have hread := programFrom_append_of_derives levels stop complaints
        (ahead_flatMap_tokens hfragments) steps found hderives (show _ ≤ bound by omega) (by omega)
      rcases hread with ⟨fewer, hfewer, heq⟩ | ⟨-, hdeep⟩
      · have hquiet : (fragment.parsed levels).complaints.toList = [] := by rw [hvalid]
        have hrest := ih hfragments (by omega) (show _ ≤ fewer by omega)
          (found ++ (fragment.parsed levels).tree.toArray) stop complaints
        rw [heq, hquiet]
        simpa [List.append_assoc, parsed] using hrest
      · exact .inr hdeep
    · have hpos := hfaulty.length_pos
      obtain ⟨steps, rfl⟩ : ∃ fewer, steps = fewer + 1 := ⟨steps - 1, by omega⟩
      have hsome : (fragment.tokens ++ fragments.flatMap (·.tokens)).isEmpty = false := by
        cases htokens : fragment.tokens with
        | nil => rw [htokens] at hpos; cases hpos
        | cons first rest => rfl
      simp only [programFrom, hsome, hfaulty.nothing]
      rcases hfaulty.declaration (show _ ≤ bound by omega) (fragments.flatMap (·.tokens))
        complaints stop with ⟨stop', hleftOut⟩ | ⟨cursor, hdeep⟩
      · have hrest := ih hfragments (by omega) (show _ ≤ steps by omega) found stop'
          (complaints ++ (fragment.parsed levels).complaints)
        simp only [hleftOut]
        simpa [List.append_assoc] using hrest
      · simp only [hdeep]
        exact .inr (tooDeep_complainAt _ _ _)

end Fragment

/-- A program that is put together from fragments, each of which is accepted alone or is a faulty
statement, gives the statements of the accepted fragments and the complaints about the faulty
statements, in order, just as they are when each fragment is parsed alone; unless there is too much
nesting.  The accepted fragments have no complaints, and the faulty ones no statements. -/
theorem parseProgram_fragments {levels : Nat} {fragments : List Fragment}
    (h : ∀ fragment ∈ fragments, fragment.Valid levels ∨ fragment.Faulty levels) {stop : Token}
    (hshallow : ¬ TooDeep (parseProgram (fragments.flatMap (·.tokens)) stop levels)) :
    (parseProgram (fragments.flatMap (·.tokens)) stop levels).tree =
        fragments.flatMap (fun fragment => (fragment.parsed levels).tree) ∧
      (parseProgram (fragments.flatMap (·.tokens)) stop levels).complaints.toList =
        fragments.flatMap fun fragment => (fragment.parsed levels).complaints.toList := by
  have hparsed := Fragment.programFrom_fragments h (Nat.le_refl _) (Nat.le_refl _) #[] stop #[]
  exact hparsed.resolve_right hshallow

/-- The tokens of `if (a) b;`, the offsets counting the tokens of the program below. -/
def openBranch : Fragment where
  tokens := [⟨.keyword .if, "if", 1, 0, 0⟩, ⟨.symbol .leftParen, "(", 1, 1, 0⟩,
    ⟨.identifier, "a", 1, 2, 0⟩, ⟨.symbol .rightParen, ")", 1, 3, 0⟩, ⟨.identifier, "b", 1, 4, 0⟩,
    ⟨.symbol .semicolon, ";", 1, 5, 0⟩]
  stop := ⟨.eof, "", 1, 6, 0⟩

/-- The tokens of `nil = a b;`, with a bad target and a semicolon missing. -/
def badTarget : Fragment where
  tokens := [⟨.keyword .nil, "nil", 1, 6, 0⟩, ⟨.symbol .equal, "=", 1, 7, 0⟩,
    ⟨.identifier, "a", 1, 8, 0⟩, ⟨.identifier, "b", 1, 9, 0⟩, ⟨.symbol .semicolon, ";", 1, 10, 0⟩]
  stop := ⟨.eof, "", 1, 11, 0⟩

/-- The tokens of `fun f(a;`. -/
def openFunction : Fragment where
  tokens := [⟨.keyword .fun, "fun", 1, 11, 0⟩, ⟨.identifier, "f", 1, 12, 0⟩,
    ⟨.symbol .leftParen, "(", 1, 13, 0⟩, ⟨.identifier, "a", 1, 14, 0⟩,
    ⟨.symbol .semicolon, ";", 1, 15, 0⟩]
  stop := ⟨.eof, "", 1, 16, 0⟩

theorem openBranch_badTarget_openFunction :
    let fragments := [openBranch, badTarget, openFunction, openBranch]
    let parsed := parseProgram (fragments.flatMap (·.tokens)) ⟨.eof, "", 1, 16, 0⟩
    openBranch.Valid nestingLimit ∧ badTarget.Faulty nestingLimit ∧
      openFunction.Faulty nestingLimit ∧ ¬ TooDeep parsed ∧
      parsed.tree = (openBranch.parsed nestingLimit).tree ++ (openBranch.parsed nestingLimit).tree ∧
      parsed.complaints.toList.map (fun complaint => (complaint.token.offset, complaint.fault)) =
        [(7, .invalidTarget), (9, .expectExpressionEnd), (15, .expectParamsEnd)] := by
  intro fragments parsed
  have hbranch : openBranch.Valid nestingLimit := rfl
  have htarget : badTarget.Faulty nestingLimit :=
    ⟨rfl, by decide, by decide, by decide, by decide, rfl⟩
  have hfunction : openFunction.Faulty nestingLimit :=
    ⟨rfl, by decide, by decide, by decide, by decide, rfl⟩
  have hfragments : ∀ fragment ∈ fragments,
      fragment.Valid nestingLimit ∨ fragment.Faulty nestingLimit := by
    simp [fragments, hbranch, htarget, hfunction]
  have hshallow : ¬ TooDeep parsed := by
    have hfaults : parsed.complaints.toList.map (·.fault) =
        [.invalidTarget, .expectExpressionEnd, .expectParamsEnd] := by decide +kernel
    rintro ⟨complaint, hmem, hfault⟩
    have hmem' := List.mem_map_of_mem (f := (·.fault)) (Array.mem_toList_iff.2 hmem)
    rw [hfaults, hfault] at hmem'
    simp at hmem'
  obtain ⟨htree, hcomplaints⟩ := parseProgram_fragments hfragments hshallow
  refine ⟨hbranch, htarget, hfunction, hshallow, ?_, ?_⟩
  · rw [htree]
    simp [fragments, htarget.nothing, hfunction.nothing]
  · rw [hcomplaints]
    rfl

end Moth.Syntax
