import Moth.Proofs.Desugaring.Fitting
import Moth.Proofs.Session.Programs
/-!
# Events at offsets of their own

The tokens that the resolver comes to in a program that was accepted have different offsets, and so
have those of all its parts.
-/

namespace Moth

/-! ## Different offsets -/

def OffsetsApart (events : List Event) : Prop := ((eventTokens events).map (·.offset)).Nodup

section

variable {events more : List Event} {place other : Place}

theorem OffsetsApart.of_sublist (h : OffsetsApart more)
    (hsublist : (eventTokens events).Sublist (eventTokens more)) : OffsetsApart events :=
  h.sublist (hsublist.map _)

theorem functionTokens_eq (declaration : FunctionDecl) (context context' : Context)
    (place other : Place) : eventTokens (functionEvents context' other declaration) =
      eventTokens (functionEvents context place declaration) := by
  have htokens := functionTokens_relabel .same context context' place other declaration
  rwa [relabelFunction_same, Relabelling.label_same, List.map_id] at htokens

/-- The tokens of a statement are among those of a body that it is in. -/
theorem eventTokens_sublist_all (place other : Place) {body : List Stmt} {stmt : Stmt}
    (h : stmt ∈ body) :
    (eventTokens (stmt.events other)).Sublist (eventTokens (eventsAll place body)) := by
  induction body generalizing place with
  | nil => cases h
  | cons first rest ih =>
    rw [eventsAll, eventTokens_append]
    rcases List.mem_cons.1 h with rfl | h
    · rw [stmt.eventTokens_eq place other]
      exact List.sublist_append_left _ _
    · exact (ih _ h).trans (List.sublist_append_right _ _)

theorem functionTokens_sublist_methods (inClass : ClassContext) (context : Context)
    (place other : Place) {methods : List FunctionDecl} {method : FunctionDecl}
    (h : method ∈ methods) : (eventTokens (functionEvents context other method)).Sublist
      (eventTokens (methodEvents inClass place methods)) := by
  induction methods with
  | nil => cases h
  | cons first rest ih =>
    rw [methodEvents, eventTokens_append]
    rcases List.mem_cons.1 h with rfl | h
    · rw [functionTokens_eq method ⟨methodContext method.name, inClass⟩ context place other]
      exact List.sublist_append_left _ _
    · exact (ih h).trans (List.sublist_append_right _ _)

theorem BranchedAll.mem {body : List Stmt} (h : BranchedAll body) :
    ∀ stmt ∈ body, stmt.Branched := by
  induction body with
  | nil => exact fun _ hstmt => by cases hstmt
  | cons first rest ih => exact List.forall_mem_cons.2 ⟨h.1, ih h.2⟩

theorem BranchedMethods.mem {methods : List FunctionDecl} (h : BranchedMethods methods) :
    ∀ method ∈ methods, BranchedFunction method := by
  induction methods with
  | nil => exact fun _ hmethod => by cases hmethod
  | cons first rest ih => exact List.forall_mem_cons.2 ⟨h.1, ih h.2⟩

/-- A statement as it comes from the parser: its branches and loops declare nothing, and its
events are at different offsets. -/
structure Stmt.Orderly (stmt : Stmt) : Prop where
  branched : stmt.Branched
  apart : ∀ place, OffsetsApart (stmt.events place)

structure FunctionDecl.Orderly (declaration : FunctionDecl) : Prop where
  branched : BranchedFunction declaration
  apart : ∀ context place, OffsetsApart (functionEvents context place declaration)

theorem Stmt.Orderly.parts : ∀ {stmt : Stmt}, stmt.Orderly → ∀ part ∈ stmt.parts, part.Orderly
  | .block _, h, part, hpart =>
    ⟨BranchedAll.mem h.branched part hpart, fun place =>
      (h.apart place).of_sublist (eventTokens_sublist_all _ place hpart)⟩
  | .ifElse condition yes no, ⟨⟨_, hyes, hno⟩, hapart⟩, part, hpart => by
    rcases List.mem_cons.1 hpart with rfl | hpart
    · refine ⟨hyes, fun place => (hapart place).of_sublist ?_⟩
      simp only [Stmt.events, eventTokens_append]
      exact (List.sublist_append_left _ _).trans (List.sublist_append_right _ _)
    · obtain rfl := Option.mem_toList.1 hpart
      refine ⟨hno.2, fun place => (hapart place).of_sublist ?_⟩
      simp only [Stmt.events, eventTokens_append, elseEvents]
      exact (List.sublist_append_right _ _).trans (List.sublist_append_right _ _)
  | .whileLoop condition body, ⟨⟨_, hbody⟩, hapart⟩, part, hpart => by
    obtain rfl := List.mem_singleton.1 hpart
    refine ⟨hbody, fun place => (hapart place).of_sublist ?_⟩
    simp only [Stmt.events, eventTokens_append]
    exact List.sublist_append_right _ _
  | .expression _, _, _, hpart | .print _, _, _, hpart | .var _ _, _, _, hpart
  | .function _, _, _, hpart | .returns _ _, _, _, hpart | .classDef _ _ _, _, _, hpart => by
    cases hpart

theorem Stmt.Orderly.functions : ∀ {stmt : Stmt}, stmt.Orderly → ∀ found ∈ stmt.functions,
    found.1.Orderly
  | .function declaration, h, found, hfound => by
    obtain rfl := List.mem_singleton.1 hfound
    refine ⟨h.branched, fun context place => (h.apart place).of_sublist ?_⟩
    rw [functionTokens_eq declaration { place.context with function := .function } context
      (place.set declaration.name true) place]
    exact List.sublist_cons_self _ _
  | .classDef name superclass methods, h, found, hfound => by
    obtain ⟨method, hmethod, rfl⟩ := List.mem_map.1 hfound
    refine ⟨BranchedMethods.mem h.branched method hmethod,
      fun context place => (h.apart place).of_sublist ?_⟩
    simp only [Stmt.events, eventTokens_cons, eventTokens_append]
    exact (functionTokens_sublist_methods _ context _ place hmethod).trans
      ((List.sublist_append_right _ _).trans (List.sublist_cons_self _ _))
  | .expression _, _, _, hfound | .print _, _, _, hfound | .var _ _, _, _, hfound
  | .block _, _, _, hfound | .ifElse _ _ _, _, _, hfound | .whileLoop _ _, _, _, hfound
  | .returns _ _, _, _, hfound => by
    cases hfound

theorem FunctionDecl.Orderly.body : ∀ {declaration : FunctionDecl}, declaration.Orderly →
    ∀ part ∈ declaration.body, part.Orderly
  | ⟨_, _, _⟩, h, part, hpart => by
    refine ⟨BranchedAll.mem h.branched part hpart, fun place =>
      (h.apart place.context place).of_sublist ?_⟩
    simp only [functionEvents, eventTokens_append]
    exact (eventTokens_sublist_all _ place hpart).trans (List.sublist_append_right _ _)

def orderlyCode : Code where
  expr _ := True
  token _ := True
  stmt := Stmt.Orderly
  function declaration _ := declaration.Orderly
  expr_parts _ _ _ := trivial
  expr_marks _ _ _ := trivial
  stmt_exprs _ _ _ := trivial
  stmt_parts := Stmt.Orderly.parts
  stmt_functions := Stmt.Orderly.functions
  stmt_marks _ _ _ := trivial
  body := FunctionDecl.Orderly.body

end

/-! ## Programs of a session -/

/-- Tokens of one text have different offsets. -/
theorem OffsetsApart.of_subperm {unit : Nat} {text : List Char} {events : List Event}
    (h : (eventTokens events).Subperm (scan unit text).tokens.toList) : OffsetsApart events := by
  obtain ⟨tokens, hperm, hsublist⟩ := h
  refine (hperm.map (·.offset)).nodup_iff.1 (List.Nodup.sublist (hsublist.map _) ?_)
  exact List.pairwise_map.2 ((ordered_scan unit text).increasing.imp Nat.ne_of_lt)

theorem Session.orderly {session : Session} {request : Request} {acceptance : Acceptance}
    (hready : session.stage = .ready) (h : session.accept? request = some acceptance) :
    ∀ stmt ∈ acceptance.program, stmt.Orderly := by
  obtain ⟨draft, resolution, hcheck, hprogram⟩ := Session.check_of_accept? hready h
  obtain ⟨-, hparse, -⟩ := Request.check_eq_accepted.1 hcheck
  obtain ⟨hbranched, hmentions⟩ := Request.told hparse
  rw [hprogram]
  intro stmt hstmt
  exact ⟨hbranched.mem stmt hstmt, fun place =>
    (OffsetsApart.of_subperm hmentions.tokens).of_sublist
      (eventTokens_sublist_all .top place hstmt)⟩

/-- The programs of all turns come from the parser. -/
theorem Reached.orderly {turns : List Turn} {session : Session} (h : Reached turns session)
    (request : Request) (fuel : Nat) :
    ∀ turn ∈ (⟨session, request, fuel⟩ :: turns : List Turn), turn.Within orderlyCode := by
  intro turn hturn acceptance hsome
  exact Session.orderly (h.ready_upTo turn hturn) hsome

end Moth
