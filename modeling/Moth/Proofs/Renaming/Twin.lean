import Moth.Proofs.Renaming.Variable
import Moth.Proofs.Scanning.Tokens
/-!
# The renamed program is a twin

The scope of the variable exchanges the old name and the new one, and all other scopes keep their
names.  What a reference is called in the renamed program is then what the renaming of the scope
that it leads to makes of its name.
-/

namespace Moth

namespace LocalRenaming

def Plain (r : LocalRenaming) : Prop := IsPlain r.declared.lexeme ∧ IsPlain r.fresh

variable {r : LocalRenaming}

def Plain.exchange (h : r.Plain) : Renaming := .swap r.declared.lexeme r.fresh h.1 h.2

theorem Plain.exchange_declared (h : r.Plain) : h.exchange r.declared.lexeme = r.fresh :=
  Equiv.swap_apply_left _ _

theorem Plain.exchange_of_ne (h : r.Plain) {name : String} (hdeclared : name ≠ r.declared.lexeme)
    (hfresh : name ≠ r.fresh) : h.exchange name = name :=
  Equiv.swap_apply_of_ne_of_ne hdeclared hfresh

/-- The scope at a depth exchanges the names, and no other does. -/
def Plain.Marks (h : r.Plain) (depth : Option Nat) (ρs : List Renaming) : Prop :=
  ∀ hops, Renaming.along ρs hops = if depth = some hops then h.exchange else .same

def Plain.head (h : r.Plain) (depth : Option Nat) : Renaming :=
  if depth = some 0 then h.exchange else .same

namespace Plain.Marks

variable {h : r.Plain} {depth : Option Nat} {ρs : List Renaming}

theorem nil : h.Marks none [] := fun _ => rfl

theorem enter (hmarks : h.Marks depth ρs) (names : List Token) :
    h.Marks (r.enter names depth) (h.head (r.enter names depth) :: ρs) := by
  intro hops
  cases hops with
  | zero => rfl
  | succ hops =>
    rw [Renaming.along_succ, hmarks hops]
    cases depth with
    | some depth => simp [LocalRenaming.enter]
    | none =>
      by_cases hmem : r.declared ∈ names <;> simp [LocalRenaming.enter, hmem]

/-- In a scope without variables. -/
theorem bare (hmarks : h.Marks depth ρs) : h.Marks (r.enter [] depth) (.same :: ρs) := by
  have hhead : h.head (r.enter [] depth) = .same := by
    cases depth <;> simp [Plain.head, LocalRenaming.enter]
  simpa only [hhead] using hmarks.enter []

theorem classScopes (hmarks : h.Marks depth ρs) (superclass : Option Token) :
    h.Marks (r.enter [] (if superclass.isSome then r.enter [] depth else depth))
      (classRenamings ρs superclass) := by
  unfold classRenamings
  split
  · exact hmarks.bare.bare
  · exact hmarks.bare

theorem reference (hmarks : h.Marks depth ρs) {name : Token} (hfresh : name.lexeme ≠ r.fresh) :
    (r.reference depth name).lexeme =
      Renaming.through ρs (r.links.hops? name) name.lexeme := by
  cases hhops : r.links.hops? name with
  | none => cases depth <;> simp [LocalRenaming.reference, Renaming.through, hhops]
  | some hops =>
    rw [Renaming.through, hmarks hops]
    cases depth with
    | none => rfl
    | some depth =>
      simp only [LocalRenaming.reference, hhops, Option.some.injEq]
      by_cases hname : name.lexeme = r.declared.lexeme
      · by_cases hdepth : depth = hops
        · simp [hdepth, hname, h.exchange_declared]
        · simp [hdepth, Ne.symm hdepth]
      · have hstays : h.exchange name.lexeme = name.lexeme := h.exchange_of_ne hname hfresh
        by_cases hdepth : depth = hops <;> simp [hdepth, hname, hstays]

theorem declaration (hmarks : h.Marks depth ρs) (stmt : Stmt) {name : Token}
    (hname : stmt.variable? = some name) (hsole : depth = some 0 → r.Sole stmt)
    (hfresh : name.lexeme ≠ r.fresh) :
    (r.declaration depth name).lexeme = Renaming.along ρs 0 name.lexeme := by
  rw [hmarks 0]
  by_cases hdepth : depth = some 0
  · by_cases heq : name = r.declared
    · simp [LocalRenaming.declaration, hdepth, heq, h.exchange_declared]
    · have hne : name.lexeme ≠ r.declared.lexeme := fun hlexeme => by
        have := hsole hdepth name (Stmt.declared?_of_variable? hname) hlexeme
        exact heq (Option.some.inj (hname.symm.trans this))
      simp [LocalRenaming.declaration, hdepth, heq, h.exchange_of_ne hne hfresh]
  · simp [LocalRenaming.declaration, hdepth]

/-- The names of functions and classes stay. -/
theorem nameStays (hmarks : h.Marks depth ρs) {stmt : Stmt} {name : Token}
    (hname : stmt.declared? = some name) (hvariable : stmt.variable? = none)
    (hsole : depth = some 0 → r.Sole stmt) (hfresh : name.lexeme ≠ r.fresh) :
    NameStays ρs name name := by
  refine ⟨rfl, ?_⟩
  rw [hmarks 0]
  split
  · next hdepth =>
    refine h.exchange_of_ne (fun hlexeme => ?_) hfresh
    rw [hsole hdepth name hname hlexeme] at hvariable
    cases hvariable
  · rfl

end Plain.Marks

/-! ## The renamed tree -/

def Plain.Allows (h : r.Plain) (ρ : Renaming) : Prop := ρ = .same ∨ ρ = h.exchange

def Plain.matching (h : r.Plain) (links : Resolution) : Matching where
  allows := h.Allows
  pairs ρs token name token' name' :=
    token'.spot = token.spot ∧ name' = Renaming.through ρs (links.hops? token) name

structure Fits (r : LocalRenaming) (links : Resolution) (event : Event) : Prop where
  quiet : event.complaint? = none
  formed : event.Formed
  reference : ∀ reference, event.reference? = some reference → reference.name ≠ r.fresh ∧
    links.hops? reference.token = r.links.hops? reference.token
  declared : ∀ name place, event = .declaration name place → name.lexeme ≠ r.fresh

theorem spot_reference (r : LocalRenaming) (depth : Option Nat) (name : Token) :
    (r.reference depth name).spot = name.spot := by
  rcases r.reference_cases depth name with h | h <;> rw [h]
  rfl

theorem sole_of_none {stmt : Stmt} (hnone : stmt.declared? = none) {depth : Option Nat} :
    depth = some 0 → r.Sole stmt := by
  intro _ name hname
  rw [hnone] at hname
  cases hname

theorem Plain.allows_head (h : r.Plain) (depth : Option Nat) : h.Allows (h.head depth) := by
  unfold Plain.head
  split
  · exact .inr rfl
  · exact .inl rfl

section

variable {h : r.Plain} {links : Resolution} {depth : Option Nat} {ρs : List Renaming}
  {place : Place}

theorem Plain.Marks.pairs (hmarks : h.Marks depth ρs) {event : Event} {sort : ReferenceSort}
    {name : Token} (href : event.reference? = some ⟨sort, name, name.lexeme, place⟩)
    (hfits : r.Fits links event) :
    (h.matching links).pairs ρs name name.lexeme (r.reference depth name)
      (r.reference depth name).lexeme := by
  obtain ⟨hfresh, hhops⟩ := hfits.reference _ href
  refine ⟨spot_reference r depth name, ?_⟩
  rw [hmarks.reference hfresh]
  exact congrArg (Renaming.through ρs · name.lexeme) hhops.symm

/-- `this` and `super` are their own names under every renaming. -/
theorem pairs_self {token : Token} {name : String} (h : r.Plain)
    (hname : name = "this" ∨ name = "super") :
    (h.matching links).pairs ρs token name token name := by
  refine ⟨rfl, ?_⟩
  rcases hname with rfl | rfl
  · exact (Renaming.through_this ρs _).symm
  · exact (Renaming.through_super ρs _).symm

end

end LocalRenaming

open LocalRenaming

theorem declaration_mem_paramEvents {params : List Token} {param : Token} (h : param ∈ params)
    (place : Place) : ∃ there, .declaration param there ∈ paramEvents place params := by
  induction params generalizing place with
  | nil => cases h
  | cons first rest ih =>
    rcases List.mem_cons.1 h with rfl | h
    · exact ⟨place, List.mem_cons_self⟩
    · obtain ⟨there, hthere⟩ := ih h (place.set first true)
      exact ⟨there, List.mem_cons_of_mem _ hthere⟩

theorem renameFunction_name {r : LocalRenaming} (depth : Option Nat) : ∀ declaration : FunctionDecl,
    (renameFunction r depth declaration).name = declaration.name
  | ⟨_, _, _⟩ => rfl

section

variable {r : LocalRenaming} {h : r.Plain} {links : Resolution} {depth : Option Nat}
  {ρs : List Renaming} {place : Place}

mutual

theorem Expr.rename_twin (hmarks : h.Marks depth ρs) : ∀ expr : Expr,
    (∀ event ∈ expr.events place, r.Fits links event) →
    expr.Twin (h.matching links) ρs (expr.rename r depth)
  | .literal _, _ => rfl
  | .grouping inner, hfits => (Expr.rename_twin hmarks inner hfits).grouped
  | .unary _ mark right, hfits => ⟨mark, _, rfl, Expr.rename_twin hmarks right hfits⟩
  | .binary _ mark left right, hfits =>
    have ⟨hleft, hright⟩ := List.forall_mem_append.1 hfits
    ⟨mark, _, _, rfl, Expr.rename_twin hmarks left hleft, Expr.rename_twin hmarks right hright⟩
  | .logical _ mark left right, hfits =>
    have ⟨hleft, hright⟩ := List.forall_mem_append.1 hfits
    ⟨mark, _, _, rfl, Expr.rename_twin hmarks left hleft, Expr.rename_twin hmarks right hright⟩
  | .ref _, hfits => ⟨_, rfl, hmarks.pairs rfl (hfits _ List.mem_cons_self)⟩
  | .assign _ value, hfits =>
    have ⟨hvalue, hname⟩ := List.forall_mem_append.1 hfits
    ⟨_, _, rfl, hmarks.pairs rfl (hname _ List.mem_cons_self),
      Expr.rename_twin hmarks value hvalue⟩
  | .call callee paren args, hfits =>
    have ⟨hcallee, hargs⟩ := List.forall_mem_append.1 hfits
    ⟨_, paren, _, rfl, Expr.rename_twin hmarks callee hcallee, renameArgs_twin hmarks args hargs⟩
  | .get object name, hfits => ⟨_, name, rfl, Expr.rename_twin hmarks object hfits, rfl⟩
  | .set object name value, hfits =>
    have ⟨hvalue, hobject⟩ := List.forall_mem_append.1 hfits
    ⟨_, name, _, rfl, Expr.rename_twin hmarks object hobject, rfl,
      Expr.rename_twin hmarks value hvalue⟩
  | .this keyword, hfits =>
    ⟨keyword, rfl, pairs_self h (.inl (hfits _ List.mem_cons_self).formed.2)⟩
  | .super keyword method, _ => ⟨keyword, method, rfl, pairs_self h (.inr rfl), rfl⟩

theorem renameArgs_twin (hmarks : h.Marks depth ρs) : ∀ args : List Expr,
    (∀ event ∈ argEvents place args, r.Fits links event) →
    argTwins (h.matching links) ρs args (renameArgs r depth args)
  | [], _ => rfl
  | arg :: args, hfits =>
    have ⟨harg, hargs⟩ := List.forall_mem_append.1 hfits
    ⟨_, _, rfl, Expr.rename_twin hmarks arg harg, renameArgs_twin hmarks args hargs⟩

end

theorem renameInit_twin (hmarks : h.Marks depth ρs) : ∀ init : Option Expr,
    (∀ event ∈ initEvents place init, r.Fits links event) →
    initTwin (h.matching links) ρs init (init.map (Expr.rename r depth))
  | none, _ => rfl
  | some init, hfits => ⟨_, rfl, Expr.rename_twin hmarks init hfits⟩

theorem renameSuperclass_twin (hmarks : h.Marks depth ρs) {name : Token} :
    ∀ superclass : Option Token,
    (∀ event ∈ superclassEvents place name superclass, r.Fits links event) →
    superclassTwin (h.matching links) ρs superclass (superclass.map (r.reference depth))
  | none, _ => rfl
  | some _, hfits => ⟨_, rfl, hmarks.pairs rfl (hfits _ List.mem_cons_self)⟩

/-- In the scope of the variable nothing else has its name. -/
theorem LocalRenaming.sole_inside {body : List Stmt} (hframes : place.frames ≠ [])
    (hfits : ∀ event ∈ eventsAll place body, r.Fits links event)
    (hdepth : r.enter (body.filterMap Stmt.variable?) depth = some 0) :
    ∀ stmt ∈ body, r.Sole stmt := by
  refine r.sole_of_quiet hframes (fun event hevent => (hfits event hevent).quiet) ?_
  cases depth with
  | some depth => simp [LocalRenaming.enter] at hdepth
  | none => simpa [LocalRenaming.enter] using hdepth

mutual

theorem Stmt.rename_twin : ∀ (depth : Option Nat) (ρs : List Renaming) (place : Place)
    (stmt : Stmt), h.Marks depth ρs → stmt.Branched → (depth = some 0 → r.Sole stmt) →
    (∀ event ∈ stmt.events place, r.Fits links event) →
    stmt.Twin (h.matching links) ρs (stmt.rename r depth)
  | _, _, _, .expression value, hmarks, _, _, hfits =>
    ⟨_, rfl, Expr.rename_twin hmarks value hfits⟩
  | _, _, _, .print value, hmarks, _, _, hfits => ⟨_, rfl, Expr.rename_twin hmarks value hfits⟩
  | _, _, _, .var name init, hmarks, _, hsole, hfits =>
    have ⟨hname, hinit⟩ := List.forall_mem_cons.1 hfits
    ⟨_, _, rfl, hmarks.declaration _ rfl hsole (hname.declared _ _ rfl),
      renameInit_twin hmarks init hinit⟩
  | _, ρs, _, .block body, hmarks, hbranched, _, hfits =>
    ⟨_, _, rfl, h.allows_head _, renameAll_twin _ (_ :: ρs) _ body (hmarks.enter _)
      hbranched (sole_inside (List.cons_ne_nil _ _) hfits) hfits⟩
  | depth, ρs, place, .ifElse condition yes no, hmarks, ⟨hnone, hyes, hno⟩, _, hfits =>
    have ⟨hcondition, hbranches⟩ := List.forall_mem_append.1 hfits
    have ⟨hfitsYes, hfitsNo⟩ := List.forall_mem_append.1 hbranches
    ⟨_, _, _, rfl, Expr.rename_twin hmarks condition hcondition,
      Stmt.rename_twin depth ρs place yes hmarks hyes (sole_of_none hnone) hfitsYes,
      renameElse_twin depth ρs place no hmarks hno hfitsNo⟩
  | depth, ρs, place, .whileLoop condition body, hmarks, ⟨hnone, hbody⟩, _, hfits =>
    have ⟨hcondition, hfitsBody⟩ := List.forall_mem_append.1 hfits
    ⟨_, _, rfl, Expr.rename_twin hmarks condition hcondition,
      Stmt.rename_twin depth ρs place body hmarks hbody (sole_of_none hnone) hfitsBody⟩
  | depth, ρs, _, .function declaration, hmarks, hbranched, hsole, hfits =>
    have ⟨hname, hinside⟩ := List.forall_mem_cons.1 hfits
    ⟨_, rfl, by
        rw [renameFunction_name]
        exact hmarks.nameStays rfl rfl hsole (hname.declared _ _ rfl),
      renameFunction_twin depth ρs _ _ declaration hmarks hbranched hinside⟩
  | _, _, _, .returns keyword value, hmarks, _, _, hfits =>
    ⟨keyword, _, rfl, renameInit_twin hmarks value (List.forall_mem_cons.1 hfits).2⟩
  | _, ρs, _, .classDef name superclass methods, hmarks, hbranched, hsole, hfits =>
    have ⟨hname, hinside⟩ := List.forall_mem_cons.1 hfits
    have ⟨hsuper, hmethods⟩ := List.forall_mem_append.1 hinside
    ⟨_, _, _, rfl, hmarks.nameStays rfl rfl hsole (hname.declared _ _ rfl),
      renameSuperclass_twin hmarks superclass hsuper,
      renameMethods_twin _ _ _ _ methods (hmarks.classScopes superclass) hbranched hmethods⟩
termination_by structural _ _ _ stmt => stmt

theorem renameElse_twin : ∀ (depth : Option Nat) (ρs : List Renaming) (place : Place)
    (no : Option Stmt), h.Marks depth ρs → BranchedElse no →
    (∀ event ∈ elseEvents place no, r.Fits links event) →
    elseTwin (h.matching links) ρs no (renameElse r depth no)
  | _, _, _, none, _, _, _ => rfl
  | depth, ρs, place, some no, hmarks, ⟨hnone, hno⟩, hfits =>
    ⟨_, rfl, Stmt.rename_twin depth ρs place no hmarks hno (sole_of_none hnone) hfits⟩
termination_by structural _ _ _ no => no

theorem renameAll_twin : ∀ (depth : Option Nat) (ρs : List Renaming) (place : Place)
    (body : List Stmt), h.Marks depth ρs → BranchedAll body →
    (depth = some 0 → ∀ stmt ∈ body, r.Sole stmt) →
    (∀ event ∈ eventsAll place body, r.Fits links event) →
    stmtTwins (h.matching links) ρs body (renameAll r depth body)
  | _, _, _, [], _, _, _, _ => rfl
  | depth, ρs, place, first :: rest, hmarks, ⟨hfirst, hrest⟩, hsole, hfits =>
    have ⟨hfitsFirst, hfitsRest⟩ := List.forall_mem_append.1 hfits
    ⟨_, _, rfl, Stmt.rename_twin depth ρs place first hmarks hfirst
        (fun hdepth => hsole hdepth first List.mem_cons_self) hfitsFirst,
      renameAll_twin depth ρs _ rest hmarks hrest
        (fun hdepth stmt hstmt => hsole hdepth stmt (List.mem_cons_of_mem _ hstmt)) hfitsRest⟩
termination_by structural _ _ _ body => body

theorem renameFunction_twin : ∀ (depth : Option Nat) (ρs : List Renaming) (context : Context)
    (place : Place) (declaration : FunctionDecl), h.Marks depth ρs →
    BranchedFunction declaration →
    (∀ event ∈ functionEvents context place declaration, r.Fits links event) →
    functionTwin (h.matching links) ρs declaration (renameFunction r depth declaration)
  | depth, ρs, context, place, ⟨name, params, body⟩, hmarks, hbranched, hfits => by
    have hinside := hmarks.enter (params ++ body.filterMap Stmt.variable?)
    have hsole : r.enter (params ++ body.filterMap Stmt.variable?) depth = some 0 →
        ∀ stmt ∈ params.map (Stmt.var · none) ++ body, r.Sole stmt := by
      have hall : ∀ event ∈ eventsAll (place.inFunction context ⟨name, params, body⟩)
          (params.map (Stmt.var · none) ++ body), r.Fits links event := by
        rw [eventsAll_params]
        exact hfits
      rw [← variables_params]
      exact sole_inside (List.cons_ne_nil _ _) hall
    obtain ⟨hfitsParams, hfitsBody⟩ := List.forall_mem_append.1 hfits
    refine ⟨rfl, _, h.allows_head _, ?_, renameAll_twin _ (_ :: ρs) _ body hinside hbranched
      (fun hdepth stmt hstmt => hsole hdepth stmt (List.mem_append_right _ hstmt)) hfitsBody⟩
    have hparams : (renameFunction r depth ⟨name, params, body⟩).params = params.map
        (r.declaration (r.enter (params ++ body.filterMap Stmt.variable?) depth)) := rfl
    rw [hparams, List.map_map]
    refine List.map_congr_left fun param hparam => ?_
    obtain ⟨there, hthere⟩ := declaration_mem_paramEvents hparam (place.inFunction context _)
    refine hinside.declaration (.var param none) rfl (fun hdepth => ?_)
      ((hfitsParams _ hthere).declared _ _ rfl)
    exact hsole hdepth _ (List.mem_append_left _ (List.mem_map_of_mem hparam))
termination_by structural _ _ _ _ declaration => declaration

theorem renameMethods_twin : ∀ (depth : Option Nat) (ρs : List Renaming)
    (inClass : ClassContext) (place : Place) (methods : List FunctionDecl), h.Marks depth ρs →
    BranchedMethods methods →
    (∀ event ∈ methodEvents inClass place methods, r.Fits links event) →
    methodTwins (h.matching links) ρs methods (renameMethods r depth methods)
  | _, _, _, _, [], _, _, _ => rfl
  | depth, ρs, inClass, place, first :: rest, hmarks, ⟨hfirst, hrest⟩, hfits =>
    have ⟨hfitsFirst, hfitsRest⟩ := List.forall_mem_append.1 hfits
    ⟨_, _, rfl, renameFunction_twin depth ρs _ place first hmarks hfirst hfitsFirst,
      renameMethods_twin depth ρs inClass place rest hmarks hrest hfitsRest⟩
termination_by structural _ _ _ _ methods => methods

end

end

end Moth
