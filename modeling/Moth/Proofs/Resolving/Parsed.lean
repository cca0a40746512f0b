import Mathlib.Data.List.Perm.Subperm
import Moth.Proofs.Parsing.Derivation
import Moth.Proofs.Resolving.Standing
import Moth.Proofs.Scanning.Tokens
/-!
# The events of parsed programs

In a program that the grammar derives from scanned tokens the names are plain, branches and
loop bodies declare nothing, and every event has a token of its own.
-/

namespace Moth

open Scan Syntax

def Event.token : Event → Token
  | reference found => found.token
  | declaration name _ => name
  | returns keyword _ _ => keyword
  | inherits _ superclass => superclass.token

theorem Event.token_of_complaint? {event : Event} {complaint : ResolveComplaint}
    (h : event.complaint? = some complaint) : complaint.token = event.token := by
  cases event with
  | reference found =>
    obtain ⟨fault, -, rfl⟩ := Option.map_eq_some_iff.1 h
    rfl
  | declaration name place =>
    rw [Event.complaint?] at h
    split at h <;> cases h
    rfl
  | returns keyword withValue context =>
    simp only [Event.complaint?] at h
    split at h <;> cases h <;> rfl
  | inherits name superclass =>
    rw [Event.complaint?] at h
    split at h
    · cases h
      rfl
    · obtain ⟨fault, -, rfl⟩ := Option.map_eq_some_iff.1 h
      rfl

def eventTokens (events : List Event) : List Token := events.map Event.token

@[simp] theorem eventTokens_cons (event : Event) (events : List Event) :
    eventTokens (event :: events) = event.token :: eventTokens events := rfl

@[simp] theorem eventTokens_append (events more : List Event) :
    eventTokens (events ++ more) = eventTokens events ++ eventTokens more := List.map_append

def eventSpots (events : List Event) : List (Nat × Nat) := events.map (·.token.spot)

theorem eventSpots_eq_map (events : List Event) :
    eventSpots events = (eventTokens events).map Token.spot := by
  rw [eventTokens, List.map_map]
  rfl

/-- What is read off some of the events, and is like them in some way, is like a part of them. -/
theorem picked_sublist {α β : Type} {pick? : Event → Option α} {f : α → β} {g : Event → β}
    (h : ∀ event found, pick? event = some found → f found = g event) (events : List Event) :
    ((events.filterMap pick?).map f).Sublist (events.map g) := by
  induction events with
  | nil => exact .slnil
  | cons event events ih =>
    cases hfound : pick? event with
    | none =>
      rw [List.filterMap_cons_none hfound]
      exact ih.cons _
    | some found =>
      rw [List.filterMap_cons_some hfound, List.map_cons, h event found hfound]
      exact ih.cons_cons _

def Spelt (token : Token) : Prop := Spells token.kind token.lexeme.toList

theorem Spelt.isPlain {token : Token} (h : Spelt token) (hkind : token.kind = .identifier) :
    IsPlain token.lexeme := by
  rw [Spelt, hkind, Spells, String.ofList_toList] at h
  constructor <;> intro heq <;> rw [heq] at h <;> exact absurd h.2 (by decide)

theorem Spelt.this {token : Token} (h : Spelt token) (hkind : token.kind = .keyword .this) :
    token.lexeme = "this" := by
  rw [Spelt, hkind] at h
  exact String.toList_inj.1 h

/-- The events are well formed, and they are about tokens among `ts`, each about one of its
own. -/
structure Mentions (ts : List Token) (events : List Event) : Prop where
  formed : ∀ event ∈ events, event.Formed
  tokens : (eventTokens events).Subperm ts

namespace Mentions

variable {ts us : List Token} {events more : List Event}

theorem nil : Mentions ts [] := ⟨List.forall_mem_nil _, List.nil_subperm⟩

theorem append (h : Mentions ts events) (hmore : Mentions us more) :
    Mentions (ts ++ us) (events ++ more) := by
  refine ⟨List.forall_mem_append.2 ⟨h.formed, hmore.formed⟩, ?_⟩
  rw [eventTokens_append]
  exact h.tokens.append hmore.tokens

theorem token_mem (h : Mentions ts events) {event : Event} (hevent : event ∈ events) :
    event.token ∈ ts :=
  h.tokens.subset (List.mem_map_of_mem hevent)

/-- The order of the tokens does not matter, and there may be others. -/
theorem among (h : Mentions ts events) (hsubperm : ts.Subperm us) : Mentions us events :=
  ⟨h.formed, h.tokens.trans hsubperm⟩

theorem behind (h : Mentions ts events) (token : Token) : Mentions (token :: ts) events :=
  h.among List.subperm_cons_self

theorem before (h : Mentions ts events) (us : List Token) : Mentions (ts ++ us) events :=
  h.among (List.sublist_append_left ts us).subperm

theorem after (h : Mentions us events) (ts : List Token) : Mentions (ts ++ us) events :=
  h.among (List.sublist_append_right ts us).subperm

theorem swap (h : Mentions ts (events ++ more)) : Mentions ts (more ++ events) := by
  obtain ⟨hevents, hmore⟩ := List.forall_mem_append.1 h.formed
  refine ⟨List.forall_mem_append.2 ⟨hmore, hevents⟩, List.Subperm.trans ?_ h.tokens⟩
  rw [eventTokens_append, eventTokens_append]
  exact List.perm_append_comm.subperm

/-- An event about a token of its own. -/
theorem also (event : Event) (hformed : event.Formed) (h : Mentions ts events) :
    Mentions (event.token :: ts) (event :: events) :=
  ⟨List.forall_mem_cons.2 ⟨hformed, h.formed⟩, (List.subperm_cons event.token).2 h.tokens⟩

theorem declaration {name : Token} {place : Place} (hname : IsPlain name.lexeme)
    (h : Mentions ts events) : Mentions (name :: ts) (.declaration name place :: events) :=
  also (.declaration name place) hname h

theorem returns {keyword : Token} {withValue : Bool} {context : Context} (h : Mentions ts events) :
    Mentions (keyword :: ts) (.returns keyword withValue context :: events) :=
  also (.returns keyword withValue context) trivial h

theorem reference {sort : ReferenceSort} {token : Token} {name : String} {place : Place}
    (h : Reference.Formed ⟨sort, token, name, place⟩) :
    Mentions [token] [.reference ⟨sort, token, name, place⟩] :=
  also (.reference ⟨sort, token, name, place⟩) h nil

theorem inherits {name superclass : Token} {place : Place} (hname : IsPlain name.lexeme)
    (hsuperclass : IsPlain superclass.lexeme) :
    Mentions [superclass] [.inherits name ⟨.read, superclass, superclass.lexeme, place⟩] :=
  also (.inherits name ⟨.read, superclass, superclass.lexeme, place⟩) ⟨hname, hsuperclass, rfl⟩ nil

end Mentions

def Told (sort : Nonterminal) (ts : List Token) (tree : sort.Tree) : Prop :=
  match sort, tree with
  | .phrase _, expr => ∀ place, Mentions ts (Expr.events place expr)
  | .arguments, args | .argumentList, args => ∀ place, Mentions ts (argEvents place args)
  | .optional, expr => ∀ place, Mentions ts (initEvents place expr)
  | .expressionStatement, stmt | .statement _, stmt =>
    Stmt.declared? stmt = none ∧ Stmt.Branched stmt ∧ ∀ place, Mentions ts (Stmt.events place stmt)
  | .varDeclaration, stmt | .declaration, stmt =>
    Stmt.Branched stmt ∧ ∀ place, Mentions ts (Stmt.events place stmt)
  | .initializer, init =>
    ∀ stmt, init = some stmt → Stmt.Branched stmt ∧ ∀ place, Mentions ts (Stmt.events place stmt)
  | .declarations, body => BranchedAll body ∧ ∀ place, Mentions ts (eventsAll place body)
  | .parameters, params | .parameterList, params => ∀ place, Mentions ts (paramEvents place params)
  | .function, decl =>
    IsPlain (FunctionOf.name decl).lexeme ∧ BranchedFunction decl ∧
      ∃ us, ts = FunctionOf.name decl :: us ∧
        ∀ context place, Mentions us (functionEvents context place decl)
  | .methods, decls =>
    BranchedMethods decls ∧ ∀ inClass place, Mentions ts (methodEvents inClass place decls)

theorem Mentions.joined {level : Level} {kind : Kind} {join : Token → Expr → Expr → Expr}
    (h : Joins level kind join) {mark : Token} {left right : Expr} {place : Place}
    {ts us : List Token} (hleft : Mentions ts (left.events place))
    (hright : Mentions us (right.events place)) :
    Mentions (ts ++ mark :: us) ((join mark left right).events place) := by
  cases h <;> exact hleft.append (hright.behind mark)

theorem told_loopBody {body : Stmt} {increment : Option Expr} {bs ns : List Token}
    (hbody : body.Branched ∧ ∀ place, Mentions bs (body.events place))
    (hincrement : ∀ place, Mentions ns (initEvents place increment))
    (hnone : body.declared? = none) :
    (loopBody body increment).declared? = none ∧ (loopBody body increment).Branched ∧
      ∀ place, Mentions (ns ++ bs) ((loopBody body increment).events place) := by
  cases increment with
  | none => exact ⟨hnone, hbody.1, fun place => (hbody.2 place).after ns⟩
  | some increment =>
    -- the increment is written before the body and comes behind it
    refine ⟨rfl, ⟨hbody.1, trivial, trivial⟩, fun place =>
      .among ((hbody.2 _).append ?_) List.perm_append_comm.subperm⟩
    simpa [eventsAll, Stmt.events, initEvents] using hincrement _

theorem told_loop {init : Option Stmt} {condition increment : Option Expr} {body : Stmt}
    {is cs ns bs : List Token} (hinit : Told .initializer is init)
    (hcondition : ∀ place, Mentions cs (initEvents place condition))
    (hincrement : ∀ place, Mentions ns (initEvents place increment))
    (hbody : body.declared? = none ∧ body.Branched ∧ ∀ place, Mentions bs (body.events place)) :
    (loop condition increment body init).declared? = none ∧
      (loop condition increment body init).Branched ∧
      ∀ place, Mentions (is ++ (cs ++ (ns ++ bs)))
        ((loop condition increment body init).events place) := by
  obtain ⟨hnone, hbranched, hevents⟩ := told_loopBody hbody.2 hincrement hbody.1
  have hwhile (place : Place) : Mentions (cs ++ (ns ++ bs))
      (Stmt.events place (.whileLoop (loopCondition condition) (loopBody body increment))) := by
    refine Mentions.append ?_ (hevents place)
    cases condition with
    | none => exact .nil
    | some condition => exact hcondition place
  cases init with
  | none => exact ⟨rfl, ⟨hnone, hbranched⟩, fun place => (hwhile place).after is⟩
  | some init =>
    obtain ⟨hinitBranched, hinitEvents⟩ := hinit init rfl
    refine ⟨rfl, ⟨hinitBranched, ⟨hnone, hbranched⟩, trivial⟩, fun place => ?_⟩
    refine (hinitEvents _).append ?_
    simpa [eventsAll] using hwhile _

theorem Syntax.Derives.told {sort : Nonterminal} {ts : List Token} {tree : sort.Tree}
    (h : Derives sort ts tree) (hspelt : ∀ token ∈ ts, Spelt token) : Told sort ts tree := by
  induction h with
    try simp only [List.forall_mem_cons, List.forall_mem_append] at hspelt
  | literal writes => exact fun place => .nil
  | this hthis => exact fun place => .reference ⟨rfl, hspelt.1.this hthis⟩
  | ref hname => exact fun place => .reference ⟨hspelt.1.isPlain hname, rfl⟩
  | @super keyword dot method hsuper hdot hmethod =>
    have hself (place : Place) :
        Mentions [keyword] [.reference ⟨.super, keyword, "super", place⟩] := .reference rfl
    exact fun place => (hself place).before [dot, method]
  | grouping hleft hinner hright ih =>
    exact fun place => ((ih hspelt.2.1 place).before _).behind _
  | call hcallee hleft hargs hright ihcallee ihargs =>
    exact fun place => (ihcallee hspelt.1 place).append
      (((ihargs hspelt.2.2.1 place).before _).behind _)
  | get hobject hdot hname ih => exact fun place => (ih hspelt.1 place).before _
  | unary hmark hright ih => exact fun place => (ih hspelt.2 place).behind _
  | joined hmark hleft hright ihleft ihright =>
    exact fun place => .joined hmark (ihleft hspelt.1 place) (ihright hspelt.2.2 place)
  | @assign name mark ts value hname hmark hvalue ih =>
    have hself (place : Place) :
        Mentions [name] [.reference ⟨.assign, name, name.lexeme, place⟩] :=
      .reference ⟨hspelt.1.isPlain hname, rfl⟩
    exact fun place => ((hself place).append ((ih hspelt.2.2 place).behind _)).swap
  | set hobject hdot hname hmark hvalue ihobject ihvalue =>
    exact fun place => ((ihobject hspelt.1 place).append
      ((((ihvalue hspelt.2.2.2.2 place).behind _).behind _).behind _)).swap
  | looser hexpr ih => exact ih hspelt
  | argument harg ih => exact fun place => by simpa [argEvents] using ih hspelt place
  | moreArguments harg hcomma hargs iharg ihargs =>
    exact fun place => (iharg hspelt.1 place).append ((ihargs hspelt.2.2 place).behind _)
  | noArguments => exact fun place => .nil
  | someArguments hargs hcount ih => exact ih hspelt
  | absent => exact fun place => .nil
  | present hexpr ih => exact ih hspelt
  | expressionStatement hvalue hstop ih =>
    exact ⟨rfl, trivial, fun place => (ih hspelt.1 place).before _⟩
  | plainVariable hvar hname hstop =>
    exact ⟨trivial, fun place => .behind (.declaration (hspelt.2.1.isPlain hname) .nil) _⟩
  | initialVariable hvar hname hmark hinit hstop ih =>
    refine ⟨trivial, fun place => .behind (.declaration (hspelt.2.1.isPlain hname) ?_) _⟩
    exact ((ih hspelt.2.2.2.1 _).before _).behind _
  | noInitializer hstop => exact fun stmt heq => by cases heq
  | variableInitializer hinit ih =>
    rintro stmt ⟨⟩
    exact ih hspelt
  | expressionInitializer hinit ih =>
    rintro stmt ⟨⟩
    exact (ih hspelt).2
  | expression hstmt ih => exact ih hspelt
  | print hprint hvalue hstop ih =>
    exact ⟨rfl, trivial, fun place => ((ih hspelt.2.1 place).before _).behind _⟩
  | returns hreturn hvalue hstop ih =>
    exact ⟨rfl, trivial, fun place => .returns ((ih hspelt.2.1 place).before _)⟩
  | block hleft hbody hright ih =>
    obtain ⟨hbranched, hevents⟩ := ih hspelt.2.1
    exact ⟨rfl, hbranched, fun place => ((hevents _).before _).behind _⟩
  | whileLoop hwhile hleft hcondition hright hbody ihcondition ihbody =>
    obtain ⟨hnone, hbranched, hevents⟩ := ihbody hspelt.2.2.2.2
    exact ⟨rfl, ⟨hnone, hbranched⟩, fun place =>
      (((ihcondition hspelt.2.2.1 place).append ((hevents place).behind _)).behind _).behind _⟩
  | forLoop hfor hleft hinit hcondition hmiddle hincrement hright hbody ihinit ihcondition
      ihincrement ihbody =>
    obtain ⟨hnone, hbranched, hevents⟩ := told_loop (ihinit hspelt.2.2.1)
      (ihcondition hspelt.2.2.2.1) (ihincrement hspelt.2.2.2.2.2.1)
      (ihbody hspelt.2.2.2.2.2.2.2)
    refine ⟨hnone, hbranched, fun place => (hevents place).among (List.Sublist.subperm ?_)⟩
    refine .cons _ (.cons _ ((List.Sublist.append_left ?_ _).append_left _))
    exact .cons _ ((List.sublist_cons_self _ _).append_left _)
  | ifThen hif hleft hcondition hright hyes ihcondition ihyes =>
    obtain ⟨hnone, hbranched, hevents⟩ := ihyes hspelt.2.2.2.2
    refine ⟨rfl, ⟨hnone, hbranched, trivial⟩, fun place => ?_⟩
    exact (((ihcondition hspelt.2.2.1 place).append (.behind (by
      simpa [elseEvents] using hevents place) _)).behind _).behind _
  | ifElse hif hleft hcondition hright hyes helse hno ihcondition ihyes ihno =>
    obtain ⟨hnoneYes, hbranchedYes, heventsYes⟩ := ihyes hspelt.2.2.2.2.1
    obtain ⟨hnoneNo, hbranchedNo, heventsNo⟩ := ihno hspelt.2.2.2.2.2.2
    refine ⟨rfl, ⟨hnoneYes, hbranchedYes, hnoneNo, hbranchedNo⟩, fun place => ?_⟩
    exact (((ihcondition hspelt.2.2.1 place).append (((heventsYes place).append
      ((heventsNo place).behind _)).behind _)).behind _).behind _
  | classDef hclass hname hleft hmethods hright ih =>
    obtain ⟨hbranched, hevents⟩ := ih hspelt.2.2.2.1
    refine ⟨hbranched, fun place => .behind (.declaration (hspelt.2.1.isPlain hname) ?_) _⟩
    exact ((hevents _ _).before _).behind _
  | subclassDef hclass hname hless hsuperclass hleft hmethods hright ih =>
    obtain ⟨hbranched, hevents⟩ := ih hspelt.2.2.2.2.2.1
    have hplain := hspelt.2.1.isPlain hname
    refine ⟨hbranched, fun place => .behind (.declaration hplain (.behind ?_ _)) _⟩
    exact Mentions.append (.inherits hplain (hspelt.2.2.2.1.isPlain hsuperclass))
      (((hevents _ _).before _).behind _)
  | functionDef hfun hfunction ih =>
    obtain ⟨hplain, hbranched, us, rfl, hevents⟩ := ih hspelt.2
    exact ⟨hbranched, fun place => .behind (.declaration hplain (hevents _ _)) _⟩
  | variableDef hvariable ih => exact ih hspelt
  | statement hstmt ih => exact (ih hspelt).2
  | noDeclarations => exact ⟨trivial, fun place => .nil⟩
  | moreDeclarations hfirst hrest ihfirst ihrest =>
    obtain ⟨hbranchedFirst, heventsFirst⟩ := ihfirst hspelt.1
    obtain ⟨hbranchedRest, heventsRest⟩ := ihrest hspelt.2
    exact ⟨⟨hbranchedFirst, hbranchedRest⟩, fun place => (heventsFirst _).append (heventsRest _)⟩
  | parameter hparam => exact fun place => .declaration (hspelt.1.isPlain hparam) .nil
  | moreParameters hparam hcomma hparams ih =>
    exact fun place => .declaration (hspelt.1.isPlain hparam) ((ih hspelt.2.2 _).behind _)
  | noParameters => exact fun place => .nil
  | someParameters hparams hcount ih => exact ih hspelt
  | function hname hleft hparams hright hopen hbody hclose ihparams ihbody =>
    obtain ⟨hbranched, hevents⟩ := ihbody hspelt.2.2.2.2.2.1
    refine ⟨hspelt.1.isPlain hname, hbranched, _, rfl, fun context place => ?_⟩
    exact ((ihparams hspelt.2.2.1 _).append
      ((((hevents _).before _).behind _).behind _)).behind _
  | noMethods => exact ⟨trivial, fun inClass place => .nil⟩
  | moreMethods hfirst hrest ihfirst ihrest =>
    obtain ⟨-, hbranchedFirst, us, rfl, heventsFirst⟩ := ihfirst hspelt.1
    obtain ⟨hbranchedRest, heventsRest⟩ := ihrest hspelt.2
    exact ⟨⟨hbranchedFirst, hbranchedRest⟩,
      fun inClass place => ((heventsFirst _ _).behind _).append (heventsRest _ _)⟩

end Moth
