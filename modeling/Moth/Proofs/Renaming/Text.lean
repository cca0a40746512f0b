import Moth.Proofs.Renaming.Variable
import Moth.Proofs.Rendering.Copying
import Moth.Proofs.Resolving.Parsed
/-!
# A text of the renamed program

The grammar derives the renamed program from tokens of the same kinds, and written with a blank
behind each token they are a text that is scanned as these tokens.
-/

namespace Moth

open Scan Syntax

section

variable (r : LocalRenaming) (Q : Token → Prop)

def renameTree (depth : Option Nat) : (sort : Nonterminal) → sort.Tree → sort.Tree
  | .phrase _, expr => Expr.rename r depth expr
  | .arguments, args | .argumentList, args => renameArgs r depth args
  | .optional, expr => Option.map (Expr.rename r depth) expr
  | .expressionStatement, stmt | .statement _, stmt | .varDeclaration, stmt
  | .declaration, stmt => Stmt.rename r depth stmt
  | .initializer, init => Option.map (Stmt.rename r depth) init
  | .declarations, body => renameAll r depth body
  | .parameters, params | .parameterList, params => List.map (r.declaration depth) params
  | .function, decl => renameFunction r depth decl
  | .methods, decls => renameMethods r depth decls

def Rewritten (sort : Nonterminal) (tree : sort.Tree) : Prop :=
  ∀ depth, ∃ us, Derives sort us (renameTree r depth sort tree) ∧ ∀ token ∈ us, Q token

end

section

variable {r : LocalRenaming} {Q : Token → Prop}

theorem Syntax.Joins.rename {level : Level} {kind : Kind} {join : Token → Expr → Expr → Expr}
    (h : Joins level kind join) (depth : Option Nat) (mark : Token) (left right : Expr) :
    (join mark left right).rename r depth =
      join mark (left.rename r depth) (right.rename r depth) := by
  cases h <;> rfl

theorem length_renameArgs (depth : Option Nat) (args : List Expr) :
    (renameArgs r depth args).length = args.length := by
  induction args with
  | nil => rfl
  | cons arg args ih => exact congrArg (· + 1) ih

/-- A renamed loop is a loop of renamed parts, each seen from its own scope. -/
theorem rename_loop (depth : Option Nat) (condition increment : Option Expr) (body : Stmt)
    (init : Option Stmt) : ∃ outer inner, (loop condition increment body init).rename r depth =
      loop (condition.map (Expr.rename r outer)) (increment.map (Expr.rename r inner))
        (body.rename r inner) (init.map (Stmt.rename r outer)) := by
  have hbody (depth : Option Nat) : ∃ inner, (loopBody body increment).rename r depth =
      loopBody (body.rename r inner) (increment.map (Expr.rename r inner)) := by
    cases increment with
    | none => exact ⟨depth, rfl⟩
    | some increment => exact ⟨_, rfl⟩
  have hcondition (depth : Option Nat) : (loopCondition condition).rename r depth =
      loopCondition (condition.map (Expr.rename r depth)) := by
    cases condition <;> rfl
  cases init with
  | none =>
    obtain ⟨inner, hinner⟩ := hbody depth
    refine ⟨depth, inner, ?_⟩
    simp only [loop, Stmt.rename, hinner, hcondition, Option.map_none]
  | some init =>
    let outer := r.enter ([init, .whileLoop (loopCondition condition)
      (loopBody body increment)].filterMap Stmt.variable?) depth
    obtain ⟨inner, hinner⟩ := hbody outer
    refine ⟨outer, inner, ?_⟩
    simp only [loop, Stmt.rename, renameAll, hinner, hcondition, Option.map_some, outer]

theorem kind_reference (depth : Option Nat) (name : Token) :
    (r.reference depth name).kind = name.kind := by
  rcases r.reference_cases depth name with h | h <;> rw [h]

theorem kind_declaration (depth : Option Nat) (name : Token) :
    (r.declaration depth name).kind = name.kind := by
  rcases r.declaration_cases depth name with h | h <;> rw [h]

/-- The tokens are the same, but for names that have become the new one. -/
inductive Recast (fresh : String) : List Token → List Token → Prop where
  | nil : Recast fresh [] []
  | same {token : Token} {ts us : List Token} : Recast fresh ts us →
      Recast fresh (token :: ts) (token :: us)
  | changed {name : Token} {ts us : List Token} : name.kind = .identifier → Recast fresh ts us →
      Recast fresh (name :: ts) ({ name with lexeme := fresh } :: us)

namespace Recast

variable {fresh : String} {ts us vs ws : List Token} {name : Token}

theorem append (h : Recast fresh ts us) (hmore : Recast fresh vs ws) :
    Recast fresh (ts ++ vs) (us ++ ws) := by
  induction h with
  | nil => exact hmore
  | same _ ih => exact .same ih
  | changed hname _ ih => exact .changed hname ih

theorem reference (h : Recast r.fresh ts us) (hname : name.kind = .identifier)
    (depth : Option Nat) : Recast r.fresh (name :: ts) (r.reference depth name :: us) := by
  rcases r.reference_cases depth name with heq | heq <;> rw [heq]
  · exact .same h
  · exact .changed hname h

theorem declaration (h : Recast r.fresh ts us) (hname : name.kind = .identifier)
    (depth : Option Nat) : Recast r.fresh (name :: ts) (r.declaration depth name :: us) := by
  rcases r.declaration_cases depth name with heq | heq <;> rw [heq]
  · exact .same h
  · exact .changed hname h

theorem forall_mem (h : Recast fresh ts us)
    (hfresh : ∀ name : Token, name.kind = .identifier → Q { name with lexeme := fresh })
    (hkept : ∀ token ∈ ts, Q token) : ∀ token ∈ us, Q token := by
  induction h with
  | nil => exact hkept
  | same _ ih =>
    obtain ⟨htoken, hrest⟩ := List.forall_mem_cons.1 hkept
    exact List.forall_mem_cons.2 ⟨htoken, ih hrest⟩
  | changed hname _ ih =>
    exact List.forall_mem_cons.2 ⟨hfresh _ hname, ih (List.forall_mem_cons.1 hkept).2⟩

end Recast

/-- The grammar derives the renamed phrase from tokens in which only names have changed. -/
theorem Syntax.Derives.recast {sort : Nonterminal} {ts : List Token} {tree : sort.Tree}
    (h : Derives sort ts tree) (depth : Option Nat) :
    ∃ us, Derives sort us (renameTree r depth sort tree) ∧ Recast r.fresh ts us := by
  induction h generalizing depth with
  | literal writes => exact ⟨_, .literal writes, .same .nil⟩
  | this hthis => exact ⟨_, .this hthis, .same .nil⟩
  | ref hname =>
    exact ⟨_, .ref ((kind_reference depth _).trans hname), Recast.nil.reference hname depth⟩
  | super hsuper hdot hmethod =>
    exact ⟨_, .super hsuper hdot hmethod, .same (.same (.same .nil))⟩
  | grouping hleft _ hright ih =>
    obtain ⟨us, hus, hinner⟩ := ih depth
    exact ⟨_, .grouping hleft hus hright, .same (hinner.append (.same .nil))⟩
  | call _ hleft _ hright ihcallee ihargs =>
    obtain ⟨ts', hts, hcallee⟩ := ihcallee depth
    obtain ⟨us', hus, hargs⟩ := ihargs depth
    exact ⟨_, .call hts hleft hus hright,
      hcallee.append (.same (hargs.append (.same .nil)))⟩
  | get _ hdot hname ih =>
    obtain ⟨us, hus, hobject⟩ := ih depth
    exact ⟨_, .get hus hdot hname, hobject.append (.same (.same .nil))⟩
  | unary hmark _ ih =>
    obtain ⟨us, hus, hright⟩ := ih depth
    exact ⟨_, .unary hmark hus, .same hright⟩
  | joined hmark _ _ ihleft ihright =>
    obtain ⟨ts', hts, hleft⟩ := ihleft depth
    obtain ⟨us', hus, hright⟩ := ihright depth
    refine ⟨_, ?_, hleft.append (.same hright)⟩
    simp only [renameTree, hmark.rename]
    exact .joined hmark hts hus
  | assign hname hmark _ ih =>
    obtain ⟨us, hus, hvalue⟩ := ih depth
    exact ⟨_, .assign ((kind_reference depth _).trans hname) hmark hus,
      (Recast.same hvalue).reference hname depth⟩
  | set _ hdot hname hmark _ ihobject ihvalue =>
    obtain ⟨ts', hts, hobject⟩ := ihobject depth
    obtain ⟨us', hus, hvalue⟩ := ihvalue depth
    exact ⟨_, .set hts hdot hname hmark hus, hobject.append (.same (.same (.same hvalue)))⟩
  | looser _ ih =>
    obtain ⟨us, hus, hexpr⟩ := ih depth
    exact ⟨us, .looser hus, hexpr⟩
  | argument _ ih =>
    obtain ⟨us, hus, harg⟩ := ih depth
    exact ⟨us, .argument hus, harg⟩
  | moreArguments _ hcomma _ iharg ihargs =>
    obtain ⟨ts', hts, harg⟩ := iharg depth
    obtain ⟨us', hus, hargs⟩ := ihargs depth
    exact ⟨_, .moreArguments hts hcomma hus, harg.append (.same hargs)⟩
  | noArguments => exact ⟨[], .noArguments, .nil⟩
  | someArguments _ hcount ih =>
    obtain ⟨us, hus, hargs⟩ := ih depth
    exact ⟨us, .someArguments hus ((length_renameArgs depth _).trans_le hcount), hargs⟩
  | absent => exact ⟨[], .absent, .nil⟩
  | present _ ih =>
    obtain ⟨us, hus, hexpr⟩ := ih depth
    exact ⟨us, .present hus, hexpr⟩
  | expressionStatement _ hstop ih =>
    obtain ⟨us, hus, hvalue⟩ := ih depth
    exact ⟨_, .expressionStatement hus hstop, hvalue.append (.same .nil)⟩
  | plainVariable hvar hname hstop =>
    exact ⟨_, .plainVariable hvar ((kind_declaration depth _).trans hname) hstop,
      .same ((Recast.same .nil).declaration hname depth)⟩
  | initialVariable hvar hname hmark _ hstop ih =>
    obtain ⟨us, hus, hinit⟩ := ih depth
    exact ⟨_, .initialVariable hvar ((kind_declaration depth _).trans hname) hmark hus hstop,
      .same ((Recast.same (hinit.append (.same .nil))).declaration hname depth)⟩
  | noInitializer hstop => exact ⟨_, .noInitializer hstop, .same .nil⟩
  | variableInitializer _ ih =>
    obtain ⟨us, hus, hinit⟩ := ih depth
    exact ⟨us, .variableInitializer hus, hinit⟩
  | expressionInitializer _ ih =>
    obtain ⟨us, hus, hinit⟩ := ih depth
    exact ⟨us, .expressionInitializer hus, hinit⟩
  | expression _ ih =>
    obtain ⟨us, hus, hstmt⟩ := ih depth
    exact ⟨us, .expression hus, hstmt⟩
  | print hprint _ hstop ih =>
    obtain ⟨us, hus, hvalue⟩ := ih depth
    exact ⟨_, .print hprint hus hstop, .same (hvalue.append (.same .nil))⟩
  | returns hreturn _ hstop ih =>
    obtain ⟨us, hus, hvalue⟩ := ih depth
    exact ⟨_, .returns hreturn hus hstop, .same (hvalue.append (.same .nil))⟩
  | @block _ _ _ body hleft _ hright ih =>
    obtain ⟨us, hus, hbody⟩ := ih (r.enter (body.filterMap Stmt.variable?) depth)
    exact ⟨_, .block hleft hus hright, .same (hbody.append (.same .nil))⟩
  | whileLoop hwhile hleft _ hright _ ihcondition ihbody =>
    obtain ⟨ts', hts, hcondition⟩ := ihcondition depth
    obtain ⟨us', hus, hbody⟩ := ihbody depth
    exact ⟨_, .whileLoop hwhile hleft hts hright hus,
      .same (.same (hcondition.append (.same hbody)))⟩
  | @forLoop _ _ _ _ _ _ _ _ init condition increment body opens hfor hleft _ _ hmiddle _ hright _
      ihinit ihcondition ihincrement ihbody =>
    obtain ⟨outer, inner, hloop⟩ := rename_loop depth condition increment body init
    obtain ⟨is', his, hinit⟩ := ihinit outer
    obtain ⟨cs', hcs, hcondition⟩ := ihcondition outer
    obtain ⟨ns', hns, hincrement⟩ := ihincrement inner
    obtain ⟨bs', hbs, hbody⟩ := ihbody inner
    refine ⟨_, ?_, .same (.same (hinit.append (hcondition.append
      (.same (hincrement.append (.same hbody))))))⟩
    show Derives (.statement opens) _ (Stmt.rename r depth (loop condition increment body init))
    rw [hloop]
    exact .forLoop hfor hleft his hcs hmiddle hns hright hbs
  | ifThen hif hleft _ hright _ ihcondition ihyes =>
    obtain ⟨ts', hts, hcondition⟩ := ihcondition depth
    obtain ⟨us', hus, hyes⟩ := ihyes depth
    exact ⟨_, .ifThen hif hleft hts hright hus, .same (.same (hcondition.append (.same hyes)))⟩
  | ifElse hif hleft _ hright _ helse _ ihcondition ihyes ihno =>
    obtain ⟨ts', hts, hcondition⟩ := ihcondition depth
    obtain ⟨us', hus, hyes⟩ := ihyes depth
    obtain ⟨vs', hvs, hno⟩ := ihno depth
    exact ⟨_, .ifElse hif hleft hts hright hus helse hvs,
      .same (.same (hcondition.append (.same (hyes.append (.same hno)))))⟩
  | classDef hclass hname hleft _ hright ih =>
    obtain ⟨us, hus, hmethods⟩ := ih (r.enter [] depth)
    exact ⟨_, .classDef hclass hname hleft hus hright,
      .same (.same (.same (hmethods.append (.same .nil))))⟩
  | subclassDef hclass hname hless hsuperclass hleft _ hright ih =>
    obtain ⟨us, hus, hmethods⟩ := ih (r.enter [] (r.enter [] depth))
    exact ⟨_, .subclassDef hclass hname hless ((kind_reference depth _).trans hsuperclass) hleft hus
      hright, .same (.same (.same ((Recast.same (hmethods.append (.same .nil))).reference
        hsuperclass depth)))⟩
  | functionDef hfun _ ih =>
    obtain ⟨us, hus, hfunction⟩ := ih depth
    exact ⟨_, .functionDef hfun hus, .same hfunction⟩
  | variableDef _ ih =>
    obtain ⟨us, hus, hvariable⟩ := ih depth
    exact ⟨us, .variableDef hus, hvariable⟩
  | statement _ ih =>
    obtain ⟨us, hus, hstmt⟩ := ih depth
    exact ⟨us, .statement hus, hstmt⟩
  | noDeclarations => exact ⟨[], .noDeclarations, .nil⟩
  | moreDeclarations _ _ ihfirst ihrest =>
    obtain ⟨ts', hts, hfirst⟩ := ihfirst depth
    obtain ⟨us', hus, hrest⟩ := ihrest depth
    exact ⟨_, .moreDeclarations hts hus, hfirst.append hrest⟩
  | parameter hparam =>
    exact ⟨_, .parameter ((kind_declaration depth _).trans hparam),
      Recast.nil.declaration hparam depth⟩
  | moreParameters hparam hcomma _ ih =>
    obtain ⟨us, hus, hparams⟩ := ih depth
    exact ⟨_, .moreParameters ((kind_declaration depth _).trans hparam) hcomma hus,
      (Recast.same hparams).declaration hparam depth⟩
  | noParameters => exact ⟨[], .noParameters, .nil⟩
  | someParameters _ hcount ih =>
    obtain ⟨us, hus, hparams⟩ := ih depth
    exact ⟨us, .someParameters hus (List.length_map _ |>.trans_le hcount), hparams⟩
  | @function _ _ _ _ _ _ _ params body hname hleft _ hright hopen _ hclose ihparams ihbody =>
    obtain ⟨ts', hts, hparams⟩ := ihparams (r.enter (params ++ body.filterMap Stmt.variable?) depth)
    obtain ⟨us', hus, hbody⟩ := ihbody (r.enter (params ++ body.filterMap Stmt.variable?) depth)
    exact ⟨_, .function hname hleft hts hright hopen hus hclose,
      .same (.same (hparams.append (.same (.same (hbody.append (.same .nil))))))⟩
  | noMethods => exact ⟨[], .noMethods, .nil⟩
  | moreMethods _ _ ihfirst ihrest =>
    obtain ⟨ts', hts, hfirst⟩ := ihfirst depth
    obtain ⟨us', hus, hrest⟩ := ihrest depth
    exact ⟨_, .moreMethods hts hus, hfirst.append hrest⟩

/-- A property that the tokens of a program have, and have under the new name, is one of the tokens
of the renamed program. -/
theorem Syntax.Derives.rewritten {sort : Nonterminal} {ts : List Token} {tree : sort.Tree}
    (h : Derives sort ts tree)
    (hfresh : ∀ name : Token, name.kind = .identifier → Q { name with lexeme := r.fresh })
    (hkept : ∀ token ∈ ts, Q token) : Rewritten r Q sort tree := by
  intro depth
  obtain ⟨us, hus, hrecast⟩ := h.recast depth
  exact ⟨us, hus, hrecast.forall_mem hfresh hkept⟩

end

/-! ## Writing tokens -/

def plainText (tokens : List Token) : List Char :=
  tokens.flatMap fun token => token.lexeme.toList ++ [' ']

theorem apart_blank (kind : Kind) (rest : List Char) : Apart kind (' ' :: rest) := by
  unfold Apart
  split <;> simp <;> decide

theorem lexes_plainText {tokens : List Token} (h : ∀ token ∈ tokens, Spelt token)
    (rest : List Char) : Lexes (plainText tokens) (tokens.map Token.word) rest := by
  induction tokens with
  | nil => exact lexes_nil rest
  | cons token tokens ih =>
    obtain ⟨htoken, hrest⟩ := List.forall_mem_cons.1 h
    have hword : Lexes token.lexeme.toList [token.word] ([' '] ++ plainText tokens ++ rest) := by
      have hlexes := lexes_word htoken (apart_blank token.kind (plainText tokens ++ rest))
      rwa [String.ofList_toList] at hlexes
    have hblank : Lexes ([' '] ++ plainText tokens) ([] ++ tokens.map Token.word) rest :=
      (lexes_blank (.inl rfl) _).append (ih hrest)
    have htext : plainText (token :: tokens) =
        token.lexeme.toList ++ ([' '] ++ plainText tokens) := by
      simp [plainText]
    rw [htext]
    exact hword.append hblank

/-- The tokens of a program that can be written are the tokens of a text of it. -/
theorem Syntax.Derives.text {us : List Token} {program : List Stmt}
    (h : Derives .declarations us program) (hspelt : ∀ token ∈ us, Spelt token) (unit : Nat) :
    ∃ text : String, (scan unit text.toList).complaints = #[] ∧ ∃ copy,
      Derives .declarations (scan unit text.toList).tokens.toList copy ∧
        bareAll copy = bareAll program := by
  refine ⟨String.ofList (plainText us), ?_⟩
  rw [String.toList_ofList]
  obtain ⟨hquiet, hwords⟩ := (lexes_plainText hspelt []).quiet unit
  exact ⟨hquiet, h.copies hwords⟩

end Moth
