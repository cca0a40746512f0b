import Moth.Tree.Basic
import Moth.Tree.Fault
/-!
# Derivations

The grammar of Moth as a relation between token lists and the trees they stand for.
Nothing here mentions a cursor or an order of reading: `Derives` has one rule for each
production, and the parser is compared with it elsewhere.

An `else` belongs to the nearest `if` that is still open.  A derived statement therefore
says whether it ends in such an `if`, and what stands before an `else` must not.
-/

namespace Moth.Syntax

inductive Level where
  | assignment | disjunction | conjunction | equality | comparison | term | factor
  | unary | call | primary
deriving DecidableEq, Repr

def Level.tighter : Level → Level
  | assignment => disjunction
  | disjunction => conjunction
  | conjunction => equality
  | equality => comparison
  | comparison => term
  | term => factor
  | factor => unary
  | unary => call
  | call => primary
  | primary => primary

inductive Joins : Level → Kind → (Token → Expr → Expr → Expr) → Prop where
  | or : Joins .disjunction (.keyword .or) (.logical .or)
  | and : Joins .conjunction (.keyword .and) (.logical .and)
  | notEqual : Joins .equality (.symbol .bangEqual) (.binary .notEqual)
  | equal : Joins .equality (.symbol .equalEqual) (.binary .equal)
  | greater : Joins .comparison (.symbol .greater) (.binary .greater)
  | greaterEqual : Joins .comparison (.symbol .greaterEqual) (.binary .greaterEqual)
  | less : Joins .comparison (.symbol .less) (.binary .less)
  | lessEqual : Joins .comparison (.symbol .lessEqual) (.binary .lessEqual)
  | subtract : Joins .term (.symbol .minus) (.binary .subtract)
  | add : Joins .term (.symbol .plus) (.binary .add)
  | divide : Joins .factor (.symbol .slash) (.binary .divide)
  | multiply : Joins .factor (.symbol .star) (.binary .multiply)

inductive Prefixes : Kind → UnaryOp → Prop where
  | not : Prefixes (.symbol .bang) .not
  | negate : Prefixes (.symbol .minus) .negate

inductive Writes : Kind → Literal → Prop where
  | false : Writes (.keyword .false) (.bool false)
  | true : Writes (.keyword .true) (.bool true)
  | nil : Writes (.keyword .nil) .nil
  | number (value : Number) : Writes (.number value) (.number value)
  | string (value : String) : Writes (.string value) (.string value)

/-- The sorts of phrases.  `statement opens` is a statement that ends in an `if`
without `else` exactly if `opens` holds. -/
inductive Nonterminal where
  | phrase (level : Level)
  | arguments
  | argumentList
  | optional
  | expressionStatement
  | varDeclaration
  | initializer
  | statement (opens : Bool)
  | declaration
  | declarations
  | parameters
  | parameterList
  | function
  | methods

abbrev Nonterminal.Tree : Nonterminal → Type
  | phrase _ => Expr
  | arguments | argumentList => List Expr
  | optional => Option Expr
  | expressionStatement | varDeclaration | statement _ | declaration => Stmt
  | initializer => Option Stmt
  | declarations => List Stmt
  | parameters | parameterList => List Token
  | function => FunctionDecl
  | methods => List FunctionDecl

def loopBody (body : Stmt) : Option Expr → Stmt
  | none => body
  | some increment => .block [body, .expression increment]

/-- A for loop's condition; a missing one always holds. -/
def loopCondition : Option Expr → Expr
  | none => .literal (.bool true)
  | some condition => condition

def loop (condition increment : Option Expr) (body : Stmt) : Option Stmt → Stmt
  | none => .whileLoop (loopCondition condition) (loopBody body increment)
  | some init =>
    .block [init, .whileLoop (loopCondition condition) (loopBody body increment)]

inductive Derives : (sort : Nonterminal) → List Token → sort.Tree → Prop where
  | literal {token : Token} {value : Literal} (writes : Writes token.kind value) :
      Derives (.phrase .primary) [token] (.literal value)
  | this {keyword : Token} (hthis : keyword.kind = .keyword .this) :
      Derives (.phrase .primary) [keyword] (.this keyword)
  | ref {name : Token} (hname : name.kind = .identifier) :
      Derives (.phrase .primary) [name] (.ref name)
  | super {keyword dot method : Token} (hsuper : keyword.kind = .keyword .super)
      (hdot : dot.kind = .symbol .dot) (hmethod : method.kind = .identifier) :
      Derives (.phrase .primary) [keyword, dot, method] (.super keyword method)
  | grouping {left right : Token} {ts : List Token} {inner : Expr}
      (hleft : left.kind = .symbol .leftParen)
      (hinner : Derives (.phrase .assignment) ts inner)
      (hright : right.kind = .symbol .rightParen) :
      Derives (.phrase .primary) (left :: (ts ++ [right])) (.grouping inner)
  | call {left right : Token} {ts us : List Token} {callee : Expr} {args : List Expr}
      (hcallee : Derives (.phrase .call) ts callee)
      (hleft : left.kind = .symbol .leftParen) (hargs : Derives .argumentList us args)
      (hright : right.kind = .symbol .rightParen) :
      Derives (.phrase .call) (ts ++ left :: (us ++ [right])) (.call callee right args)
  | get {dot name : Token} {ts : List Token} {object : Expr}
      (hobject : Derives (.phrase .call) ts object)
      (hdot : dot.kind = .symbol .dot) (hname : name.kind = .identifier) :
      Derives (.phrase .call) (ts ++ [dot, name]) (.get object name)
  | unary {mark : Token} {op : UnaryOp} {ts : List Token} {right : Expr}
      (hmark : Prefixes mark.kind op) (hright : Derives (.phrase .unary) ts right) :
      Derives (.phrase .unary) (mark :: ts) (.unary op mark right)
  | joined {level : Level} {mark : Token} {join : Token → Expr → Expr → Expr}
      {ts us : List Token} {left right : Expr} (hmark : Joins level mark.kind join)
      (hleft : Derives (.phrase level) ts left)
      (hright : Derives (.phrase level.tighter) us right) :
      Derives (.phrase level) (ts ++ mark :: us) (join mark left right)
  | assign {name mark : Token} {ts : List Token} {value : Expr}
      (hname : name.kind = .identifier) (hmark : mark.kind = .symbol .equal)
      (hvalue : Derives (.phrase .assignment) ts value) :
      Derives (.phrase .assignment) (name :: mark :: ts) (.assign name value)
  | set {dot name mark : Token} {ts us : List Token} {object value : Expr}
      (hobject : Derives (.phrase .call) ts object)
      (hdot : dot.kind = .symbol .dot) (hname : name.kind = .identifier)
      (hmark : mark.kind = .symbol .equal)
      (hvalue : Derives (.phrase .assignment) us value) :
      Derives (.phrase .assignment) (ts ++ dot :: name :: mark :: us)
        (.set object name value)
  | looser {level : Level} {ts : List Token} {expr : Expr}
      (hexpr : Derives (.phrase level.tighter) ts expr) : Derives (.phrase level) ts expr
  | argument {ts : List Token} {arg : Expr} (harg : Derives (.phrase .assignment) ts arg) :
      Derives .arguments ts [arg]
  | moreArguments {comma : Token} {ts us : List Token} {arg : Expr} {args : List Expr}
      (harg : Derives (.phrase .assignment) ts arg) (hcomma : comma.kind = .symbol .comma)
      (hargs : Derives .arguments us args) :
      Derives .arguments (ts ++ comma :: us) (arg :: args)
  | noArguments : Derives .argumentList [] []
  | someArguments {ts : List Token} {args : List Expr} (hargs : Derives .arguments ts args)
      (hcount : args.length ≤ maxArgs) : Derives .argumentList ts args
  | absent : Derives .optional [] none
  | present {ts : List Token} {expr : Expr}
      (hexpr : Derives (.phrase .assignment) ts expr) : Derives .optional ts (some expr)
  | expressionStatement {stop : Token} {ts : List Token} {value : Expr}
      (hvalue : Derives (.phrase .assignment) ts value)
      (hstop : stop.kind = .symbol .semicolon) :
      Derives .expressionStatement (ts ++ [stop]) (.expression value)
  | plainVariable {keyword name stop : Token} (hvar : keyword.kind = .keyword .var)
      (hname : name.kind = .identifier) (hstop : stop.kind = .symbol .semicolon) :
      Derives .varDeclaration [keyword, name, stop] (.var name none)
  | initialVariable {keyword name mark stop : Token} {ts : List Token} {init : Expr}
      (hvar : keyword.kind = .keyword .var) (hname : name.kind = .identifier)
      (hmark : mark.kind = .symbol .equal) (hinit : Derives (.phrase .assignment) ts init)
      (hstop : stop.kind = .symbol .semicolon) :
      Derives .varDeclaration (keyword :: name :: mark :: (ts ++ [stop])) (.var name (some init))
  | noInitializer {stop : Token} (hstop : stop.kind = .symbol .semicolon) :
      Derives .initializer [stop] none
  | variableInitializer {ts : List Token} {init : Stmt} (hinit : Derives .varDeclaration ts init) :
      Derives .initializer ts (some init)
  | expressionInitializer {ts : List Token} {init : Stmt}
      (hinit : Derives .expressionStatement ts init) : Derives .initializer ts (some init)
  | expression {ts : List Token} {stmt : Stmt}
      (hstmt : Derives .expressionStatement ts stmt) : Derives (.statement false) ts stmt
  | print {keyword stop : Token} {ts : List Token} {value : Expr}
      (hprint : keyword.kind = .keyword .print)
      (hvalue : Derives (.phrase .assignment) ts value)
      (hstop : stop.kind = .symbol .semicolon) :
      Derives (.statement false) (keyword :: (ts ++ [stop])) (.print value)
  | returns {keyword stop : Token} {ts : List Token} {value : Option Expr}
      (hreturn : keyword.kind = .keyword .return) (hvalue : Derives .optional ts value)
      (hstop : stop.kind = .symbol .semicolon) :
      Derives (.statement false) (keyword :: (ts ++ [stop])) (.returns keyword value)
  | block {left right : Token} {ts : List Token} {body : List Stmt}
      (hleft : left.kind = .symbol .leftBrace) (hbody : Derives .declarations ts body)
      (hright : right.kind = .symbol .rightBrace) :
      Derives (.statement false) (left :: (ts ++ [right])) (.block body)
  | whileLoop {keyword left right : Token} {ts us : List Token} {condition : Expr}
      {body : Stmt} {opens : Bool} (hwhile : keyword.kind = .keyword .while)
      (hleft : left.kind = .symbol .leftParen)
      (hcondition : Derives (.phrase .assignment) ts condition)
      (hright : right.kind = .symbol .rightParen)
      (hbody : Derives (.statement opens) us body) :
      Derives (.statement opens) (keyword :: left :: (ts ++ right :: us))
        (.whileLoop condition body)
  | forLoop {keyword left middle right : Token} {is cs ns bs : List Token}
      {init : Option Stmt} {condition increment : Option Expr} {body : Stmt} {opens : Bool}
      (hfor : keyword.kind = .keyword .for) (hleft : left.kind = .symbol .leftParen)
      (hinit : Derives .initializer is init) (hcondition : Derives .optional cs condition)
      (hmiddle : middle.kind = .symbol .semicolon)
      (hincrement : Derives .optional ns increment)
      (hright : right.kind = .symbol .rightParen)
      (hbody : Derives (.statement opens) bs body) :
      Derives (.statement opens)
        (keyword :: left :: (is ++ (cs ++ middle :: (ns ++ right :: bs))))
        (loop condition increment body init)
  | ifThen {keyword left right : Token} {ts us : List Token} {condition : Expr}
      {yes : Stmt} {opens : Bool} (hif : keyword.kind = .keyword .if)
      (hleft : left.kind = .symbol .leftParen)
      (hcondition : Derives (.phrase .assignment) ts condition)
      (hright : right.kind = .symbol .rightParen)
      (hyes : Derives (.statement opens) us yes) :
      Derives (.statement true) (keyword :: left :: (ts ++ right :: us))
        (.ifElse condition yes none)
  | ifElse {keyword left right middle : Token} {ts us vs : List Token} {condition : Expr}
      {yes no : Stmt} {opens : Bool} (hif : keyword.kind = .keyword .if)
      (hleft : left.kind = .symbol .leftParen)
      (hcondition : Derives (.phrase .assignment) ts condition)
      (hright : right.kind = .symbol .rightParen)
      (hyes : Derives (.statement false) us yes)
      (helse : middle.kind = .keyword .else)
      (hno : Derives (.statement opens) vs no) :
      Derives (.statement opens) (keyword :: left :: (ts ++ right :: (us ++ middle :: vs)))
        (.ifElse condition yes (some no))
  | classDef {keyword name left right : Token} {ts : List Token}
      {methods : List FunctionDecl} (hclass : keyword.kind = .keyword .class)
      (hname : name.kind = .identifier) (hleft : left.kind = .symbol .leftBrace)
      (hmethods : Derives .methods ts methods)
      (hright : right.kind = .symbol .rightBrace) :
      Derives .declaration (keyword :: name :: left :: (ts ++ [right]))
        (.classDef name none methods)
  | subclassDef {keyword name less superclass left right : Token} {ts : List Token}
      {methods : List FunctionDecl} (hclass : keyword.kind = .keyword .class)
      (hname : name.kind = .identifier) (hless : less.kind = .symbol .less)
      (hsuperclass : superclass.kind = .identifier)
      (hleft : left.kind = .symbol .leftBrace) (hmethods : Derives .methods ts methods)
      (hright : right.kind = .symbol .rightBrace) :
      Derives .declaration (keyword :: name :: less :: superclass :: left :: (ts ++ [right]))
        (.classDef name (some superclass) methods)
  | functionDef {keyword : Token} {ts : List Token} {declaration : FunctionDecl}
      (hfun : keyword.kind = .keyword .fun)
      (hfunction : Derives .function ts declaration) :
      Derives .declaration (keyword :: ts) (.function declaration)
  | variableDef {ts : List Token} {stmt : Stmt} (hvariable : Derives .varDeclaration ts stmt) :
      Derives .declaration ts stmt
  | statement {ts : List Token} {stmt : Stmt} {opens : Bool}
      (hstmt : Derives (.statement opens) ts stmt) : Derives .declaration ts stmt
  | noDeclarations : Derives .declarations [] []
  | moreDeclarations {ts us : List Token} {first : Stmt} {rest : List Stmt}
      (hfirst : Derives .declaration ts first) (hrest : Derives .declarations us rest) :
      Derives .declarations (ts ++ us) (first :: rest)
  | parameter {param : Token} (hparam : param.kind = .identifier) :
      Derives .parameters [param] [param]
  | moreParameters {param comma : Token} {ts params : List Token}
      (hparam : param.kind = .identifier) (hcomma : comma.kind = .symbol .comma)
      (hparams : Derives .parameters ts params) :
      Derives .parameters (param :: comma :: ts) (param :: params)
  | noParameters : Derives .parameterList [] []
  | someParameters {ts params : List Token} (hparams : Derives .parameters ts params)
      (hcount : params.length ≤ maxArgs) : Derives .parameterList ts params
  | function {name left right open_ close : Token} {ts us params : List Token}
      {body : List Stmt} (hname : name.kind = .identifier)
      (hleft : left.kind = .symbol .leftParen) (hparams : Derives .parameterList ts params)
      (hright : right.kind = .symbol .rightParen) (hopen : open_.kind = .symbol .leftBrace)
      (hbody : Derives .declarations us body) (hclose : close.kind = .symbol .rightBrace) :
      Derives .function (name :: left :: (ts ++ right :: open_ :: (us ++ [close])))
        ⟨name, params, body⟩
  | noMethods : Derives .methods [] []
  | moreMethods {ts us : List Token} {first : FunctionDecl} {rest : List FunctionDecl}
      (hfirst : Derives .function ts first) (hrest : Derives .methods us rest) :
      Derives .methods (ts ++ us) (first :: rest)

end Moth.Syntax
