import Moth.Number.Layout
/-!
# Tokens

The vocabulary of Moth: symbols, keywords, names and literals.  A token keeps the
text it was read from and where that text stands.
-/

namespace Moth

inductive Symbol where
  | leftParen | rightParen | leftBrace | rightBrace
  | comma | dot | minus | plus | semicolon | slash | star
  | bang | bangEqual | equal | equalEqual
  | greater | greaterEqual | less | lessEqual
deriving DecidableEq, Repr

inductive Keyword where
  | and | «class» | «else» | false | «for» | «fun» | «if» | nil
  | or | print | «return» | super | this | true | var | «while»
deriving DecidableEq, Repr

inductive Kind where
  | symbol (symbol : Symbol)
  | keyword (keyword : Keyword)
  | identifier
  | string (value : String)
  | number (value : Number)
  | eof
deriving DecidableEq

/-- A token and its place: the line on which it ends, the number of characters
before it, and the input unit it belongs to. -/
structure Token where
  kind : Kind
  lexeme : String
  line : Nat
  offset : Nat
  unit : Nat
deriving DecidableEq

namespace Symbol

def text : Symbol → String
  | leftParen => "("
  | rightParen => ")"
  | leftBrace => "\x7b"
  | rightBrace => "\x7d"
  | comma => ","
  | dot => "."
  | minus => "-"
  | plus => "+"
  | semicolon => ";"
  | slash => "/"
  | star => "*"
  | bang => "!"
  | bangEqual => "!="
  | equal => "="
  | equalEqual => "=="
  | greater => ">"
  | greaterEqual => ">="
  | less => "<"
  | lessEqual => "<="

def label : Symbol → String
  | leftParen => "LEFT_PAREN"
  | rightParen => "RIGHT_PAREN"
  | leftBrace => "LEFT_BRACE"
  | rightBrace => "RIGHT_BRACE"
  | comma => "COMMA"
  | dot => "DOT"
  | minus => "MINUS"
  | plus => "PLUS"
  | semicolon => "SEMICOLON"
  | slash => "SLASH"
  | star => "STAR"
  | bang => "BANG"
  | bangEqual => "BANG_EQUAL"
  | equal => "EQUAL"
  | equalEqual => "EQUAL_EQUAL"
  | greater => "GREATER"
  | greaterEqual => "GREATER_EQUAL"
  | less => "LESS"
  | lessEqual => "LESS_EQUAL"

end Symbol

namespace Keyword

def all : List Keyword :=
  [and, «class», «else», false, «for», «fun», «if», nil,
    or, print, «return», super, this, true, var, «while»]

def text : Keyword → String
  | and => "and"
  | «class» => "class"
  | «else» => "else"
  | false => "false"
  | «for» => "for"
  | «fun» => "fun"
  | «if» => "if"
  | nil => "nil"
  | or => "or"
  | print => "print"
  | «return» => "return"
  | super => "super"
  | this => "this"
  | true => "true"
  | var => "var"
  | «while» => "while"

def ofText? (word : String) : Option Keyword :=
  all.find? fun keyword => keyword.text = word

theorem mem_all (keyword : Keyword) : keyword ∈ all := by
  cases keyword <;> decide

end Keyword

namespace Kind

def label : Kind → String
  | symbol s => s.label
  | keyword k => k.text.toUpper
  | identifier => "IDENTIFIER"
  | string _ => "STRING"
  | number _ => "NUMBER"
  | eof => "EOF"

def literalText : Kind → String
  | string value => value
  | number value => Layout.token.write value
  | _ => "null"

end Kind

def Token.listing (token : Token) : String :=
  token.kind.label ++ " '" ++ token.lexeme ++ "' " ++ token.kind.literalText ++
    " @" ++ toString token.line

end Moth
