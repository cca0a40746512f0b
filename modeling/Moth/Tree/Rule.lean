import Moth.Tree.Fault
/-!
# Rules

A `Rule` reads some tokens from a `Cursor` and gives what it made of them.  It may
fail, having complained, or be nested too deeply; both end the rules around it.
-/

namespace Moth

/-- Where the parser is: the tokens ahead, the mark behind the last of them, and the
complaints so far. -/
structure Cursor where
  rest : List Token
  stop : Token
  complaints : Array ParseComplaint

namespace Cursor

def peek (cursor : Cursor) : Token := cursor.rest.headD cursor.stop

def complainAt (cursor : Cursor) (token : Token) (fault : ParseFault) : Cursor :=
  { cursor with complaints := cursor.complaints.push ⟨token, fault⟩ }

end Cursor

/-- How a rule ends.  A rule that fails has complained already; one that is nested
too deeply has not. -/
inductive Reply (α : Type) where
  | ok (value : α) (cursor : Cursor)
  | failed (cursor : Cursor)
  | tooDeep (cursor : Cursor)

def Rule (α : Type) : Type := Cursor → Reply α

namespace Rule

@[inline] protected def pure {α : Type} (value : α) : Rule α := fun cursor =>
  .ok value cursor

@[inline] protected def bind {α β : Type} (first : Rule α) (next : α → Rule β) :
    Rule β := fun cursor =>
  match first cursor with
  | .ok value cursor => next value cursor
  | .failed cursor => .failed cursor
  | .tooDeep cursor => .tooDeep cursor

instance : Monad Rule where
  pure := Rule.pure
  bind := Rule.bind

def tooDeep {α : Type} : Rule α := fun cursor => .tooDeep cursor

def fail {α : Type} (fault : ParseFault) : Rule α := fun cursor =>
  .failed (cursor.complainAt cursor.peek fault)

def complainAt (token : Token) (fault : ParseFault) : Rule Unit := fun cursor =>
  .ok () (cursor.complainAt token fault)

def complain (fault : ParseFault) : Rule Unit := fun cursor =>
  .ok () (cursor.complainAt cursor.peek fault)

def complainIf (reason : Bool) (fault : ParseFault) : Rule Unit :=
  if reason then complain fault else pure ()

def atEnd : Rule Bool := fun cursor => .ok cursor.rest.isEmpty cursor

def sees (kind : Kind) : Rule Bool := fun cursor =>
  match cursor.rest with
  | [] => .ok false cursor
  | token :: _ => .ok (token.kind = kind) cursor

def takePicked {α : Type} (pick : Kind → Option α) : Rule (Option (α × Token)) :=
  fun cursor =>
    match cursor.rest with
    | [] => .ok none cursor
    | token :: rest =>
      match pick token.kind with
      | none => .ok none cursor
      | some choice => .ok (some (choice, token)) { cursor with rest }

def take? (kind : Kind) : Rule (Option Token) := fun cursor =>
  match cursor.rest with
  | [] => .ok none cursor
  | token :: rest =>
    if token.kind = kind then .ok (some token) { cursor with rest } else .ok none cursor

def expect (kind : Kind) (fault : ParseFault) : Rule Token := fun cursor =>
  match cursor.rest with
  | [] => fail fault cursor
  | token :: rest =>
    if token.kind = kind then .ok token { cursor with rest } else fail fault cursor

/-- What stands behind a token of the given kind, if there is such a token. -/
def behind {α : Type} (kind : Kind) (rule : Rule α) : Rule (Option α) := do
  match ← take? kind with
  | some _ => some <$> rule
  | none => return none

/-- What the rule gives, or `absent` if the next token is of the given kind. -/
def orAbsent {α : Type} (kind : Kind) (absent : α) (rule : Rule α) : Rule α := do
  if ← sees kind then return absent else rule

end Rule

end Moth
