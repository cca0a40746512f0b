import Moth.Number.Numeral
import Moth.Token.Basic
/-!
# Scanning

A text is cut into pieces from left to right: tokens, gaps between them, stray
characters that begin no token, and a string left open at the end.  `cut` takes
the next piece and `scan` numbers the pieces and keeps the tokens.  Trouble is
noted and passed over.
-/

namespace Moth

inductive ScanFault where
  | unexpectedCharacter
  | unterminatedString
deriving DecidableEq, Repr

def ScanFault.message : ScanFault → String
  | unexpectedCharacter => "Unexpected character."
  | unterminatedString => "Unterminated string."

inductive Reading where
  | token (kind : Kind)
  | gap
  | fault (fault : ScanFault)
deriving DecidableEq

structure Cut where
  reading : Reading
  piece : List Char
  rest : List Char

namespace Scan

def isDigit (c : Char) : Bool := '0' ≤ c && c ≤ '9'

def isNameStart (c : Char) : Bool :=
  'a' ≤ c && c ≤ 'z' || 'A' ≤ c && c ≤ 'Z' || c = '_'

def isNamePart (c : Char) : Bool := isNameStart c || isDigit c

/-- The symbols that are one character and never begin a longer token. -/
def singleSymbol? : Char → Option Symbol
  | '(' => some .leftParen
  | ')' => some .rightParen
  | '\x7b' => some .leftBrace
  | '\x7d' => some .rightBrace
  | ',' => some .comma
  | '.' => some .dot
  | '-' => some .minus
  | '+' => some .plus
  | ';' => some .semicolon
  | '*' => some .star
  | _ => none

/-- The symbols that an equal sign extends: alone, and extended. -/
def extensibleSymbol? : Char → Option (Symbol × Symbol)
  | '!' => some (.bang, .bangEqual)
  | '=' => some (.equal, .equalEqual)
  | '<' => some (.less, .lessEqual)
  | '>' => some (.greater, .greaterEqual)
  | _ => none

def cutExtensible (c : Char) (alone extended : Symbol) : List Char → Cut
  | '=' :: rest => ⟨.token (.symbol extended), [c, '='], rest⟩
  | rest => ⟨.token (.symbol alone), [c], rest⟩

/-- A slash, or a comment that runs to the end of its line. -/
def cutSlash : List Char → Cut
  | '/' :: rest =>
    ⟨.gap, '/' :: '/' :: rest.takeWhile (· ≠ '\n'), rest.dropWhile (· ≠ '\n')⟩
  | rest => ⟨.token (.symbol .slash), ['/'], rest⟩

def cutString (text : List Char) : Cut :=
  let body := text.takeWhile (· ≠ '"')
  match text.dropWhile (· ≠ '"') with
  | [] => ⟨.fault .unterminatedString, '"' :: body, []⟩
  | quote :: rest => ⟨.token (.string (String.ofList body)), '"' :: (body ++ [quote]), rest⟩

/-- A number that begins with the digit `c`: digits, and a point with digits behind it. -/
def cutNumber (c : Char) (text : List Char) : Cut :=
  let whole := c :: text.takeWhile isDigit
  let afterWhole := text.dropWhile isDigit
  match afterWhole with
  | '.' :: afterPoint =>
    let fraction := afterPoint.takeWhile isDigit
    if fraction.isEmpty then
      ⟨.token (.number (Decimal.ofDigits whole []).toNumber), whole, afterWhole⟩
    else
      ⟨.token (.number (Decimal.ofDigits whole fraction).toNumber),
        whole ++ '.' :: fraction, afterPoint.dropWhile isDigit⟩
  | _ => ⟨.token (.number (Decimal.ofDigits whole []).toNumber), whole, afterWhole⟩

def wordKind (word : List Char) : Kind :=
  match Keyword.ofText? (String.ofList word) with
  | some keyword => .keyword keyword
  | none => .identifier

def cutName (c : Char) (text : List Char) : Cut :=
  let name := c :: text.takeWhile isNamePart
  ⟨.token (wordKind name), name, text.dropWhile isNamePart⟩

def cut (c : Char) (text : List Char) : Cut :=
  if let some symbol := singleSymbol? c then ⟨.token (.symbol symbol), [c], text⟩
  else if let some (alone, extended) := extensibleSymbol? c then
    cutExtensible c alone extended text
  else if c = '/' then cutSlash text
  else if c = '"' then cutString text
  else if c = ' ' || c = '\r' || c = '\t' || c = '\n' then ⟨.gap, [c], text⟩
  else if isDigit c then cutNumber c text
  else if isNameStart c then cutName c text
  else ⟨.fault .unexpectedCharacter, [c], text⟩

private theorem length_dropWhile_le (p : Char → Bool) (text : List Char) :
    (text.dropWhile p).length ≤ text.length :=
  (List.dropWhile_sublist p).length_le

/-- Every piece leaves less text behind it. -/
theorem length_rest_cut_le (c : Char) (text : List Char) :
    (cut c text).rest.length ≤ text.length := by
  have drop := length_dropWhile_le
  unfold cut
  split
  · simp
  split
  · unfold cutExtensible
    split <;> simp
  split
  · unfold cutSlash
    split
    · exact Nat.le_succ_of_le (drop _ _)
    · simp
  split
  · simp only [cutString]
    split
    · simp
    · next rest h =>
      have := drop (· ≠ '"') text
      rw [h] at this
      simp only [List.length_cons] at this
      exact Nat.le_of_succ_le this
  split
  · simp
  split
  · simp only [cutNumber]
    split
    · next afterPoint h =>
      have whole := drop isDigit text
      have fraction := drop isDigit afterPoint
      rw [h] at whole
      simp only [List.length_cons] at whole
      split
      · exact drop _ _
      · exact Nat.le_trans fraction (Nat.le_of_succ_le whole)
    · exact drop _ _
  split
  · exact drop _ _
  · simp

end Scan

structure ScanComplaint where
  line : Nat
  offset : Nat
  fault : ScanFault
deriving DecidableEq, Repr

/-- What has been read of an input unit: its tokens and faults so far, the line
reached, and the number of characters passed. -/
structure Scan where
  unit : Nat
  tokens : Array Token
  complaints : Array ScanComplaint
  line : Nat
  offset : Nat

namespace Scan

def start (unit : Nat) : Scan :=
  { unit, tokens := #[], complaints := #[], line := 1, offset := 0 }

/-- Passes one piece.  A token or fault is on the line on which it ends. -/
def pass (scan : Scan) (reading : Reading) (piece : List Char) : Scan :=
  let line := scan.line + piece.count '\n'
  let next := { scan with line, offset := scan.offset + piece.length }
  match reading with
  | .token kind =>
    let token := ⟨kind, String.ofList piece, line, scan.offset, scan.unit⟩
    { next with tokens := scan.tokens.push token }
  | .gap => next
  | .fault fault =>
    { next with complaints := scan.complaints.push ⟨line, scan.offset, fault⟩ }

def advance (scan : Scan) : List Char → Scan
  | [] => scan
  | c :: text =>
    let next := cut c text
    advance (scan.pass next.reading next.piece) next.rest
termination_by text => text.length
decreasing_by exact Nat.lt_succ_of_le (length_rest_cut_le c text)

def stop (scan : Scan) : Token := ⟨.eof, "", scan.line, scan.offset, scan.unit⟩

def allTokens (scan : Scan) : List Token := scan.tokens.toList ++ [scan.stop]

end Scan

def scan (unit : Nat) (text : List Char) : Scan := (Scan.start unit).advance text

end Moth
