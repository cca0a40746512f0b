import Moth.Text.Blank
/-!
# Pointing into a text

A `Pointer` marks a stretch of a text.  `Pointer.illustrate` shows the row in which
it begins with carets under the stretch.  Rows end with a line feed, a carriage
return, or a carriage return and a line feed together.
-/

namespace Moth

/-- A place in a text; rows count from one and columns from zero. -/
structure Position where
  row : Nat
  column : Nat
deriving DecidableEq, Repr

namespace Text

/-- The offsets behind the line breaks of a text that itself begins at `offset`. -/
def offsetsAfterBreaks (offset : Nat) : List Char → List Nat
  | [] => []
  | '\r' :: '\n' :: rest => (offset + 2) :: offsetsAfterBreaks (offset + 2) rest
  | c :: rest =>
    if c = '\r' || c = '\n' then (offset + 1) :: offsetsAfterBreaks (offset + 1) rest
    else offsetsAfterBreaks (offset + 1) rest

def rowStarts (text : List Char) : List Nat := 0 :: offsetsAfterBreaks 0 text

def position (text : List Char) (offset : Nat) : Position :=
  let starts := (rowStarts text).takeWhile (· ≤ offset)
  { row := starts.length, column := offset - starts.getLastD 0 }

/-- A row with its line break. -/
def row (text : List Char) (number : Nat) : List Char :=
  let starts := rowStarts text
  let first := starts.getD (number - 1) text.length
  let next := starts.getD number text.length
  (text.drop first).take (next - first)

def padLeft (width : Nat) (text : List Char) : List Char :=
  List.replicate (width - text.length) ' ' ++ text

end Text

structure Pointer where
  text : List Char
  offset : Nat
  width : Nat
  caption : String

namespace Pointer

def position (pointer : Pointer) : Position := Text.position pointer.text pointer.offset

def margin (row : Nat) : List Char :=
  Text.padLeft 6 (' ' :: Nat.toDigits 10 row) ++ [' ', '|']

/-- Blanks as wide as a text: tabs stay, so that what follows is aligned. -/
def blanks (text : List Char) : List Char :=
  text.map fun c => if c = '\t' then '\t' else ' '

/-- The number of carets: at least one, and none beyond the row and its break. -/
def caretCount (pointer : Pointer) : Nat :=
  let place := pointer.position
  max 1 (min pointer.width ((Text.row pointer.text place.row).length - place.column))

def illustrate (pointer : Pointer) : String :=
  let place := pointer.position
  let row := Text.row pointer.text place.row
  let lead := blanks (margin place.row ++ row.take place.column)
  String.ofList (margin place.row ++ Text.dropEndWhile Text.isBlank row ++ '\n' :: lead ++
    List.replicate pointer.caretCount '^' ++ [' ']) ++ pointer.caption

end Pointer

end Moth
