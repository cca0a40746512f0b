import Moth.Number.Shortest
/-!
# Layouts of numbers

A `Layout` says how numbers are written.  There are three: `Layout.value` for
printed values, `Layout.token` for token listings, where a whole number keeps its
point, and `Layout.source` for program text, which has no exponents.
-/

namespace Moth

structure Layout where
  /-- Whole numbers are written with all their digits and nothing else. -/
  plainWhole : Bool
  /-- The powers of ten of the first digit, from the first up to below the second,
  that are written without an exponent; `none` for all of them. -/
  positional : Option (Int × Int)
  infinity : String
  undefined : String

namespace Layout

def value : Layout where
  plainWhole := true
  positional := some (-4, 16)
  infinity := "inf"
  undefined := "nan"

/-- Number literals in token listings. -/
def token : Layout := { value with plainWhole := false }

/-- Numbers in program text. -/
def source : Layout where
  plainWhole := true
  positional := none
  infinity := "Infinity"
  undefined := "NaN"

/-- A coefficient's digits with the point set by the exponent.  A whole decimal gets
one zero behind its point. -/
def pointed (digits : List Char) (exponent : Int) : List Char :=
  let places := exponent.natAbs
  if 0 ≤ exponent then digits ++ List.replicate places '0' ++ ['.', '0']
  else if places < digits.length then
    digits.take (digits.length - places) ++ '.' :: digits.drop (digits.length - places)
  else '0' :: '.' :: List.replicate (places - digits.length) '0' ++ digits

/-- An exponent with its sign and at least two digits. -/
def signedExponent (exponent : Int) : List Char :=
  let digits := Nat.toDigits 10 exponent.natAbs
  (if exponent < 0 then '-' else '+') ::
    List.replicate (2 - digits.length) '0' ++ digits

/-- One digit before the point, the others behind it, and the power of ten. -/
def scientific : List Char → Int → List Char
  | [], _ => []
  | first :: rest, power =>
    first :: (if rest.isEmpty then [] else '.' :: rest) ++ 'e' :: signedExponent power

def decimal (layout : Layout) (d : Decimal) : List Char :=
  let digits := Nat.toDigits 10 d.coefficient
  let power := d.exponent + (digits.length : Int) - 1
  match layout.positional with
  | none => pointed digits d.exponent
  | some (least, limit) =>
    if least ≤ power && power < limit then pointed digits d.exponent
    else scientific digits power

def write (layout : Layout) (x : Number) : String :=
  let sign := if x.negative then "-" else ""
  if x.isUndefined then layout.undefined
  else if x.isInfinite then sign ++ layout.infinity
  else if layout.plainWhole && x.isWhole then
    String.ofList ((if x.truncate < 0 then ['-'] else []) ++
      Nat.toDigits 10 x.truncate.natAbs)
  else sign ++ String.ofList (layout.decimal x.shortest)

end Layout

end Moth
