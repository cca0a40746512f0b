import Moth.Text.Blank
import Moth.Text.Digit
import Moth.Number.Rounding
/-!
# Numerals

The written forms of decimals: a sign, digits with a point among them, and a
power of ten.  `Decimal.read?` accepts a whole text or nothing.
-/

namespace Moth.Decimal

def ofDigits (whole fraction : List Char) : Decimal where
  negative := false
  coefficient := Text.digitsValue (whole ++ fraction)
  exponent := -(fraction.length : Int)

def takeSign : List Char → Bool × List Char
  | '-' :: rest => (true, rest)
  | '+' :: rest => (false, rest)
  | text => (false, text)

/-- Digits with an optional point, at least one digit on one of its sides. -/
def takeDigits? (text : List Char) : Option (Decimal × List Char) :=
  let whole := text.takeWhile Text.isDigit
  match text.dropWhile Text.isDigit with
  | '.' :: rest =>
    let fraction := rest.takeWhile Text.isDigit
    if whole.isEmpty && fraction.isEmpty then none
    else some (ofDigits whole fraction, rest.dropWhile Text.isDigit)
  | rest => if whole.isEmpty then none else some (ofDigits whole [], rest)

/-- The power of ten that ends a numeral: nothing, or a mark, a sign and digits. -/
def readPower? : List Char → Option Int
  | [] => some 0
  | mark :: rest =>
    let (negative, digits) := takeSign rest
    if (mark = 'e' || mark = 'E') && !digits.isEmpty && digits.all Text.isDigit then
      let power : Int := Text.digitsValue digits
      some (if negative then -power else power)
    else none

def read? (text : List Char) : Option Decimal := do
  let (negative, unsigned) := takeSign text
  let (digits, rest) ← takeDigits? unsigned
  let power ← readPower? rest
  return { digits with negative, exponent := digits.exponent + power }

def readTrimmed? (text : String) : Option Decimal :=
  read? (Text.trim text.toList)

end Moth.Decimal
