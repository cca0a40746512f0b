import Moth.Number.Basic
/-!
# Rounding to the nearest number

`Number.nearest` takes a ratio of natural numbers to the closest magnitude, and
of two that are equally close to the one with even bits.  Ratios too large for
the format go to infinity.  Decimal numerals are read through it.
-/

namespace Moth

/-- The quotient rounded to the closest integer, an exact half to the even one. -/
def roundHalfEven (dividend divisor : Nat) : Nat :=
  let quotient := dividend / divisor
  let excess := 2 * (dividend % divisor)
  if excess < divisor then quotient
  else if divisor < excess then quotient + 1
  else quotient + quotient % 2

namespace Number

/-- The magnitude closest to `dividend / divisor`.  The binade of the ratio has the
spacing `2 ^ shift` units, and magnitudes run on from one binade into the next, so
a carry out of the significand needs no care. -/
def nearest (dividend divisor : Nat) : Nat :=
  let scaled := dividend * unitsPerOne
  let shift := (scaled / divisor).log2 - 52
  min infinityMagnitude (shift * binadeSize + roundHalfEven scaled (divisor * Nat.pow 2 shift))

def ofInt (n : Int) : Number := ofMagnitude (n < 0) (nearest n.natAbs 1)

end Number

/-- The decimal `±coefficient * 10 ^ exponent`. -/
structure Decimal where
  negative : Bool
  coefficient : Nat
  exponent : Int
deriving DecidableEq, Inhabited

namespace Decimal

/-- Beyond this power of ten every decimal is zero or infinite as a number. -/
def reach : Int := 400

/-- The magnitude closest to the decimal's absolute value.  Exponents out of reach
are settled without writing the power of ten out. -/
def magnitude (d : Decimal) : Nat :=
  if d.coefficient = 0 then 0
  else if reach < d.exponent then Number.infinityMagnitude
  else if d.exponent < -(reach + d.coefficient.log2) then 0
  else if d.exponent < 0 then Number.nearest d.coefficient (Nat.pow 10 d.exponent.natAbs)
  else Number.nearest (d.coefficient * Nat.pow 10 d.exponent.natAbs) 1

def toNumber (d : Decimal) : Number := Number.ofMagnitude d.negative d.magnitude

end Decimal

end Moth
