import Moth.Number.Rounding
/-!
# Shortest decimals

A number is written by the decimal with the fewest digits that reads back as it,
and of those by the closest one.  The search goes from coarse grids of powers of
ten to fine ones and takes the first point that reads back.
-/

namespace Moth.Number

/-- The two neighbours of a ratio on the integers, the closer one first and of two
equally close ones the even one. -/
def neighbours (dividend divisor : Nat) : List Nat :=
  let below := dividend / divisor
  let excess := 2 * (dividend % divisor)
  if excess < divisor || excess = divisor && below % 2 = 0 then [below, below + 1]
  else [below + 1, below]

/-- The multiples of `10 ^ exponent` next to a number of units. -/
def gridPoints (units : Nat) (exponent : Int) : List Decimal :=
  let candidates :=
    if exponent < 0 then neighbours (units * Nat.pow 10 exponent.natAbs) unitsPerOne
    else neighbours units (unitsPerOne * Nat.pow 10 exponent.natAbs)
  candidates.map fun coefficient => { negative := false, coefficient, exponent }

/-- A power of ten above the number: `log₁₀ 2` is just below `30103 / 100000`. -/
def coarsestExponent (units : Nat) : Int :=
  ((units.log2 : Int) - 1073) * 30103 / 100000 + 2

def exactDecimal (units : Nat) : Decimal where
  negative := false
  coefficient := units * Nat.pow 5 unitPlaces
  exponent := -(unitPlaces : Int)

/-- The shortest decimal for the absolute value of a finite number.  Seventeen
digits tell any two numbers apart, so the grids tried are enough. -/
def shortest (x : Number) : Decimal :=
  if x.isZero then { negative := false, coefficient := 0, exponent := 0 }
  else
    let exponents := (List.range 24).map fun (step : Nat) =>
      coarsestExponent x.units - (step : Int)
    let found := exponents.findSome? fun exponent =>
      (gridPoints x.units exponent).find? fun d => d.magnitude = x.magnitude
    found.getD (exactDecimal x.units)

end Moth.Number
