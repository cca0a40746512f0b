/-!
# Numbers

A number is a binary64 floating-point number, held as its bit pattern.  The
pattern without the sign bit is the *magnitude*; magnitudes are ordered as the
absolute values they stand for.  A finite magnitude stands for a whole number of
*units*, the unit being `2 ^ (-1074)`, the least positive number of the format.
-/

namespace Moth

/-- A binary64 number, given by its bits. -/
structure Number where
  bits : UInt64
deriving DecidableEq, Inhabited

namespace Number

/-- The magnitude of the infinities; larger ones belong to no number. -/
def infinityMagnitude : Nat := 0x7FF0000000000000

def signBit : Nat := 0x8000000000000000

/-- The number of magnitudes in a binade, and so the weight of the hidden bit. -/
def binadeSize : Nat := 0x10000000000000

/-- The binary places behind the point that a number may have. -/
def unitPlaces : Nat := 1074

/-- The unit is one over this. -/
def unitsPerOne : Nat := Nat.pow 2 unitPlaces

def ofMagnitude (negative : Bool) (magnitude : Nat) : Number :=
  ⟨UInt64.ofNat (if negative then signBit + magnitude else magnitude)⟩

def negative (x : Number) : Bool := signBit ≤ x.bits.toNat

def magnitude (x : Number) : Nat := x.bits.toNat % signBit

def isFinite (x : Number) : Bool := x.magnitude < infinityMagnitude

def isInfinite (x : Number) : Bool := x.magnitude = infinityMagnitude

def isUndefined (x : Number) : Bool := infinityMagnitude < x.magnitude

def isZero (x : Number) : Bool := x.magnitude = 0

/-- The units in a finite magnitude: the fraction bits, with the hidden bit for
all but the least exponent, shifted by the exponent. -/
def unitsOf (magnitude : Nat) : Nat :=
  if magnitude < binadeSize then magnitude
  else (binadeSize + magnitude % binadeSize) * Nat.pow 2 (magnitude / binadeSize - 1)

def units (x : Number) : Nat := unitsOf x.magnitude

def isWhole (x : Number) : Bool := x.isFinite && x.units % unitsPerOne = 0

def truncate (x : Number) : Int :=
  let whole : Int := (x.units / unitsPerOne : Nat)
  if x.negative then -whole else whole

def toFloat (x : Number) : Float := Float.ofBits x.bits

def ofFloat (x : Float) : Number := ⟨x.toBits⟩

instance : Add Number := ⟨fun x y => ofFloat (x.toFloat + y.toFloat)⟩

instance : Sub Number := ⟨fun x y => ofFloat (x.toFloat - y.toFloat)⟩

instance : Mul Number := ⟨fun x y => ofFloat (x.toFloat * y.toFloat)⟩

/-- Division by zero gives an infinity, or no number for zero by zero. -/
instance : Div Number := ⟨fun x y => ofFloat (x.toFloat / y.toFloat)⟩

instance : Neg Number := ⟨fun x => ofFloat (-x.toFloat)⟩

def less (x y : Number) : Bool := x.toFloat < y.toFloat

def lessEqual (x y : Number) : Bool := x.toFloat ≤ y.toFloat

/-- Equality of values: the two zeros are equal and what is undefined equals nothing. -/
def same (x y : Number) : Bool :=
  !x.isUndefined && !y.isUndefined && (x.bits = y.bits || x.isZero && y.isZero)

end Number

end Moth
