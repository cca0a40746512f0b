import Mathlib.Tactic.Ring
import Moth.Number.Shortest
/-!
# Rounding is exact on numbers

A ratio that is a number rounds to that number, and a ratio rounds the same way however
it is written as a quotient.
-/

namespace Moth

theorem roundHalfEven_mul_right {factor : Nat} (hfactor : 0 < factor) (dividend divisor : Nat) :
    roundHalfEven (dividend * factor) (divisor * factor) = roundHalfEven dividend divisor := by
  have hexcess : 2 * (dividend % divisor * factor) = 2 * (dividend % divisor) * factor := by
    rw [Nat.mul_assoc]
  simp only [roundHalfEven, Nat.mul_div_mul_right _ _ hfactor, Nat.mul_mod_mul_right, hexcess,
    Nat.mul_lt_mul_right hfactor]

theorem roundHalfEven_mul_self {divisor : Nat} (hdivisor : 0 < divisor) (quotient : Nat) :
    roundHalfEven (quotient * divisor) divisor = quotient := by
  simp [roundHalfEven, Nat.mul_div_cancel _ hdivisor, hdivisor]

namespace Number

theorem nearest_mul_right {factor : Nat} (hfactor : 0 < factor) (dividend divisor : Nat) :
    nearest (dividend * factor) (divisor * factor) = nearest dividend divisor := by
  have hscaled : dividend * factor * unitsPerOne = dividend * unitsPerOne * factor :=
    Nat.mul_right_comm _ _ _
  have hspacing (shift : Nat) : divisor * factor * Nat.pow 2 shift =
      divisor * Nat.pow 2 shift * factor := Nat.mul_right_comm _ _ _
  simp only [nearest, hscaled, hspacing, Nat.mul_div_mul_right _ _ hfactor,
    roundHalfEven_mul_right hfactor]

theorem log2_unitsOf {magnitude : Nat} (h : binadeSize ≤ magnitude) :
    (unitsOf magnitude).log2 = 52 + (magnitude / binadeSize - 1) := by
  have hsize : binadeSize = 2 ^ 52 := rfl
  have hrest : magnitude % binadeSize < binadeSize := Nat.mod_lt _ (by decide)
  have hpos : 0 < 2 ^ (magnitude / binadeSize - 1) := Nat.two_pow_pos _
  rw [unitsOf, if_neg (Nat.not_lt.2 h), Nat.pow_eq]
  rw [Nat.log2_eq_iff (Nat.ne_of_gt (Nat.mul_pos (by omega) hpos))]
  constructor
  · rw [Nat.pow_add, ← hsize]
    exact Nat.mul_le_mul_right _ (Nat.le_add_right _ _)
  · rw [Nat.add_right_comm, Nat.pow_add, Nat.pow_succ, ← hsize]
    exact Nat.mul_lt_mul_of_pos_right (by omega) hpos

/-- A ratio that is a finite number rounds to it. -/
theorem nearest_eq {dividend divisor magnitude : Nat} (hdivisor : 0 < divisor)
    (hfinite : magnitude < infinityMagnitude)
    (h : dividend * unitsPerOne = divisor * unitsOf magnitude) :
    nearest dividend divisor = magnitude := by
  simp only [nearest, h, Nat.mul_div_cancel_left _ hdivisor]
  by_cases hsmall : magnitude < binadeSize
  · have hunits : unitsOf magnitude = magnitude := if_pos hsmall
    have hlog : magnitude.log2 - 52 = 0 := by
      by_cases hzero : magnitude = 0
      · simp [hzero]
      · have := (Nat.log2_lt hzero).2 (show magnitude < 2 ^ 52 from hsmall)
        omega
    rw [hunits, hlog, Nat.mul_comm divisor magnitude]
    simp only [Nat.pow_eq, Nat.pow_zero, Nat.mul_one, Nat.zero_mul, Nat.zero_add,
      roundHalfEven_mul_self hdivisor]
    exact Nat.min_eq_right (Nat.le_of_lt hfinite)
  · have hlarge := Nat.not_lt.1 hsmall
    have hbinade : 0 < magnitude / binadeSize := Nat.div_pos hlarge (by decide)
    have hspacing : 0 < divisor * Nat.pow 2 (magnitude / binadeSize - 1) :=
      Nat.mul_pos hdivisor (Nat.two_pow_pos _)
    rw [log2_unitsOf hlarge, Nat.add_sub_cancel_left, unitsOf, if_neg hsmall,
      Nat.mul_left_comm, roundHalfEven_mul_self hspacing]
    have hsum : (magnitude / binadeSize - 1) * binadeSize +
        (binadeSize + magnitude % binadeSize) = magnitude := by
      calc (magnitude / binadeSize - 1) * binadeSize + (binadeSize + magnitude % binadeSize)
          = (magnitude / binadeSize - 1 + 1) * binadeSize + magnitude % binadeSize := by ring
        _ = magnitude / binadeSize * binadeSize + magnitude % binadeSize := by
          rw [Nat.sub_add_cancel hbinade]
        _ = magnitude := by rw [Nat.mul_comm, Nat.div_add_mod]
    rw [hsum]
    exact Nat.min_eq_right (Nat.le_of_lt hfinite)

end Number

end Moth
