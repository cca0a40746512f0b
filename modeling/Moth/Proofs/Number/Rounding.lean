import Mathlib.Algebra.Order.Field.Basic
import Mathlib.Algebra.Order.Field.Rat
import Mathlib.Order.Monotone.Basic
import Mathlib.Tactic.FieldSimp
import Mathlib.Tactic.Linarith
import Moth.Proofs.Number.Source
/-!
# Rounding goes to the nearest number

`Number.nearest` looks for the binade of a ratio and rounds the ratio on the grid of that binade.
Magnitudes are in the order of the values they stand for (`unitsOf_strictMono`), so a ratio lies
between two magnitudes that follow each other, and what `nearest` takes is the closer of the two.
The main result, `Decimal.roundsTo_magnitude`, says it of the decimals that numerals write.
-/

namespace Moth

namespace Number

/-! ## The order of magnitudes -/

/-- The value of a magnitude in a binade, or at the beginning of the next one. -/
theorem unitsOf_binade {shift significand : Nat} (hle : significand ≤ 2 * binadeSize)
    (hge : shift = 0 ∨ binadeSize ≤ significand) :
    unitsOf (shift * binadeSize + significand) = significand * 2 ^ shift := by
  have hpos : 0 < binadeSize := by decide
  unfold unitsOf
  split
  · next hsmall =>
    obtain rfl : shift = 0 := by
      rcases hge with rfl | hge
      · rfl
      · omega
    simp
  · next hlarge =>
    obtain ⟨fraction, rfl⟩ : ∃ fraction, significand = binadeSize + fraction :=
      Nat.exists_eq_add_of_le (by
        rcases hge with rfl | hge
        · omega
        · exact hge)
    have hsum : shift * binadeSize + (binadeSize + fraction) =
        fraction + binadeSize * (shift + 1) := by ring
    rw [hsum, Nat.add_mul_mod_self_left, Nat.add_mul_div_left _ _ hpos, Nat.pow_eq]
    rcases Nat.lt_or_ge fraction binadeSize with hlt | hnext
    · rw [Nat.mod_eq_of_lt hlt, Nat.div_eq_of_lt hlt, Nat.zero_add, Nat.add_sub_cancel]
    · obtain rfl : fraction = binadeSize := by omega
      rw [Nat.mod_self, Nat.div_self hpos, Nat.add_zero, Nat.add_comm 1, Nat.add_sub_cancel,
        Nat.pow_succ]
      ring

theorem exists_binade (magnitude : Nat) : ∃ shift significand,
    magnitude = shift * binadeSize + significand ∧ significand < 2 * binadeSize ∧
      (shift = 0 ∨ binadeSize ≤ significand) := by
  have hdiv := Nat.div_add_mod' magnitude binadeSize
  have hmod := Nat.mod_lt magnitude (show 0 < binadeSize by decide)
  rcases Nat.eq_zero_or_pos (magnitude / binadeSize) with hzero | hpos
  · rw [hzero] at hdiv
    exact ⟨0, magnitude, by omega, by omega, .inl rfl⟩
  · obtain ⟨shift, hshift⟩ := Nat.exists_eq_add_of_le' hpos
    rw [hshift, Nat.add_mul] at hdiv
    exact ⟨shift, binadeSize + magnitude % binadeSize, by omega, by omega, .inr (by omega)⟩

theorem unitsOf_strictMono : StrictMono unitsOf := by
  refine strictMono_nat_of_lt_succ fun magnitude => ?_
  obtain ⟨shift, significand, rfl, hlt, hge⟩ := exists_binade magnitude
  rw [Nat.add_assoc, unitsOf_binade (by omega) hge,
    unitsOf_binade (by omega) (hge.imp_right (Nat.le_succ_of_le))]
  exact Nat.mul_lt_mul_of_pos_right (Nat.lt_succ_self _) (Nat.two_pow_pos _)

/-! ## The closest magnitude -/

/-- Of all magnitudes this one is the closest to a number of units, and it is even if there is
another one as close. -/
structure Closest (units : ℚ) (magnitude : Nat) : Prop where
  le : ∀ other, |(unitsOf magnitude : ℚ) - units| ≤ |(unitsOf other : ℚ) - units|
  even : ∀ other, other ≠ magnitude →
    |(unitsOf magnitude : ℚ) - units| = |(unitsOf other : ℚ) - units| → magnitude % 2 = 0

section

variable {units : ℚ} {magnitude other : Nat}

/-- A magnitude between the units and another one is the closer one. -/
theorem abs_le_of_between (h : other ≤ magnitude ∧ (unitsOf magnitude : ℚ) ≤ units ∨
      magnitude ≤ other ∧ units ≤ unitsOf magnitude) :
    |(unitsOf magnitude : ℚ) - units| ≤ |(unitsOf other : ℚ) - units| ∧
      (|(unitsOf magnitude : ℚ) - units| = |(unitsOf other : ℚ) - units| → other = magnitude) := by
  have hinjective : (unitsOf other : ℚ) = unitsOf magnitude → other = magnitude := fun hsame =>
    unitsOf_strictMono.injective (by exact_mod_cast hsame)
  rcases h with ⟨hle, hunits⟩ | ⟨hle, hunits⟩
  · have hle : (unitsOf other : ℚ) ≤ unitsOf magnitude := by
      exact_mod_cast unitsOf_strictMono.monotone hle
    rw [abs_of_nonpos (by linarith), abs_of_nonpos (by linarith)]
    exact ⟨by linarith, fun hsame => hinjective (by linarith)⟩
  · have hle : (unitsOf magnitude : ℚ) ≤ unitsOf other := by
      exact_mod_cast unitsOf_strictMono.monotone hle
    rw [abs_of_nonneg (by linarith), abs_of_nonneg (by linarith)]
    exact ⟨by linarith, fun hsame => hinjective (by linarith)⟩

/-- The closer one of the two magnitudes around the units is the closest of all. -/
theorem closest_of_neighbour {chosen : Nat} (hbelow : (unitsOf magnitude : ℚ) ≤ units)
    (habove : units ≤ unitsOf (magnitude + 1))
    (hchosen : chosen = magnitude ∨ chosen = magnitude + 1)
    (hlower : |(unitsOf chosen : ℚ) - units| ≤ |(unitsOf magnitude : ℚ) - units|)
    (hupper : |(unitsOf chosen : ℚ) - units| ≤ |(unitsOf (magnitude + 1) : ℚ) - units|)
    (heven : |(unitsOf magnitude : ℚ) - units| = |(unitsOf (magnitude + 1) : ℚ) - units| →
      chosen % 2 = 0) : Closest units chosen := by
  -- The neighbour on the other's side of the units is in between.
  have hside (other : Nat) : ∃ side, (side = magnitude ∨ side = magnitude + 1) ∧
      |(unitsOf chosen : ℚ) - units| ≤ |(unitsOf side : ℚ) - units| ∧
      |(unitsOf side : ℚ) - units| ≤ |(unitsOf other : ℚ) - units| ∧
      (|(unitsOf side : ℚ) - units| = |(unitsOf other : ℚ) - units| → other = side) := by
    rcases Nat.lt_or_ge magnitude other with hlt | hle
    · exact ⟨magnitude + 1, .inr rfl, hupper, abs_le_of_between (.inr ⟨hlt, habove⟩)⟩
    · exact ⟨magnitude, .inl rfl, hlower, abs_le_of_between (.inl ⟨hle, hbelow⟩)⟩
  refine ⟨fun other => ?_, fun other hne hsame => ?_⟩
  · obtain ⟨side, -, hfirst, hsecond, -⟩ := hside other
    exact hfirst.trans hsecond
  · obtain ⟨side, hneighbour, hfirst, hsecond, heq⟩ := hside other
    obtain rfl := heq (le_antisymm hsecond (hsame ▸ hfirst))
    refine heven ?_
    rcases hchosen with rfl | rfl <;> rcases hneighbour with rfl | rfl
    · exact absurd rfl hne
    · exact hsame
    · exact hsame.symm
    · exact absurd rfl hne

end

/-! ## Rounding on the grid of a binade -/

/-- The binade of a quotient: on its grid the quotient has 53 binary digits. -/
theorem quotient_binade (quotient : Nat) :
    quotient / 2 ^ (quotient.log2 - 52) < 2 * binadeSize ∧
      (quotient.log2 - 52 = 0 ∨ binadeSize ≤ quotient / 2 ^ (quotient.log2 - 52)) := by
  have hsize : binadeSize = 2 ^ 52 := rfl
  have hpos : 0 < 2 ^ (quotient.log2 - 52) := Nat.two_pow_pos _
  constructor
  · rw [Nat.div_lt_iff_lt_mul hpos, hsize, ← Nat.pow_succ', ← Nat.pow_add]
    exact Nat.lt_of_lt_of_le Nat.lt_log2_self (Nat.pow_le_pow_right (by decide) (by omega))
  · rcases Nat.eq_zero_or_pos (quotient.log2 - 52) with hzero | hshift
    · exact .inl hzero
    · right
      have hne : quotient ≠ 0 := by
        rintro rfl
        simp at hshift
      rw [Nat.le_div_iff_mul_le hpos, hsize, ← Nat.pow_add, Nat.add_sub_of_le (by omega)]
      exact Nat.log2_self_le hne

/-- Rounding a quotient takes the closer one of its two neighbours, and of two that are as close
the even one. -/
theorem roundHalfEven_cases (dividend divisor : Nat) :
    (roundHalfEven dividend divisor = dividend / divisor ∧
      (2 * (dividend % divisor) < divisor ∨
        2 * (dividend % divisor) = divisor ∧ dividend / divisor % 2 = 0)) ∨
    (roundHalfEven dividend divisor = dividend / divisor + 1 ∧
      (divisor < 2 * (dividend % divisor) ∨
        2 * (dividend % divisor) = divisor ∧ (dividend / divisor + 1) % 2 = 0)) := by
  simp only [roundHalfEven]
  split
  · next hless => exact .inl ⟨rfl, .inl hless⟩
  · split
    · next hmore => exact .inr ⟨rfl, .inl hmore⟩
    · rcases Nat.mod_two_eq_zero_or_one (dividend / divisor) with hparity | hparity
      · exact .inl ⟨by rw [hparity, Nat.add_zero], .inr ⟨by omega, hparity⟩⟩
      · exact .inr ⟨by rw [hparity], .inr ⟨by omega, by omega⟩⟩

/-- A ratio between two magnitudes that follow each other, with its distances from them: the
excess of the quotient over the lower one, and what is missing to the upper one. -/
theorem grid_distances {dividend divisor shift quotient excess : Nat} (hdivisor : 0 < divisor)
    (hdiv : divisor * 2 ^ shift * quotient + excess = dividend)
    (hmod : excess < divisor * 2 ^ shift) (hlt : quotient < 2 * binadeSize)
    (hge : shift = 0 ∨ binadeSize ≤ quotient) :
    (dividend : ℚ) / divisor - unitsOf (shift * binadeSize + quotient) = excess / divisor ∧
      (unitsOf (shift * binadeSize + quotient + 1) : ℚ) - dividend / divisor =
        ((divisor * 2 ^ shift - excess : Nat) : ℚ) / divisor := by
  have hne : (divisor : ℚ) ≠ 0 := by exact_mod_cast hdivisor.ne'
  have hdividend : (dividend : ℚ) = divisor * 2 ^ shift * quotient + excess := by
    exact_mod_cast hdiv.symm
  have hlower : (unitsOf (shift * binadeSize + quotient) : ℚ) = quotient * 2 ^ shift := by
    exact_mod_cast unitsOf_binade (by omega) hge
  have hupper : (unitsOf (shift * binadeSize + quotient + 1) : ℚ) = (quotient + 1) * 2 ^ shift := by
    rw [Nat.add_assoc]
    exact_mod_cast unitsOf_binade (by omega) (hge.imp_right Nat.le_succ_of_le)
  constructor
  · rw [hlower, hdividend]
    field_simp
    ring
  · rw [hupper, hdividend, Nat.cast_sub hmod.le]
    push_cast
    field_simp
    ring

/-- A quotient rounded on the grid of its binade. -/
theorem closest_round (dividend : Nat) {divisor : Nat} (hdivisor : 0 < divisor) :
    let shift := (dividend / divisor).log2 - 52
    Closest ((dividend : ℚ) / divisor)
      (shift * binadeSize + roundHalfEven dividend (divisor * 2 ^ shift)) := by
  intro shift
  have hmod := Nat.mod_lt dividend (Nat.mul_pos hdivisor (Nat.two_pow_pos shift))
  have hcases := roundHalfEven_cases dividend (divisor * 2 ^ shift)
  obtain ⟨hlt, hge⟩ : dividend / (divisor * 2 ^ shift) < 2 * binadeSize ∧
      (shift = 0 ∨ binadeSize ≤ dividend / (divisor * 2 ^ shift)) := by
    rw [← Nat.div_div_eq_div_mul]
    exact quotient_binade (dividend / divisor)
  obtain ⟨hbelow, habove⟩ :=
    grid_distances hdivisor (Nat.div_add_mod dividend (divisor * 2 ^ shift)) hmod hlt hge
  generalize dividend / (divisor * 2 ^ shift) = quotient at hcases hbelow habove
  generalize dividend % (divisor * 2 ^ shift) = excess at hmod hcases hbelow habove
  have hpos : (0 : ℚ) < divisor := by exact_mod_cast hdivisor
  have hnonneg (n : Nat) : (0 : ℚ) ≤ n / divisor := div_nonneg (Nat.cast_nonneg n) hpos.le
  have hdistance : |(unitsOf (shift * binadeSize + quotient) : ℚ) - dividend / divisor| =
      excess / divisor := by
    rw [abs_sub_comm, hbelow, abs_of_nonneg (hnonneg _)]
  have hdistance' : |(unitsOf (shift * binadeSize + quotient + 1) : ℚ) - dividend / divisor| =
      ((divisor * 2 ^ shift - excess : Nat) : ℚ) / divisor := by
    rw [habove, abs_of_nonneg (hnonneg _)]
  have hparity (significand : Nat) :
      (shift * binadeSize + significand) % 2 = significand % 2 := by
    simp only [binadeSize]
    omega
  rcases hcases with ⟨hround, hhalf⟩ | ⟨hround, hhalf⟩
  · rw [hround]
    refine closest_of_neighbour (sub_nonneg.1 (hbelow ▸ hnonneg _))
      (sub_nonneg.1 (habove ▸ hnonneg _)) (.inl rfl) le_rfl ?_ fun htie => ?_
    · rw [hdistance, hdistance', div_le_div_iff_of_pos_right hpos, Nat.cast_le]
      omega
    · rw [hdistance, hdistance', div_left_inj' hpos.ne', Nat.cast_inj] at htie
      rw [hparity]
      omega
  · rw [hround, ← Nat.add_assoc]
    refine closest_of_neighbour (sub_nonneg.1 (hbelow ▸ hnonneg _))
      (sub_nonneg.1 (habove ▸ hnonneg _)) (.inr rfl) ?_ le_rfl fun htie => ?_
    · rw [hdistance, hdistance', div_le_div_iff_of_pos_right hpos, Nat.cast_le]
      omega
    · rw [hdistance, hdistance', div_left_inj' hpos.ne', Nat.cast_inj] at htie
      rw [Nat.add_assoc, hparity]
      omega

/-! ## Rounding to a number of the format -/

def valueOf (magnitude : Nat) : ℚ := unitsOf magnitude / 2 ^ unitPlaces

/-- Half way from the greatest number to where the next one would be, at `2 ^ 1024`. -/
def overflowBound : ℚ := 2 ^ 1024 - 2 ^ 970

/-- The magnitude that a value which is not negative rounds to. -/
structure RoundsTo (value : ℚ) (magnitude : Nat) : Prop where
  defined : magnitude ≤ infinityMagnitude
  infinite_iff : magnitude = infinityMagnitude ↔ overflowBound ≤ value
  /-- No other number is closer to the value. -/
  closest : magnitude < infinityMagnitude → ∀ other < infinityMagnitude,
    |valueOf magnitude - value| ≤ |valueOf other - value|
  /-- If another number is as close, it is this one that has even bits. -/
  even : magnitude < infinityMagnitude → ∀ other < infinityMagnitude, other ≠ magnitude →
    |valueOf magnitude - value| = |valueOf other - value| → magnitude % 2 = 0

theorem unitsOf_infinity : unitsOf infinityMagnitude = binadeSize * 2 ^ 2046 := by
  rw [show infinityMagnitude = 2046 * binadeSize + binadeSize by decide]
  exact unitsOf_binade (by decide) (.inr le_rfl)

theorem unitsOf_greatest :
    unitsOf (infinityMagnitude - 1) = (2 * binadeSize - 1) * 2 ^ 2045 := by
  rw [show infinityMagnitude - 1 = 2045 * binadeSize + (2 * binadeSize - 1) by decide]
  exact unitsOf_binade (by decide) (.inr (by decide))

theorem overflowBound_units :
    2 * (overflowBound * 2 ^ unitPlaces) =
      (unitsOf (infinityMagnitude - 1) : ℚ) + unitsOf infinityMagnitude := by
  have hpow : (2 : ℚ) ^ 1024 = 2 ^ 54 * 2 ^ 970 := pow_add 2 54 970
  have hpow' : (2 : ℚ) ^ 2045 = 2 * (2 ^ 970 * 2 ^ unitPlaces) := by
    rw [← pow_add, ← pow_succ']
    rfl
  have hpow'' : (2 : ℚ) ^ 2046 = 2 * 2 ^ 2045 := pow_succ' 2 2045
  rw [unitsOf_infinity, unitsOf_greatest, overflowBound, Nat.cast_mul, Nat.cast_mul, Nat.cast_pow,
    Nat.cast_pow, Nat.cast_two, hpow'', hpow', hpow]
  generalize (2 : ℚ) ^ 970 = low
  generalize (2 : ℚ) ^ unitPlaces = unit
  norm_num [binadeSize]
  ring

theorem Closest.infinite_iff {units : ℚ} {magnitude : Nat} (h : Closest units magnitude) :
    infinityMagnitude ≤ magnitude ↔
      (unitsOf (infinityMagnitude - 1) : ℚ) + unitsOf infinityMagnitude ≤ 2 * units := by
  have hlt : (unitsOf (infinityMagnitude - 1) : ℚ) < unitsOf infinityMagnitude := by
    exact_mod_cast unitsOf_strictMono (show infinityMagnitude - 1 < infinityMagnitude by decide)
  constructor
  · intro hle
    have hunits : (unitsOf infinityMagnitude : ℚ) ≤ unitsOf magnitude := by
      exact_mod_cast unitsOf_strictMono.monotone hle
    by_contra hless
    have hcloser : |(unitsOf (infinityMagnitude - 1) : ℚ) - units| <
        unitsOf infinityMagnitude - units := abs_lt.2 ⟨by linarith, by linarith⟩
    linarith [h.le (infinityMagnitude - 1), le_abs_self ((unitsOf magnitude : ℚ) - units)]
  · intro hunits
    by_contra hfinite
    have hle : (unitsOf magnitude : ℚ) ≤ unitsOf (infinityMagnitude - 1) := by
      exact_mod_cast unitsOf_strictMono.monotone (show magnitude ≤ infinityMagnitude - 1 by omega)
    have hnear : |(unitsOf infinityMagnitude : ℚ) - units| ≤
        units - unitsOf (infinityMagnitude - 1) := abs_le.2 ⟨by linarith, by linarith⟩
    have hfar := neg_le_abs ((unitsOf magnitude : ℚ) - units)
    have hinfinity := h.le infinityMagnitude
    -- So the greatest number and infinity are as close, but the bits of that number are odd.
    have hgreatest : (unitsOf magnitude : ℚ) = unitsOf (infinityMagnitude - 1) := by linarith
    obtain rfl : magnitude = infinityMagnitude - 1 :=
      unitsOf_strictMono.injective (by exact_mod_cast hgreatest)
    have heven := h.even infinityMagnitude (by decide) (by linarith)
    revert heven
    decide

/-- Rounding in the format: as if there were no greatest number, and infinity for what is out of
reach. -/
theorem Closest.roundsTo {value : ℚ} {magnitude : Nat}
    (h : Closest (value * 2 ^ unitPlaces) magnitude) :
    RoundsTo value (min infinityMagnitude magnitude) := by
  have hunit : (0 : ℚ) < 2 ^ unitPlaces := pow_pos two_pos _
  have hdistance (other : Nat) : |valueOf other - value| =
      |(unitsOf other : ℚ) - value * 2 ^ unitPlaces| / 2 ^ unitPlaces := by
    rw [valueOf, ← abs_of_pos hunit, ← abs_div, abs_of_pos hunit, sub_div,
      mul_div_cancel_right₀ _ hunit.ne']
  refine ⟨Nat.min_le_left _ _, ?_, fun hfinite other _ => ?_, fun hfinite other _ hne hsame => ?_⟩
  · rw [min_eq_left_iff, h.infinite_iff, ← overflowBound_units, mul_le_mul_iff_right₀ two_pos,
      mul_le_mul_iff_left₀ hunit]
  · rw [Nat.min_eq_right (by omega), hdistance, hdistance, div_le_div_iff_of_pos_right hunit]
    exact h.le other
  · have hmin : min infinityMagnitude magnitude = magnitude := Nat.min_eq_right (by omega)
    rw [hmin] at hne hsame ⊢
    rw [hdistance, hdistance, div_left_inj' hunit.ne'] at hsame
    exact h.even other hne hsame

theorem roundsTo_nearest (dividend : Nat) {divisor : Nat} (hdivisor : 0 < divisor) :
    RoundsTo ((dividend : ℚ) / divisor) (nearest dividend divisor) := by
  refine Closest.roundsTo ?_
  have hscaled : (dividend : ℚ) / divisor * 2 ^ unitPlaces =
      ((dividend * unitsPerOne : Nat) : ℚ) / divisor := by
    unfold unitsPerOne
    rw [Nat.cast_mul, Nat.pow_eq, Nat.cast_pow, Nat.cast_two, div_mul_eq_mul_div]
  rw [hscaled]
  exact closest_round (dividend * unitsPerOne) hdivisor

theorem valueOf_lt {magnitude other : Nat} (h : magnitude < other) :
    valueOf magnitude < valueOf other := by
  have hunits : (unitsOf magnitude : ℚ) < unitsOf other := by exact_mod_cast unitsOf_strictMono h
  exact div_lt_div_of_pos_right hunits (pow_pos two_pos _)

/-- Of two numbers with even bits there is one in between that is closer than both of them. -/
theorem RoundsTo.not_lt {value : ℚ} {magnitude other : Nat} (h : RoundsTo value magnitude)
    (h' : RoundsTo value other) (hfinite : other < infinityMagnitude) : ¬ magnitude < other := by
  intro hlt
  have hfinite' : magnitude < infinityMagnitude := hlt.trans hfinite
  have hsame : |valueOf magnitude - value| = |valueOf other - value| :=
    le_antisymm (h.closest hfinite' other hfinite) (h'.closest hfinite magnitude hfinite')
  have heven := h.even hfinite' other hfinite hlt.ne' hsame
  have heven' := h'.even hfinite magnitude hfinite' hlt.ne hsame.symm
  have hbelow := valueOf_lt (Nat.lt_succ_self magnitude)
  have habove : valueOf (magnitude + 1) < valueOf other := valueOf_lt (by omega)
  have hbetween := h.closest hfinite' (magnitude + 1) (by omega)
  have hlow := neg_abs_le (valueOf magnitude - value)
  have hhigh := le_abs_self (valueOf other - value)
  have hcloser : |valueOf (magnitude + 1) - value| < |valueOf magnitude - value| :=
    abs_lt.2 ⟨by linarith, by linarith⟩
  linarith

/-- A value rounds to one number only. -/
theorem RoundsTo.unique {value : ℚ} {magnitude other : Nat} (h : RoundsTo value magnitude)
    (h' : RoundsTo value other) : magnitude = other := by
  rcases Nat.lt_or_ge magnitude infinityMagnitude with hfinite | hinfinite
  · have hfinite' : other < infinityMagnitude := by
      refine Nat.lt_of_le_of_ne h'.defined fun heq => ?_
      exact hfinite.ne (h.infinite_iff.2 (h'.infinite_iff.1 heq))
    exact Nat.le_antisymm (Nat.not_lt.1 (h'.not_lt h hfinite)) (Nat.not_lt.1 (h.not_lt h' hfinite'))
  · have heq := Nat.le_antisymm h.defined hinfinite
    rw [heq, h'.infinite_iff.2 (h.infinite_iff.1 heq)]

theorem roundsTo_infinity {value : ℚ} (h : overflowBound ≤ value) :
    RoundsTo value infinityMagnitude :=
  ⟨le_rfl, by simp [h], fun hlt => absurd hlt (Nat.lt_irrefl _),
    fun hlt => absurd hlt (Nat.lt_irrefl _)⟩

/-- Up to half a unit there is nothing closer than zero. -/
theorem roundsTo_zero {value : ℚ} (hnonneg : 0 ≤ value) (h : 2 * (value * 2 ^ unitPlaces) ≤ 1) :
    RoundsTo value 0 := by
  have hunits : 0 ≤ value * 2 ^ unitPlaces := mul_nonneg hnonneg (pow_pos two_pos _).le
  have hzero : (unitsOf 0 : ℚ) = 0 := Nat.cast_zero
  have hone : (unitsOf (0 + 1) : ℚ) = 1 := Nat.cast_one
  have hclosest : Closest (value * 2 ^ unitPlaces) 0 := by
    have hbelow : (unitsOf 0 : ℚ) ≤ value * 2 ^ unitPlaces := by rwa [hzero]
    refine closest_of_neighbour hbelow ?_ (.inl rfl) le_rfl ?_ fun _ => rfl
    · rw [hone]
      linarith
    · rw [hzero, hone, zero_sub, abs_neg, abs_of_nonneg hunits]
      exact le_trans (by linarith) (le_abs_self _)
  simpa using hclosest.roundsTo

/-- The number with a sign that a value without its sign rounds to. -/
structure Rounds (x : Number) (negative : Bool) (value : ℚ) : Prop where
  sign : x.negative = negative
  magnitude : RoundsTo value x.magnitude

theorem negative_ofMagnitude {magnitude : Nat} (h : magnitude < signBit) (negative : Bool) :
    (ofMagnitude negative magnitude).negative = negative := by
  simp only [signBit] at h
  cases negative <;> simp [ofMagnitude, Number.negative, signBit] <;> omega

theorem magnitude_ofMagnitude {magnitude : Nat} (h : magnitude < signBit) (negative : Bool) :
    (ofMagnitude negative magnitude).magnitude = magnitude := by
  simp only [signBit] at h
  cases negative <;> simp [ofMagnitude, Number.magnitude, signBit] <;> omega

/-- A number is known by its sign and its magnitude. -/
theorem ext_magnitude {x y : Number} (hsign : x.negative = y.negative)
    (h : x.magnitude = y.magnitude) : x = y := by
  obtain ⟨bits⟩ := x
  obtain ⟨bits'⟩ := y
  have hlt := bits.toNat_lt
  have hlt' := bits'.toNat_lt
  have hside : signBit ≤ bits.toNat ↔ signBit ≤ bits'.toNat := decide_eq_decide.1 hsign
  simp only [Number.magnitude, signBit] at h hside
  congr
  exact UInt64.toNat.inj (by omega)

theorem Rounds.unique {x y : Number} {negative : Bool} {value : ℚ} (h : x.Rounds negative value)
    (h' : y.Rounds negative value) : x = y :=
  ext_magnitude (h.sign.trans h'.sign.symm) (h.magnitude.unique h'.magnitude)

end Number

/-! ## Decimals -/

namespace Decimal

/-- The exact value of a decimal without its sign. -/
def value (d : Decimal) : ℚ := d.coefficient * 10 ^ d.exponent

theorem value_of_neg {d : Decimal} (h : d.exponent < 0) :
    d.value = (d.coefficient : ℚ) / (Nat.pow 10 d.exponent.natAbs : Nat) := by
  obtain ⟨places, hplaces⟩ := Int.eq_negSucc_of_lt_zero h
  rw [value, hplaces, zpow_negSucc, Int.natAbs_negSucc, Nat.pow_eq, Nat.cast_pow, div_eq_mul_inv]
  norm_num

theorem value_of_nonneg {d : Decimal} (h : 0 ≤ d.exponent) :
    d.value = ((d.coefficient * Nat.pow 10 d.exponent.natAbs : Nat) : ℚ) / (1 : Nat) := by
  obtain ⟨places, hplaces⟩ := Int.eq_ofNat_of_zero_le h
  rw [value, hplaces, zpow_natCast, Int.natAbs_natCast, Nat.pow_eq, Nat.cast_mul, Nat.cast_pow]
  norm_num

/-- A decimal that is not zero is beyond all numbers if its power of ten is. -/
theorem overflowBound_le_value {d : Decimal} (hne : d.coefficient ≠ 0) (h : reach < d.exponent) :
    Number.overflowBound ≤ d.value := by
  have hone : (1 : ℚ) ≤ d.coefficient := by exact_mod_cast Nat.one_le_iff_ne_zero.2 hne
  calc Number.overflowBound
    _ ≤ 2 ^ 1024 := sub_le_self _ (pow_pos two_pos _).le
    _ ≤ 2 ^ (3 * 400) := pow_le_pow_right₀ one_le_two (by decide)
    _ = 8 ^ 400 := by
      rw [pow_mul]
      norm_num
    _ ≤ 10 ^ 400 := pow_le_pow_left₀ (by norm_num) (by norm_num) _
    _ = 10 ^ reach := (zpow_natCast 10 400).symm
    _ ≤ 10 ^ d.exponent := zpow_le_zpow_right₀ (by norm_num) h.le
    _ ≤ d.value := le_mul_of_one_le_left (zpow_nonneg (by norm_num) _) hone

/-- A decimal is below half a unit if its power of ten outweighs its digits. -/
theorem value_le_half_unit {d : Decimal} (h : d.exponent < -(reach + d.coefficient.log2)) :
    2 * (d.value * 2 ^ Number.unitPlaces) ≤ 1 := by
  have hreach : reach = 400 := rfl
  have hunit : Number.unitPlaces = 1074 := rfl
  have hneg : d.exponent < 0 := by omega
  have hplaces : 401 + d.coefficient.log2 ≤ d.exponent.natAbs := by omega
  rw [value_of_neg hneg]
  generalize d.exponent.natAbs = places at hplaces
  have hpower : 2 * (d.coefficient * 2 ^ Number.unitPlaces) ≤ Nat.pow 10 places := by
    calc 2 * (d.coefficient * 2 ^ Number.unitPlaces)
      _ ≤ 2 * (2 ^ (d.coefficient.log2 + 1) * 2 ^ Number.unitPlaces) :=
        Nat.mul_le_mul_left _ (Nat.mul_le_mul_right _ (Nat.le_of_lt Nat.lt_log2_self))
      _ = 2 ^ (d.coefficient.log2 + 1 + Number.unitPlaces + 1) := by
        rw [← Nat.pow_add, ← Nat.pow_succ']
      _ ≤ 2 ^ (3 * places) := Nat.pow_le_pow_right (by decide) (by omega)
      _ = 8 ^ places := by rw [Nat.pow_mul]
      _ ≤ 10 ^ places := Nat.pow_le_pow_left (by decide) _
  have hpos : (0 : ℚ) < (Nat.pow 10 places : Nat) := by
    exact_mod_cast Nat.pow_pos (n := places) (show 0 < 10 by decide)
  rw [div_mul_eq_mul_div, ← mul_div_assoc, div_le_one hpos]
  exact_mod_cast hpower

/-- The magnitude that is found for a decimal is the one that its value rounds to. -/
theorem roundsTo_magnitude (d : Decimal) : Number.RoundsTo d.value d.magnitude := by
  unfold magnitude
  split
  · next hzero =>
    have hvalue : d.value = 0 := by simp [value, hzero]
    rw [hvalue]
    exact Number.roundsTo_zero le_rfl (by norm_num)
  · next hne =>
    split
    · next hfar => exact Number.roundsTo_infinity (overflowBound_le_value hne hfar)
    split
    · next hfar =>
      refine Number.roundsTo_zero ?_ (value_le_half_unit hfar)
      exact mul_nonneg (Nat.cast_nonneg _) (zpow_nonneg (by norm_num) _)
    split
    · next hneg =>
      rw [value_of_neg hneg]
      exact Number.roundsTo_nearest _ (Nat.pow_pos (by decide))
    · next hnonneg =>
      rw [value_of_nonneg (not_lt.1 hnonneg)]
      exact Number.roundsTo_nearest _ one_pos

theorem magnitude_lt_signBit (d : Decimal) : d.magnitude < Number.signBit :=
  Nat.lt_of_le_of_lt d.magnitude_le (by decide)

theorem magnitude_toNumber (d : Decimal) : d.toNumber.magnitude = d.magnitude :=
  Number.magnitude_ofMagnitude d.magnitude_lt_signBit d.negative

theorem negative_toNumber (d : Decimal) : d.toNumber.negative = d.negative :=
  Number.negative_ofMagnitude d.magnitude_lt_signBit d.negative

/-- The number of a decimal is what the decimal rounds to. -/
theorem rounds_toNumber (d : Decimal) : d.toNumber.Rounds d.negative d.value := by
  refine ⟨d.negative_toNumber, ?_⟩
  rw [d.magnitude_toNumber]
  exact d.roundsTo_magnitude

end Decimal

end Moth
