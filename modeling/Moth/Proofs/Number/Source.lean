import Moth.Proofs.Number.Nearest
import Moth.Proofs.Scanning.Lexeme
/-!
# Numbers in program text

A finite number that is not negative is written in program text as a numeral, and the
numeral has its value.
-/

namespace Moth

/-! ## Digits -/

theorem Text.digitValue?_of_isDigit {c : Char} (h : Scan.isDigit c) :
    Text.digitValue? c = some (c.toNat - '0'.toNat) := by
  simp only [Scan.isDigit, Bool.and_eq_true, decide_eq_true_eq, Char.le_def,
    UInt32.le_iff_toNat_le] at h
  have hrange : (0x30 ≤ c.toNat && c.toNat < 0x30 + 10) = true := by
    have hlow : 48 ≤ c.toNat := h.1
    have hhigh : c.toNat ≤ 57 := h.2
    simp only [Bool.and_eq_true, decide_eq_true_eq]
    omega
  have hfirst : Text.digitZeros = 0x30 :: Text.digitZeros.tail := rfl
  rw [Text.digitValue?, hfirst, List.find?_cons]
  simp only [hrange]
  rfl

theorem Text.digitsValue_eq {digits : List Char} (h : ∀ c ∈ digits, Scan.isDigit c) :
    Text.digitsValue digits = Nat.ofDigitChars 10 digits 0 := by
  suffices hfold : ∀ value, digits.foldl
      (fun value c => 10 * value + (Text.digitValue? c).getD 0) value =
        Nat.ofDigitChars 10 digits value from hfold 0
  induction digits with
  | nil => exact fun _ => rfl
  | cons c digits ih =>
    intro value
    rw [List.foldl_cons, Nat.ofDigitChars_cons,
      Text.digitValue?_of_isDigit (h c List.mem_cons_self)]
    exact ih (fun d hd => h d (List.mem_cons_of_mem c hd)) _

theorem isDigit_of_mem_toDigits {n : Nat} {c : Char} (h : c ∈ Nat.toDigits 10 n) :
    Scan.isDigit c := by
  have hdigit := Nat.isDigit_of_mem_toDigits (by decide) (by decide) h
  simpa [Char.isDigit, Scan.isDigit, Char.le_def] using hdigit

theorem Text.digitsValue_toDigits (n : Nat) : Text.digitsValue (Nat.toDigits 10 n) = n := by
  rw [Text.digitsValue_eq fun c hc => isDigit_of_mem_toDigits hc]
  exact Nat.ofDigitChars_toDigits (by decide) (by decide)

theorem isDigit_of_mem_replicate {n : Nat} {c : Char} (h : c ∈ List.replicate n '0') :
    Scan.isDigit c := by
  rw [List.eq_of_mem_replicate h]
  rfl

theorem forall_isDigit_append {digits more : List Char} (h : ∀ c ∈ digits, Scan.isDigit c)
    (hmore : ∀ c ∈ more, Scan.isDigit c) : ∀ c ∈ digits ++ more, Scan.isDigit c := by
  intro c hc
  rcases List.mem_append.1 hc with hc | hc
  · exact h c hc
  · exact hmore c hc

theorem Text.digitsValue_append_zeros {digits : List Char} (h : ∀ c ∈ digits, Scan.isDigit c)
    (n : Nat) : Text.digitsValue (digits ++ List.replicate n '0') =
      Text.digitsValue digits * 10 ^ n := by
  rw [Text.digitsValue_eq (forall_isDigit_append h fun _ => isDigit_of_mem_replicate),
    Nat.ofDigitChars_append, Nat.ofDigitChars_replicate_zero, Text.digitsValue_eq h,
    Nat.mul_comm]

theorem Text.digitsValue_zeros_append {digits : List Char} (h : ∀ c ∈ digits, Scan.isDigit c)
    (n : Nat) : Text.digitsValue (List.replicate n '0' ++ digits) = Text.digitsValue digits := by
  rw [Text.digitsValue_eq (forall_isDigit_append (fun _ => isDigit_of_mem_replicate) h),
    Nat.ofDigitChars_append, Nat.ofDigitChars_replicate_zero, Text.digitsValue_eq h,
    Nat.mul_zero]

/-! ## The numeral of a decimal -/

open Scan

/-- A numeral is known by its digits. -/
theorem numeral_of_digits {digits fraction text : List Char} {x : Number}
    (hne : digits ≠ []) (hdigits : ∀ c ∈ digits, isDigit c) (hne' : fraction ≠ [])
    (hfraction : ∀ c ∈ fraction, isDigit c) (htext : text = digits ++ '.' :: fraction)
    (hx : (Decimal.ofDigits digits fraction).toNumber = x) : Numeral x text := by
  subst htext hx
  exact .pointed hne hdigits hne' hfraction

theorem toNumber_congr {d e : Decimal} (hsign : d.negative = e.negative)
    (h : d.magnitude = e.magnitude) : d.toNumber = e.toNumber := by
  rw [Decimal.toNumber, Decimal.toNumber, hsign, h]

/-- Tenths in place of ones make no difference. -/
theorem magnitude_tenfold {coefficient : Nat} {exponent : Nat} {negative : Bool}
    (hcoefficient : coefficient ≠ 0) (hreach : (exponent : Int) ≤ Decimal.reach) :
    (Decimal.mk negative (coefficient * 10 ^ (exponent + 1)) (-1)).magnitude =
      (Decimal.mk negative coefficient exponent).magnitude := by
  have hpos : coefficient * 10 ^ (exponent + 1) ≠ 0 :=
    Nat.mul_ne_zero hcoefficient (Nat.ne_of_gt (Nat.pow_pos (by decide)))
  have hfar : ¬ ((-1 : Int) < -(Decimal.reach + (coefficient * 10 ^ (exponent + 1)).log2)) := by
    simp only [Decimal.reach]
    omega
  have hfar' : ¬ ((exponent : Int) < -(Decimal.reach + coefficient.log2)) := by
    simp only [Decimal.reach]
    omega
  have hnear : ¬ Decimal.reach < -1 := by decide
  simp only [Decimal.magnitude, hpos, hcoefficient, hfar, hfar', hnear, if_false,
    not_lt_of_ge hreach]
  have hneg : ¬ ((exponent : Int) < 0) := by omega
  have hscale := Number.nearest_mul_right (show 0 < 10 by decide) (coefficient * 10 ^ exponent) 1
  simpa [hneg, Nat.pow_succ, Nat.mul_assoc] using hscale

theorem numeral_pointed {d : Decimal} (hsign : d.negative = false) (hne : d.coefficient ≠ 0)
    (hreach : d.exponent ≤ Decimal.reach) :
    Numeral d.toNumber (Layout.pointed (Nat.toDigits 10 d.coefficient) d.exponent) := by
  obtain ⟨negative, coefficient, exponent⟩ := d
  simp only at hsign hne hreach
  subst hsign
  have hdigits (c : Char) (hc : c ∈ Nat.toDigits 10 coefficient) : isDigit c :=
    isDigit_of_mem_toDigits hc
  have hvalue := Text.digitsValue_toDigits coefficient
  have hpos : 0 < (Nat.toDigits 10 coefficient).length := Nat.length_toDigits_pos
  simp only [Layout.pointed]
  split
  · next hwhole =>
    obtain ⟨places, rfl⟩ := Int.eq_ofNat_of_zero_le hwhole
    have hzeros := forall_isDigit_append hdigits fun _ => isDigit_of_mem_replicate (n := places)
    refine numeral_of_digits (by simp) hzeros (List.cons_ne_nil '0' [])
      (List.forall_mem_singleton.2 (by decide)) (by simp) ?_
    refine toNumber_congr rfl ?_
    rw [← magnitude_tenfold hne hreach, Decimal.ofDigits, List.append_assoc,
      ← List.replicate_succ', Text.digitsValue_append_zeros hdigits, hvalue]
    rfl
  · next hfraction =>
    generalize hplaces : exponent.natAbs = places
    obtain rfl : exponent = -(places : Int) := by omega
    split
    · next hlong =>
      refine numeral_of_digits ?_ (fun c hc => hdigits c (List.mem_of_mem_take hc)) ?_
        (fun c hc => hdigits c (List.mem_of_mem_drop hc)) rfl ?_
      · simp only [ne_eq, List.take_eq_nil_iff, not_or]
        exact ⟨by omega, List.ne_nil_of_length_pos hpos⟩
      · simp only [ne_eq, List.drop_eq_nil_iff]
        omega
      · refine toNumber_congr rfl ?_
        rw [Decimal.ofDigits, List.take_append_drop, hvalue, List.length_drop]
        congr 3
        omega
    · next hshort =>
      have hzeros := forall_isDigit_append
        (fun _ => isDigit_of_mem_replicate (n := places - (Nat.toDigits 10 coefficient).length))
        hdigits
      refine numeral_of_digits (List.cons_ne_nil '0' [])
        (List.forall_mem_singleton.2 (by decide)) ?_ hzeros rfl ?_
      · simp
      · refine toNumber_congr rfl ?_
        rw [Decimal.ofDigits, List.singleton_append, ← List.cons_append, ← List.replicate_succ,
          Text.digitsValue_zeros_append hdigits, hvalue, List.length_append,
          List.length_replicate]
        congr 3
        omega

/-! ## The numeral of a number -/

theorem Number.ofMagnitude_magnitude {x : Number} (h : x.negative = false) :
    Number.ofMagnitude false x.magnitude = x := by
  have hlt : x.bits.toNat < Number.signBit := by
    simpa [Number.negative] using h
  rw [Number.ofMagnitude, Number.magnitude, Nat.mod_eq_of_lt hlt]
  simp

theorem Decimal.magnitude_le (d : Decimal) : d.magnitude ≤ Number.infinityMagnitude := by
  unfold Decimal.magnitude
  split
  · exact Nat.zero_le _
  split
  · exact Nat.le_refl _
  split
  · exact Nat.zero_le _
  split <;> exact Nat.min_le_left _ _

theorem Decimal.toNumber_negative {d : Decimal} (h : d.negative = false) :
    d.toNumber.negative = false := by
  have hle := d.magnitude_le
  have hlt : Number.infinityMagnitude < Number.signBit := by decide
  have hbits : (UInt64.ofNat d.magnitude).toNat ≤ d.magnitude := by
    rw [UInt64.toNat_ofNat']
    exact Nat.mod_le _ _
  simp only [Decimal.toNumber, h, Number.ofMagnitude, Number.negative, decide_eq_false_iff_not]
  simp only [Bool.false_eq_true, if_false]
  omega

theorem Scan.Numeral.not_negative {x : Number} {text : List Char} (h : Numeral x text) :
    x.negative = false := by
  cases h <;> exact Decimal.toNumber_negative rfl

theorem toNumber_eq {d : Decimal} {x : Number} (hsign : d.negative = false)
    (hx : x.negative = false) (h : d.magnitude = x.magnitude) : d.toNumber = x := by
  rw [Decimal.toNumber, hsign, h, Number.ofMagnitude_magnitude hx]

theorem Number.unitsOf_pos {magnitude : Nat} (h : magnitude ≠ 0) :
    0 < Number.unitsOf magnitude := by
  unfold Number.unitsOf
  split
  · exact Nat.pos_of_ne_zero h
  · exact Nat.mul_pos (Nat.lt_of_lt_of_le (by decide) (Nat.le_add_right _ _))
      (Nat.two_pow_pos _)

theorem pow_two_le_mul_pow_five {units : Nat} (h : 0 < units) (n : Nat) :
    Nat.pow 2 n ≤ units * Nat.pow 5 n :=
  Nat.le_trans (Nat.pow_le_pow_left (by decide) n) (Nat.le_mul_of_pos_left _ h)

theorem mul_pow_five_mul_pow_two (units n : Nat) :
    units * Nat.pow 5 n * Nat.pow 2 n = Nat.pow 10 n * units := by
  have hten : Nat.pow 5 n * Nat.pow 2 n = Nat.pow 10 n := (Nat.mul_pow 5 2 n).symm
  rw [Nat.mul_assoc, hten, Nat.mul_comm]

/-- A decimal of many digits that is exactly a finite number has its magnitude. -/
theorem magnitude_of_ratio {coefficient places magnitude : Nat} (hplaces : 0 < places)
    (hlarge : Nat.pow 2 places ≤ coefficient) (hfinite : magnitude < Number.infinityMagnitude)
    (hratio : coefficient * Number.unitsPerOne = Nat.pow 10 places * Number.unitsOf magnitude) :
    (Decimal.mk false coefficient (-(places : Int))).magnitude = magnitude := by
  have hpos : coefficient ≠ 0 := Nat.ne_of_gt (Nat.lt_of_lt_of_le (Nat.two_pow_pos _) hlarge)
  have hlog : places ≤ coefficient.log2 := (Nat.le_log2 hpos).2 hlarge
  have hreach : ¬ Decimal.reach < -(places : Int) := by
    simp only [Decimal.reach]
    omega
  have hfar : ¬ (-(places : Int) < -(Decimal.reach + coefficient.log2)) := by
    simp only [Decimal.reach]
    omega
  have hnegative : -(places : Int) < 0 := by omega
  simp only [Decimal.magnitude, hpos, hreach, hfar, hnegative, if_false, if_true, Int.natAbs_neg,
    Int.natAbs_natCast]
  exact Number.nearest_eq (Nat.pow_pos (by decide)) hfinite hratio

theorem magnitude_exactDecimal {magnitude : Nat} (hne : magnitude ≠ 0)
    (hfinite : magnitude < Number.infinityMagnitude) :
    (Number.exactDecimal (Number.unitsOf magnitude)).magnitude = magnitude := by
  apply magnitude_of_ratio (by decide)
    (pow_two_le_mul_pow_five (Number.unitsOf_pos hne) Number.unitPlaces) hfinite
  unfold Number.unitsPerOne
  exact mul_pow_five_mul_pow_two (Number.unitsOf magnitude) Number.unitPlaces

theorem magnitude_shortest {x : Number} (hzero : x.isZero = false) (hfinite : x.isFinite) :
    x.shortest.negative = false ∧ x.shortest.magnitude = x.magnitude := by
  simp only [Number.shortest, hzero, Bool.false_eq_true, if_false]
  cases hfound : List.findSome? _ _ with
  | none =>
    exact ⟨rfl, magnitude_exactDecimal (by simpa [Number.isZero] using hzero)
      (by simpa [Number.isFinite] using hfinite)⟩
  | some d =>
    obtain ⟨exponent, -, hd⟩ := List.exists_of_findSome?_eq_some hfound
    have hmem := List.mem_of_find?_eq_some hd
    have hmagnitude := List.find?_some hd
    refine ⟨?_, by simpa using hmagnitude⟩
    simp only [Number.gridPoints, List.mem_map] at hmem
    obtain ⟨coefficient, -, rfl⟩ := hmem
    rfl

theorem magnitude_whole {magnitude : Nat} (hfinite : magnitude < Number.infinityMagnitude)
    (hunits : Number.unitsOf magnitude % Number.unitsPerOne = 0) :
    (Decimal.mk false (Number.unitsOf magnitude / Number.unitsPerOne) 0).magnitude =
      magnitude := by
  have hratio : Number.unitsOf magnitude / Number.unitsPerOne * Number.unitsPerOne =
      1 * Number.unitsOf magnitude := by
    rw [Nat.one_mul, Nat.div_mul_cancel (Nat.dvd_of_mod_eq_zero hunits)]
  generalize Number.unitsOf magnitude / Number.unitsPerOne = coefficient at hratio
  rw [Decimal.magnitude]
  split
  · next hzero =>
    simp only at hzero
    rw [hzero, Nat.zero_mul, Nat.one_mul] at hratio
    by_contra hne
    exact absurd hratio.symm (Nat.ne_of_gt (Number.unitsOf_pos (Ne.symm hne)))
  · have hreach : ¬ Decimal.reach < 0 := by decide
    have hfar : ¬ ((0 : Int) < -(Decimal.reach + coefficient.log2)) := by
      simp only [Decimal.reach]
      omega
    simp only [hreach, hfar, if_false, Int.lt_irrefl]
    exact Number.nearest_eq (by decide) hfinite (by simpa using hratio)

theorem not_negative_truncate {x : Number} (hsign : x.negative = false) :
    ¬ x.truncate < 0 ∧ x.truncate.natAbs = x.units / Number.unitsPerOne := by
  rw [Number.truncate, hsign]
  exact ⟨Int.not_lt.2 (Int.natCast_nonneg _), rfl⟩

theorem defined_of_finite {x : Number} (hfinite : x.isFinite) :
    x.isUndefined = false ∧ x.isInfinite = false := by
  simp only [Number.isFinite, Number.isUndefined, Number.isInfinite, decide_eq_true_eq,
    decide_eq_false_iff_not] at hfinite ⊢
  omega

/-- The shortest decimal of a number that is not whole is not zero, and within reach. -/
theorem shortest_of_not_whole {x : Number} (hfinite : x.isFinite) (hwhole : x.isWhole = false) :
    (x.shortest.negative = false ∧ x.shortest.magnitude = x.magnitude) ∧
      x.shortest.coefficient ≠ 0 ∧ x.shortest.exponent ≤ Decimal.reach := by
  have hbound : x.magnitude < Number.infinityMagnitude := by
    simpa [Number.isFinite] using hfinite
  have hzero : x.isZero = false := by
    simp only [Number.isZero, decide_eq_false_iff_not]
    intro hzero
    have hunits : x.units = 0 := by
      rw [Number.units, hzero]
      rfl
    simp [Number.isWhole, hfinite, hunits] at hwhole
  obtain ⟨hpositive, hmagnitude⟩ := magnitude_shortest hzero hfinite
  have hne : x.shortest.coefficient ≠ 0 := by
    intro hcoefficient
    simp only [Decimal.magnitude, hcoefficient, if_true] at hmagnitude
    simp [Number.isZero, ← hmagnitude] at hzero
  refine ⟨⟨hpositive, hmagnitude⟩, hne, ?_⟩
  by_contra hfar
  simp only [Decimal.magnitude, hne, if_false, not_le.1 hfar, if_true] at hmagnitude
  omega

/-- A finite number is written in program text as a numeral of its value. -/
theorem numeral_source {x : Number} (hsign : x.negative = false) (hfinite : x.isFinite) :
    Numeral x (Layout.source.write x).toList := by
  have hbound : x.magnitude < Number.infinityMagnitude := by
    simpa [Number.isFinite] using hfinite
  obtain ⟨hdefined, hinfinite⟩ := defined_of_finite hfinite
  simp only [Layout.write, hdefined, hinfinite, hsign, Bool.false_eq_true, if_false]
  split
  · next hwhole =>
    obtain ⟨hpositive, habs⟩ := not_negative_truncate hsign
    have hunits : x.units % Number.unitsPerOne = 0 := by
      simp only [Layout.source, Number.isWhole, Bool.true_and, Bool.and_eq_true,
        decide_eq_true_eq] at hwhole
      exact hwhole.2
    have hdigits : ∀ c ∈ Nat.toDigits 10 (x.units / Number.unitsPerOne), isDigit c :=
      fun c hc => isDigit_of_mem_toDigits hc
    have hmagnitude : (Decimal.ofDigits (Nat.toDigits 10 (x.units / Number.unitsPerOne))
        []).magnitude = x.magnitude := by
      rw [Decimal.ofDigits, List.append_nil, Text.digitsValue_toDigits]
      exact magnitude_whole hbound hunits
    have hx := toNumber_eq rfl hsign hmagnitude
    have hne : Nat.toDigits 10 (x.units / Number.unitsPerOne) ≠ [] := Nat.toDigits_ne_nil
    rw [if_neg hpositive, List.nil_append, String.toList_ofList, habs]
    generalize Nat.toDigits 10 (x.units / Number.unitsPerOne) = digits at hdigits hx hne
    subst hx
    exact .whole hne hdigits
  · next hwhole =>
    obtain ⟨⟨hpositive, hmagnitude⟩, hne, hreach⟩ :=
      shortest_of_not_whole hfinite (by simpa [Layout.source] using hwhole)
    have hnumeral := numeral_pointed hpositive hne hreach
    rw [toNumber_eq hpositive hsign hmagnitude] at hnumeral
    simpa [Layout.decimal, Layout.source] using hnumeral

end Moth
