import Moth.Proofs.Scanning.Partition
/-!
# Written numbers are read back

A number is written in one of three forms: all the digits of a whole number, the digits of a
decimal with a point among them, or one digit before the point and a power of ten.  Each of them is
a numeral that rounds to the number, so `stringToNum` reads back what is printed.  Program text has
the first two forms only, and the scanner reads them back; but it has no literal for infinity.
-/

namespace Moth

namespace Decimal

/-! ## The parts of a written number -/

theorem sign_of_bool (negative : Bool) : Sign (if negative then ['-'] else []) negative := by
  cases negative
  · exact .none
  · exact .minus

/-- The power of ten behind a decimal is read as that power. -/
theorem power_signedExponent (power : Int) : Power ('e' :: Layout.signedExponent power) power := by
  have hdigits : ∀ c ∈ Nat.toDigits 10 power.natAbs, Scan.isDigit c :=
    fun _ hc => isDigit_of_mem_toDigits hc
  obtain ⟨digits, htext, hne, hall, hvalue⟩ : ∃ digits,
      Layout.signedExponent power = (if power < 0 then '-' else '+') :: digits ∧ digits ≠ [] ∧
        Digits digits ∧ natural digits = power.natAbs := by
    refine ⟨List.replicate (2 - (Nat.toDigits 10 power.natAbs).length) '0' ++
      Nat.toDigits 10 power.natAbs, rfl, by simp [Nat.toDigits_ne_nil], ?_, ?_⟩
    · exact digits_of_forall (forall_isDigit_append (fun _ => isDigit_of_mem_replicate) hdigits)
    · rw [natural_eq, Text.digitsValue_zeros_append hdigits, Text.digitsValue_toDigits]
  rcases lt_or_ge power 0 with hneg | hnonneg
  · have hpower := Power.marked (.inl rfl) .minus hne hall
    rw [hvalue, if_pos rfl, Int.ofNat_natAbs_of_nonpos hneg.le, Int.neg_neg] at hpower
    rw [htext, if_pos hneg]
    exact hpower
  · have hpower := Power.marked (.inl rfl) .plus hne hall
    rw [hvalue, if_neg Bool.false_ne_true, Int.natAbs_of_nonneg hnonneg] at hpower
    rw [htext, if_neg (not_lt.2 hnonneg)]
    exact hpower

/-- The first digit before the point and the others behind it, if there are any. -/
theorem places_scientific {first : Char} {rest : List Char} (h : Digits (first :: rest)) :
    Places (first :: (if rest.isEmpty then [] else '.' :: rest)) [first] rest := by
  obtain ⟨hfirst, hrest⟩ := List.forall_mem_cons.1 h
  have hwhole : Digits [first] := List.forall_mem_singleton.2 hfirst
  cases rest with
  | nil => exact .whole (List.cons_ne_nil _ _) hwhole
  | cons second rest => exact .pointed (List.cons_ne_nil _ _) hwhole hrest

end Decimal

open Decimal

/-! ## Printed numbers -/

/-- The text is read as a decimal that rounds to the number, which may be a zero without its
sign. -/
def ReadBack (text : String) (x : Number) : Prop :=
  ∃ d, readTrimmed? text = some d ∧ d.magnitude = x.magnitude ∧
    (d.negative = x.negative ∨ x.magnitude = 0)

theorem ReadBack.same {text : String} {x : Number} (h : ReadBack text x) (hfinite : x.isFinite) :
    ∃ d, readTrimmed? text = some d ∧ d.toNumber.same x = true := by
  obtain ⟨d, hread, hmagnitude, hsign⟩ := h
  have hdefined := (defined_of_finite hfinite).1
  have hsame : d.toNumber.magnitude = x.magnitude := d.magnitude_toNumber.trans hmagnitude
  refine ⟨d, hread, ?_⟩
  rcases hsign with hsign | hzero
  · obtain rfl : d.toNumber = x := Number.ext_magnitude (d.negative_toNumber.trans hsign) hsame
    simp [Number.same, hdefined]
  · have hzero' : d.toNumber.isUndefined = false := by
      rw [Number.isUndefined, hsame]
      exact hdefined
    simp [Number.same, hdefined, hzero', Number.isZero, hsame, hzero]

theorem natAbs_truncate (x : Number) : x.truncate.natAbs = x.units / Number.unitsPerOne := by
  unfold Number.truncate
  dsimp only
  split
  · rw [Int.natAbs_neg, Int.natAbs_natCast]
  · rw [Int.natAbs_natCast]

/-- All the digits of a whole number.  Only zero may have lost its sign. -/
theorem readBack_whole {x : Number} (hwhole : x.isWhole) :
    ReadBack (String.ofList ((if x.truncate < 0 then ['-'] else []) ++
      Nat.toDigits 10 x.truncate.natAbs)) x := by
  obtain ⟨hfinite, hunits⟩ : x.isFinite = true ∧ x.units % Number.unitsPerOne = 0 := by
    simpa [Number.isWhole] using hwhole
  have hplaces : Places (Nat.toDigits 10 x.truncate.natAbs) _ [] :=
    .whole Nat.toDigits_ne_nil (digits_of_forall fun _ hc => isDigit_of_mem_toDigits hc)
  have hread := readTrimmed?_of_places (sign_of_bool (decide (x.truncate < 0))) hplaces
  simp only [decide_eq_true_eq] at hread
  refine ⟨_, hread, ?_, ?_⟩
  · rw [natAbs_truncate, ofDigits, List.append_nil, Text.digitsValue_toDigits]
    exact magnitude_whole (by simpa [Number.isFinite] using hfinite) hunits
  · rcases Nat.eq_zero_or_pos (x.units / Number.unitsPerOne) with hzero | hpos
    · right
      by_contra hne
      have hpositive : 0 < x.units := Number.unitsOf_pos hne
      have hdiv := Nat.div_add_mod x.units Number.unitsPerOne
      rw [hzero, hunits] at hdiv
      omega
    · left
      have hpositive : 0 < ((x.units / Number.unitsPerOne : Nat) : Int) := Int.natCast_pos.2 hpos
      unfold Number.truncate
      cases x.negative
      · exact decide_eq_false (Int.not_lt.2 hpositive.le)
      · exact decide_eq_true (Int.neg_neg_of_pos hpositive)

/-- A decimal with a point among its digits. -/
theorem readBack_pointed {x : Number} (hfinite : x.isFinite) (hwhole : x.isWhole = false) :
    ReadBack (String.ofList ((if x.negative then ['-'] else []) ++
      Layout.pointed (Nat.toDigits 10 x.shortest.coefficient) x.shortest.exponent)) x := by
  obtain ⟨⟨hpositive, hmagnitude⟩, hne, hreach⟩ := shortest_of_not_whole hfinite hwhole
  obtain ⟨whole, fraction, hplaces, hnumber⟩ :=
    places_of_literal (numeral_pointed hpositive hne hreach)
  refine ⟨_, readTrimmed?_of_places (sign_of_bool x.negative) hplaces, ?_, .inl rfl⟩
  have hsame := congrArg Number.magnitude hnumber
  rw [magnitude_toNumber, magnitude_toNumber, hmagnitude] at hsame
  exact hsame

/-- One digit before the point, and a power of ten. -/
theorem readBack_scientific {x : Number} (hfinite : x.isFinite) (hwhole : x.isWhole = false) :
    ReadBack (String.ofList ((if x.negative then ['-'] else []) ++
      Layout.scientific (Nat.toDigits 10 x.shortest.coefficient) (x.shortest.exponent +
        (Nat.toDigits 10 x.shortest.coefficient).length - 1))) x := by
  obtain ⟨⟨-, hmagnitude⟩, -⟩ := shortest_of_not_whole hfinite hwhole
  have hvalue := Text.digitsValue_toDigits x.shortest.coefficient
  have hdigits : Digits (Nat.toDigits 10 x.shortest.coefficient) :=
    digits_of_forall fun _ hc => isDigit_of_mem_toDigits hc
  obtain ⟨first, rest, hcons⟩ := List.exists_cons_of_ne_nil
    (show Nat.toDigits 10 x.shortest.coefficient ≠ [] from Nat.toDigits_ne_nil)
  rw [hcons] at hvalue hdigits ⊢
  refine ⟨_, readTrimmed?_of_parts (sign_of_bool x.negative) (places_scientific hdigits)
    (power_signedExponent _), ?_, .inl rfl⟩
  have hexponent : -(rest.length : Int) + (x.shortest.exponent + (first :: rest).length - 1) =
      x.shortest.exponent := by
    rw [List.length_cons]
    omega
  rw [← hmagnitude, ofDigits, List.singleton_append, hvalue, hexponent]
  rfl

theorem decimal_value (d : Decimal) :
    Layout.value.decimal d = Layout.pointed (Nat.toDigits 10 d.coefficient) d.exponent ∨
    Layout.value.decimal d = Layout.scientific (Nat.toDigits 10 d.coefficient)
      (d.exponent + (Nat.toDigits 10 d.coefficient).length - 1) := by
  simp only [Layout.decimal, Layout.value]
  split
  · exact .inl rfl
  · exact .inr rfl

theorem readBack_printed {x : Number} (hfinite : x.isFinite) :
    ReadBack (Layout.value.write x) x := by
  obtain ⟨hdefined, hinfinite⟩ := defined_of_finite hfinite
  have htext (text : List Char) : (if x.negative then "-" else "") ++ String.ofList text =
      String.ofList ((if x.negative then ['-'] else []) ++ text) := by
    rw [String.ofList_append]
    cases x.negative <;> rfl
  have hplain : Layout.value.plainWhole = true := rfl
  simp only [Layout.write, hdefined, hinfinite, hplain, Bool.true_and, Bool.false_eq_true, if_false]
  split
  · next hwhole => exact readBack_whole hwhole
  · next hwhole =>
    rw [Bool.not_eq_true] at hwhole
    rw [htext]
    rcases decimal_value x.shortest with hdecimal | hdecimal
    · rw [hdecimal]
      exact readBack_pointed hfinite hwhole
    · rw [hdecimal]
      exact readBack_scientific hfinite hwhole

/-- The native function `stringToNum` gives back every finite number from its printed text. -/
theorem printed_numbers_read (paren : Token) (machine : Machine) {x : Number}
    (hfinite : x.isFinite) : ∃ y,
      Native.call paren .stringToNum [.string (machine.display (.number x))] =
        pure (.number y) ∧ (Value.number y).same (.number x) = true := by
  obtain ⟨d, hread, hsame⟩ := (readBack_printed hfinite).same hfinite
  refine ⟨d.toNumber, ?_, hsame⟩
  simp only [Native.call, Native.readNumber, Machine.display, hread]

/-- The least number above zero is printed with a power of ten, a tenth with a point, the greatest
number with all its digits, and the negative zero without its sign. -/
theorem extremeNumbers_read :
    let machine := Machine.start (.seeded 0 0) []
    machine.display (.number ⟨1⟩) = "5e-324" ∧
    machine.display (.number ⟨0xBFB999999999999A⟩) = "-0.1" ∧
    (machine.display (.number ⟨0x7FEFFFFFFFFFFFFF⟩)).length = 309 ∧
    machine.display (.number ⟨0x8000000000000000⟩) = "0" ∧
    ∀ x ∈ [(⟨1⟩ : Number), ⟨0xBFB999999999999A⟩, ⟨0x7FEFFFFFFFFFFFFF⟩, ⟨0x8000000000000000⟩], ∃ y,
      Native.call closingParen .stringToNum [.string (machine.display (.number x))] =
        pure (.number y) ∧ (Value.number y).same (.number x) = true := by
  refine ⟨by decide +kernel, by decide +kernel, by decide +kernel, by decide +kernel, ?_⟩
  have hfinite : ∀ x ∈ [(⟨1⟩ : Number), ⟨0xBFB999999999999A⟩, ⟨0x7FEFFFFFFFFFFFFF⟩,
      ⟨0x8000000000000000⟩], x.isFinite = true := by decide
  exact fun x hx => printed_numbers_read closingParen _ (hfinite x hx)

/-! ## Number literals -/

/-- Scanning the text gives a number, nothing else, and no complaint. -/
structure ScansAs (unit : Nat) (text : List Char) (x : Number) : Prop where
  quiet : (scan unit text).complaints = #[]
  tokens : ∃ token, token.kind = .number x ∧
    (scan unit text).allTokens = [token, (scan unit text).stop]

/-- A text that spells a token is scanned as that token alone. -/
theorem scan_of_spells {kind : Kind} {text : List Char} (h : Scan.Spells kind text) (unit : Nat) :
    (scan unit text).complaints = #[] ∧ ∃ token, token.kind = kind ∧
      (scan unit text).allTokens = [token, (scan unit text).stop] := by
  obtain ⟨hquiet, hwords⟩ := (Scan.lexes_word h (Scan.apart_nil kind)).quiet unit
  obtain ⟨token, htokens, hword⟩ := List.map_eq_singleton_iff.1 hwords
  refine ⟨hquiet, token, congrArg Prod.fst hword, ?_⟩
  rw [Scan.allTokens, htokens]
  rfl

theorem scansAs_of_spells_iff {kind : Kind} {text : List Char} (h : Scan.Spells kind text)
    (unit : Nat) (x : Number) : ScansAs unit text x ↔ kind = .number x := by
  obtain ⟨hquiet, token, hkind, htokens⟩ := scan_of_spells h unit
  constructor
  · rintro ⟨-, other, hother, htokens'⟩
    obtain rfl : token = other := by
      rw [htokens, List.cons.injEq] at htokens'
      exact htokens'.1
    rw [← hkind, hother]
  · rintro rfl
    exact ⟨hquiet, token, hkind, htokens⟩

/-- Infinity is written as a name. -/
theorem not_scansAs_of_isInfinite {x : Number} (hsign : x.negative = false)
    (hinfinite : x.isInfinite) (unit : Nat) :
    ¬ ScansAs unit (Layout.source.write x).toList x := by
  have hdefined : x.isUndefined = false := by
    simp_all [Number.isInfinite, Number.isUndefined]
  have htext : (Layout.source.write x).toList = "Infinity".toList := by
    simp only [Layout.write, hdefined, hinfinite, hsign, Bool.false_eq_true, if_false, if_true]
    rfl
  have hspells : Scan.Spells .identifier "Infinity".toList :=
    ⟨⟨'I', "nfinity".toList, rfl, by decide, List.all_eq_true.1 (by decide)⟩, by decide⟩
  rw [htext, scansAs_of_spells_iff hspells]
  exact Kind.noConfusion

theorem isFinite_iff_of_rounds {x : Number} {negative : Bool} {exact : ℚ}
    (h : x.Rounds negative exact) : x.isFinite ↔ exact < Number.overflowBound := by
  rw [Number.isFinite, decide_eq_true_iff, h.magnitude.defined.lt_iff_ne, ← not_le]
  exact not_congr h.magnitude.infinite_iff

theorem scansAs_source_iff {x : Number} (hsign : x.negative = false)
    (hdefined : x.magnitude ≤ Number.infinityMagnitude) (unit : Nat) :
    ScansAs unit (Layout.source.write x).toList x ↔ x.isFinite := by
  rcases hdefined.lt_or_eq with hlt | heq
  · have hfinite : x.isFinite := by simpa [Number.isFinite] using hlt
    have hspells : Scan.Spells (.number x) (Layout.source.write x).toList :=
      numeral_source hsign hfinite
    exact ⟨fun _ => hfinite, fun _ => (scansAs_of_spells_iff hspells unit x).2 rfl⟩
  · have hinfinite : x.isInfinite := by simpa [Number.isInfinite] using heq
    have hfinite : ¬ x.isFinite := by simp [Number.isFinite, heq]
    exact iff_of_false (not_scansAs_of_isInfinite hsign hinfinite unit) hfinite

/-- The text written for a number literal is scanned as that number and nothing else, if and only if
the literal is finite: if its exact value is less than what rounds to infinity. -/
theorem literal_scanned_back_iff {unit : Nat} {text : List Char} {token : Token} {x : Number}
    (htoken : token ∈ (scan unit text).tokens) (hkind : token.kind = .number x) (again : Nat) :
    (ScansAs again (Layout.source.write x).toList x ↔ x.isFinite) ∧
    ∃ exact, Numeral token.lexeme.toList false exact ∧
      (x.isFinite ↔ exact < Number.overflowBound) := by
  have hspells := spells_of_scan htoken
  rw [hkind] at hspells
  obtain ⟨exact, hnumeral, hrounds⟩ := rounds_of_literal hspells
  exact ⟨scansAs_source_iff hrounds.sign hrounds.magnitude.defined again, exact, hnumeral,
    isFinite_iff_of_rounds hrounds⟩

/-- The greatest whole literal that is finite. -/
theorem greatestLiteral_scanned_back :
    ∃ token ∈ (scan 1 (Nat.toDigits 10 (2 ^ 1024 - 2 ^ 970 - 1))).tokens,
      token.kind = .number ⟨0x7FEFFFFFFFFFFFFF⟩ ∧
      ScansAs 2 (Layout.source.write ⟨0x7FEFFFFFFFFFFFFF⟩).toList ⟨0x7FEFFFFFFFFFFFFF⟩ := by
  have htoken : (scan 1 (Nat.toDigits 10 (2 ^ 1024 - 2 ^ 970 - 1))).tokens[0]?.map Token.kind =
      some (.number ⟨0x7FEFFFFFFFFFFFFF⟩) := by decide +kernel
  obtain ⟨token, hfirst, hkind⟩ := Option.map_eq_some_iff.1 htoken
  have hmem := Array.mem_of_getElem? hfirst
  exact ⟨token, hmem, hkind, (literal_scanned_back_iff hmem hkind 2).1.2 (by decide)⟩

/-- The least whole literal that is infinite is not scanned back. -/
theorem infiniteLiteral_not_scanned_back :
    ∃ token ∈ (scan 1 (Nat.toDigits 10 (2 ^ 1024 - 2 ^ 970))).tokens, ∃ x,
      token.kind = .number x ∧ Layout.source.write x = "Infinity" ∧
      ¬ ScansAs 2 (Layout.source.write x).toList x := by
  have htoken : (scan 1 (Nat.toDigits 10 (2 ^ 1024 - 2 ^ 970))).tokens[0]?.map Token.kind =
      some (.number ⟨0x7FF0000000000000⟩) := by decide +kernel
  obtain ⟨token, hfirst, hkind⟩ := Option.map_eq_some_iff.1 htoken
  exact ⟨token, Array.mem_of_getElem? hfirst, _, hkind, by decide +kernel,
    not_scansAs_of_isInfinite (by decide) (by decide) 2⟩

end Moth
