import Mathlib.Data.Nat.Digits.Defs
import Moth.Proofs.Number.Rounding
/-!
# Numerals and their values

The written forms of decimals, said without a reader: `Numeral text negative value` holds of a
text that is a numeral as a whole, with its sign and the exact value of the rest.
`Decimal.read?` accepts these texts and no others, and finds their values.
-/

namespace Moth

/-! ## Blanks at the ends -/

namespace Text

/-- What is left of a text when the blanks at its ends are removed. -/
structure Stripped (text body : List Char) : Prop where
  blanks : ∃ before behind, text = before ++ body ++ behind ∧
    (∀ c ∈ before, isBlank c) ∧ ∀ c ∈ behind, isBlank c
  head : ∀ c ∈ body.head?, ¬ isBlank c
  last : ∀ c ∈ body.getLast?, ¬ isBlank c

theorem dropEndWhile_append {p : Char → Bool} {body behind : List Char}
    (hlast : ∀ c ∈ body.getLast?, ¬ p c) (hbehind : ∀ c ∈ behind, p c) :
    dropEndWhile p (body ++ behind) = body := by
  have hblank : ∀ c ∈ behind.reverse, p c := fun c hc => hbehind c (List.mem_reverse.1 hc)
  have hstop : ∀ c ∈ body.reverse.head?, ¬ p c := by
    rw [List.head?_reverse]
    exact hlast
  rw [dropEndWhile, List.reverse_append, (Scan.takeWhile_stop hblank hstop).2,
    List.reverse_reverse]

theorem trim_eq_of_stripped {text body : List Char} (h : Stripped text body) :
    trim text = body := by
  obtain ⟨⟨before, behind, rfl, hbefore, hbehind⟩, hhead, hlast⟩ := h
  rw [trim]
  cases body with
  | nil =>
    have hall : ∀ c ∈ before ++ behind, isBlank c := by
      intro c hc
      exact (List.mem_append.1 hc).elim (hbefore c) (hbehind c)
    have hend : ∀ c ∈ ([] : List Char).head?, ¬ isBlank c := by simp
    have hdrop := (Scan.takeWhile_stop hall hend).2
    rw [List.append_nil] at hdrop ⊢
    rw [hdrop]
    rfl
  | cons c body =>
    have hstop : ∀ d ∈ (c :: body ++ behind).head?, ¬ isBlank d := hhead
    rw [List.append_assoc, (Scan.takeWhile_stop hbefore hstop).2,
      dropEndWhile_append hlast hbehind]

theorem stripped_trim (text : List Char) : Stripped text (trim text) := by
  obtain ⟨behind, hbehind, hblank, hlast⟩ := eq_dropEndWhile_append isBlank (text.dropWhile isBlank)
  refine ⟨⟨text.takeWhile isBlank, behind, ?_, Scan.forall_mem_takeWhile text, hblank⟩, ?_, hlast⟩
  · rw [trim, List.append_assoc, ← hbehind, List.takeWhile_append_dropWhile]
  · intro c hc
    have hhead := List.head?_dropWhile_not isBlank text
    have hkept : (text.dropWhile isBlank).head? = some c := by
      rw [hbehind, List.head?_append]
      exact Option.or_eq_some_iff.2 (.inl hc)
    rw [hkept] at hhead
    simpa using hhead

end Text

/-! ## The written forms -/

namespace Decimal

inductive Sign : List Char → Bool → Prop where
  | none : Sign [] false
  | plus : Sign ['+'] false
  | minus : Sign ['-'] true

/-- Decimal digits of any script. -/
def Digits (text : List Char) : Prop := ∀ c ∈ text, Text.isDigit c

def natural (digits : List Char) : Nat :=
  Nat.ofDigits 10 (digits.reverse.map fun c => (Text.digitValue? c).getD 0)

/-- Digits with a point behind, before or among them, or with none: the text, its digits before
the point, and its digits behind it. -/
inductive Places : List Char → List Char → List Char → Prop where
  | whole {digits : List Char} (hne : digits ≠ []) (hdigits : Digits digits) :
      Places digits digits []
  | pointed {whole fraction : List Char} (hne : whole ≠ []) (hwhole : Digits whole)
      (hfraction : Digits fraction) : Places (whole ++ '.' :: fraction) whole fraction
  | fraction {fraction : List Char} (hne : fraction ≠ []) (hfraction : Digits fraction) :
      Places ('.' :: fraction) [] fraction

inductive Power : List Char → Int → Prop where
  | none : Power [] 0
  | marked {mark : Char} {sign digits : List Char} {negative : Bool}
      (hmark : mark = 'e' ∨ mark = 'E') (hsign : Sign sign negative) (hne : digits ≠ [])
      (hdigits : Digits digits) :
      Power (mark :: (sign ++ digits)) (if negative then -natural digits else natural digits)

/-- A numeral: whether it has a minus, and the exact value of what follows its sign. -/
inductive Numeral : List Char → Bool → ℚ → Prop where
  | mk {sign places power whole fraction : List Char} {negative : Bool} {exponent : Int}
      (hsign : Sign sign negative) (hplaces : Places places whole fraction)
      (hpower : Power power exponent) :
      Numeral (sign ++ (places ++ power)) negative
        ((natural whole + natural fraction / 10 ^ fraction.length) * 10 ^ exponent)

/-! ## The value of digits -/

theorem natural_eq (digits : List Char) : natural digits = Text.digitsValue digits := by
  rw [natural, Nat.ofDigits_eq_foldr, List.foldr_map, List.foldr_reverse, Text.digitsValue]
  congr 1
  funext value c
  exact Nat.add_comm _ _

theorem natural_append (digits more : List Char) :
    natural (digits ++ more) = natural digits * 10 ^ more.length + natural more := by
  simp only [natural, List.reverse_append, List.map_append, Nat.ofDigits_append, List.length_map,
    List.length_reverse]
  ring

theorem value_ofDigits (whole fraction : List Char) (negative : Bool) (power : Int) :
    value { ofDigits whole fraction with
        negative, exponent := (ofDigits whole fraction).exponent + power } =
      (natural whole + natural fraction / 10 ^ fraction.length) * 10 ^ power := by
  have hten : (10 : ℚ) ≠ 0 := by norm_num
  simp only [value, ofDigits, ← natural_eq, natural_append]
  rw [zpow_add₀ hten, zpow_neg, zpow_natCast]
  push_cast
  field_simp

/-! ## Reading finds the parts of a numeral -/

theorem takeSign_of_sign {sign rest : List Char} {negative : Bool} (h : Sign sign negative)
    (hrest : ∀ c ∈ rest.head?, c ≠ '-' ∧ c ≠ '+') : takeSign (sign ++ rest) = (negative, rest) := by
  cases h with
  | none =>
    rw [List.nil_append]
    unfold takeSign
    split
    · exact absurd rfl (hrest '-' rfl).1
    · exact absurd rfl (hrest '+' rfl).2
    · rfl
  | plus => rfl
  | minus => rfl

theorem sign_of_takeSign (text : List Char) :
    ∃ sign, Sign sign (takeSign text).1 ∧ text = sign ++ (takeSign text).2 := by
  unfold takeSign
  split
  · exact ⟨_, .minus, rfl⟩
  · exact ⟨_, .plus, rfl⟩
  · exact ⟨_, .none, rfl⟩

theorem ne_sign_of_isDigit {c : Char} (h : Text.isDigit c) : c ≠ '-' ∧ c ≠ '+' := by
  constructor <;> rintro rfl <;> revert h <;> decide

theorem Digits.head {digits : List Char} (h : Digits digits) (hne : digits ≠ []) :
    ∃ c more, digits = c :: more ∧ Text.isDigit c := by
  obtain ⟨c, more, rfl⟩ := List.exists_cons_of_ne_nil hne
  exact ⟨c, more, rfl, h c List.mem_cons_self⟩

theorem Places.head {places whole fraction : List Char} (h : Places places whole fraction)
    (rest : List Char) : ∀ c ∈ (places ++ rest).head?, c ≠ '-' ∧ c ≠ '+' := by
  cases h with
  | whole hne hdigits =>
    obtain ⟨c, more, rfl, hc⟩ := hdigits.head hne
    rintro d ⟨⟩
    exact ne_sign_of_isDigit hc
  | pointed hne hwhole =>
    obtain ⟨c, more, rfl, hc⟩ := hwhole.head hne
    rintro d ⟨⟩
    exact ne_sign_of_isDigit hc
  | fraction =>
    rintro d ⟨⟩
    decide

def BehindDigits (rest : List Char) : Prop := ∀ c ∈ rest.head?, ¬ Text.isDigit c ∧ c ≠ '.'

theorem Power.behindDigits {power : List Char} {exponent : Int} (h : Power power exponent) :
    BehindDigits power := by
  cases h with
  | none => simp [BehindDigits]
  | marked hmark =>
    rintro c ⟨⟩
    rcases hmark with rfl | rfl <;> decide

theorem takeDigits?_of_places {places whole fraction rest : List Char}
    (h : Places places whole fraction) (hrest : BehindDigits rest) :
    takeDigits? (places ++ rest) = some (ofDigits whole fraction, rest) := by
  have hstop : ∀ c ∈ rest.head?, ¬ Text.isDigit c := fun c hc => (hrest c hc).1
  have hpoint : ¬ Text.isDigit '.' := by decide
  cases h with
  | whole hne hdigits =>
    obtain ⟨htake, hdrop⟩ := Scan.takeWhile_stop hdigits hstop
    simp only [takeDigits?, htake, hdrop]
    split
    · exact absurd rfl (hrest '.' rfl).2
    · simp [hne]
  | pointed hne hwhole hfraction =>
    obtain ⟨htake, hdrop⟩ := Scan.takeWhile_stop_cons hwhole hpoint (fraction ++ rest)
    obtain ⟨htake', hdrop'⟩ := Scan.takeWhile_stop hfraction hstop
    rw [List.append_assoc, List.cons_append]
    simp only [takeDigits?, htake, hdrop, htake', hdrop']
    simp [hne]
  | fraction hne hfraction =>
    have hnone : Digits [] := List.forall_mem_nil _
    obtain ⟨htake, hdrop⟩ := Scan.takeWhile_stop_cons hnone hpoint (fraction ++ rest)
    obtain ⟨htake', hdrop'⟩ := Scan.takeWhile_stop hfraction hstop
    rw [List.nil_append] at htake hdrop
    rw [List.cons_append]
    simp only [takeDigits?, htake, hdrop, htake', hdrop']
    simp [hne]

theorem places_of_takeDigits? {text rest : List Char} {d : Decimal}
    (h : takeDigits? text = some (d, rest)) : ∃ places whole fraction,
      text = places ++ rest ∧ Places places whole fraction ∧ d = ofDigits whole fraction := by
  have hwhole : Digits (text.takeWhile Text.isDigit) := Scan.forall_mem_takeWhile text
  have hsplit := List.takeWhile_append_dropWhile (p := Text.isDigit) (l := text)
  simp only [takeDigits?] at h
  split at h
  · next behind hafter =>
    have hfraction : Digits (behind.takeWhile Text.isDigit) := Scan.forall_mem_takeWhile behind
    have hsplit' := List.takeWhile_append_dropWhile (p := Text.isDigit) (l := behind)
    rw [hafter] at hsplit
    split at h
    · cases h
    · next hsome =>
      cases h
      rcases Decidable.em (text.takeWhile Text.isDigit = []) with hnone | hne
      · refine ⟨_, [], _, ?_, .fraction ?_ hfraction, by rw [hnone]⟩
        · rw [List.cons_append, hsplit', ← hsplit, hnone, List.nil_append]
        · simpa [hnone] using hsome
      · refine ⟨_, _, _, ?_, .pointed hne hwhole hfraction, rfl⟩
        rw [List.append_assoc, List.cons_append, hsplit', hsplit]
  · split at h
    · cases h
    · next hsome =>
      cases h
      exact ⟨_, _, [], hsplit.symm, .whole (by simpa using hsome) hwhole, rfl⟩

theorem readPower?_of_power {power : List Char} {exponent : Int} (h : Power power exponent) :
    readPower? power = some exponent := by
  cases h with
  | none => rfl
  | marked hmark hsign hne hdigits =>
    obtain ⟨c, more, rfl, hc⟩ := hdigits.head hne
    have hhead : ∀ d ∈ (c :: more).head?, d ≠ '-' ∧ d ≠ '+' := by
      rintro d ⟨⟩
      exact ne_sign_of_isDigit hc
    have htake := takeSign_of_sign hsign hhead
    simp only [readPower?, htake]
    rw [if_pos, natural_eq]
    simpa [hmark] using List.forall_mem_cons.1 hdigits

theorem power_of_readPower? {text : List Char} {exponent : Int}
    (h : readPower? text = some exponent) : Power text exponent := by
  cases text with
  | nil =>
    cases h
    exact .none
  | cons mark rest =>
    obtain ⟨sign, hsign, hrest⟩ := sign_of_takeSign rest
    simp only [readPower?] at h
    split at h
    · next hmarked =>
      simp only [Bool.and_eq_true, Bool.or_eq_true, decide_eq_true_eq, List.all_eq_true,
        Bool.not_eq_true', List.isEmpty_eq_false_iff] at hmarked
      obtain ⟨⟨hmark, hne⟩, hdigits⟩ := hmarked
      cases h
      rw [← natural_eq]
      generalize takeSign rest = taken at *
      subst hrest
      exact .marked hmark hsign hne hdigits
    · cases h

theorem read?_of_parts {sign places power whole fraction : List Char} {negative : Bool}
    {exponent : Int} (hsign : Sign sign negative) (hplaces : Places places whole fraction)
    (hpower : Power power exponent) : read? (sign ++ (places ++ power)) =
      some { ofDigits whole fraction with
        negative, exponent := (ofDigits whole fraction).exponent + exponent } := by
  simp [read?, takeSign_of_sign hsign (hplaces.head _),
    takeDigits?_of_places hplaces hpower.behindDigits, readPower?_of_power hpower]

/-- Reading accepts every numeral, and finds its sign and its value. -/
theorem read?_of_numeral {text : List Char} {negative : Bool} {exact : ℚ}
    (h : Numeral text negative exact) :
    ∃ d, read? text = some d ∧ d.negative = negative ∧ d.value = exact := by
  obtain ⟨hsign, hplaces, hpower⟩ := h
  exact ⟨_, read?_of_parts hsign hplaces hpower, rfl, value_ofDigits _ _ _ _⟩

/-- Reading accepts nothing but numerals. -/
theorem numeral_of_read? {text : List Char} {d : Decimal} (h : read? text = some d) :
    Numeral text d.negative d.value := by
  obtain ⟨sign, hsign, htext⟩ := sign_of_takeSign text
  simp only [read?, Option.bind_eq_bind, Option.bind_eq_some_iff, Option.pure_def,
    Option.some.injEq] at h
  obtain ⟨⟨digits, rest⟩, hdigits, exponent, hpower, rfl⟩ := h
  obtain ⟨places, whole, fraction, hunsigned, hplaces, rfl⟩ := places_of_takeDigits? hdigits
  have hnumeral := Numeral.mk hsign hplaces (power_of_readPower? hpower)
  rw [← hunsigned, ← htext] at hnumeral
  rw [value_ofDigits]
  exact hnumeral

/-! ## Blanks around a numeral -/

/-- The digits of all scripts are apart from the blanks. -/
theorem not_isBlank_of_isDigit {c : Char} (h : Text.isDigit c) : ¬ Text.isBlank c := by
  intro hblank
  have hapart : ∀ first ∈ Text.digitZeros, ∀ range ∈ Text.blankRanges,
      range.2 < first ∨ first + 10 ≤ range.1 := by decide
  obtain ⟨value, hvalue⟩ := Option.isSome_iff_exists.1 h
  obtain ⟨first, hfirst, -⟩ := Option.map_eq_some_iff.1 hvalue
  obtain ⟨range, hrange, hwithin⟩ := List.any_eq_true.1 hblank
  have hrun := List.find?_some hfirst
  have := hapart first (List.mem_of_find?_eq_some hfirst) range hrange
  simp only [Bool.and_eq_true, decide_eq_true_eq] at hrun hwithin
  omega

theorem Sign.not_isBlank {sign : List Char} {negative : Bool} (h : Sign sign negative) :
    ∀ c ∈ sign, ¬ Text.isBlank c := by
  cases h with
  | none => exact List.forall_mem_nil _
  | plus | minus => exact List.forall_mem_singleton.2 (by decide)

theorem Places.not_isBlank {places whole fraction : List Char}
    (h : Places places whole fraction) : ∀ c ∈ places, ¬ Text.isBlank c := by
  have hdigit {digits : List Char} (hdigits : Digits digits) : ∀ c ∈ digits, ¬ Text.isBlank c :=
    fun c hc => not_isBlank_of_isDigit (hdigits c hc)
  have hpoint : ¬ Text.isBlank '.' := by decide
  cases h with
  | whole _ hdigits => exact hdigit hdigits
  | pointed _ hwhole hfraction =>
    exact List.forall_mem_append.2
      ⟨hdigit hwhole, List.forall_mem_cons.2 ⟨hpoint, hdigit hfraction⟩⟩
  | fraction _ hfraction => exact List.forall_mem_cons.2 ⟨hpoint, hdigit hfraction⟩

theorem Power.not_isBlank {power : List Char} {exponent : Int} (h : Power power exponent) :
    ∀ c ∈ power, ¬ Text.isBlank c := by
  cases h with
  | none => simp
  | marked hmark hsign _ hdigits =>
    refine List.forall_mem_cons.2 ⟨by rcases hmark with rfl | rfl <;> decide, ?_⟩
    exact List.forall_mem_append.2
      ⟨hsign.not_isBlank, fun c hc => not_isBlank_of_isDigit (hdigits c hc)⟩

/-- There are no blanks at the ends of a numeral. -/
theorem Numeral.stripped {text : List Char} {negative : Bool} {exact : ℚ}
    (h : Numeral text negative exact) : Text.Stripped text text := by
  have hblank : ∀ c ∈ text, ¬ Text.isBlank c := by
    obtain ⟨hsign, hplaces, hpower⟩ := h
    exact List.forall_mem_append.2 ⟨hsign.not_isBlank,
      List.forall_mem_append.2 ⟨hplaces.not_isBlank, hpower.not_isBlank⟩⟩
  exact ⟨⟨[], [], by simp, by simp, by simp⟩,
    fun c hc => hblank c (List.mem_of_mem_head? hc),
    fun c hc => hblank c (List.mem_of_mem_getLast? hc)⟩

theorem readTrimmed?_of_numeral {text : List Char} {negative : Bool} {exact : ℚ}
    (h : Numeral text negative exact) : readTrimmed? (String.ofList text) = read? text := by
  rw [readTrimmed?, String.toList_ofList, Text.trim_eq_of_stripped h.stripped]

/-- Without the blanks at its ends the text is a numeral. -/
def Denotes (text : List Char) (negative : Bool) (exact : ℚ) : Prop :=
  ∃ body, Text.Stripped text body ∧ Numeral body negative exact

theorem readTrimmed?_of_denotes {text : String} {negative : Bool} {exact : ℚ}
    (h : Denotes text.toList negative exact) :
    ∃ d, readTrimmed? text = some d ∧ d.negative = negative ∧ d.value = exact := by
  obtain ⟨body, hstripped, hnumeral⟩ := h
  rw [readTrimmed?, Text.trim_eq_of_stripped hstripped]
  exact read?_of_numeral hnumeral

theorem denotes_of_readTrimmed? {text : String} {d : Decimal} (h : readTrimmed? text = some d) :
    Denotes text.toList d.negative d.value :=
  ⟨_, Text.stripped_trim _, numeral_of_read? h⟩

end Decimal

end Moth
