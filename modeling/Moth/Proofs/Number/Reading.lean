import Moth.Eval.Native
import Moth.Proofs.Number.Numeral
import Moth.Proofs.Scanning.Tokens
/-!
# Reading numbers

The native function `stringToNum` and the scanner read numbers by rules of their own.  The main
result says which strings `stringToNum` takes for numbers and for which, and that among them are
the number literals of programs, with the values the scanner gives them.
-/

namespace Moth

namespace Decimal

theorem digits_of_forall {digits : List Char} (h : ∀ c ∈ digits, Scan.isDigit c) :
    Digits digits := by
  intro c hc
  rw [Text.isDigit, Text.digitValue?_of_isDigit (h c hc)]
  rfl

/-- A number literal is a numeral without a sign and a power of ten. -/
theorem places_of_literal {x : Number} {text : List Char} (h : Scan.Numeral x text) :
    ∃ whole fraction, Places text whole fraction ∧ (ofDigits whole fraction).toNumber = x := by
  cases h with
  | whole hne hwhole => exact ⟨_, _, .whole hne (digits_of_forall hwhole), rfl⟩
  | pointed hne hwhole _ hfraction =>
    exact ⟨_, _, .pointed hne (digits_of_forall hwhole) (digits_of_forall hfraction), rfl⟩

/-- A number literal has an exact value, and rounds it. -/
theorem rounds_of_literal {x : Number} {text : List Char} (h : Scan.Numeral x text) :
    ∃ exact, Numeral text false exact ∧ x.Rounds false exact := by
  obtain ⟨whole, fraction, hplaces, rfl⟩ := places_of_literal h
  have hread := read?_of_parts .none hplaces .none
  rw [List.nil_append, List.append_nil, Int.add_zero] at hread
  exact ⟨_, numeral_of_read? hread, rounds_toNumber _⟩

theorem readTrimmed?_of_parts {sign places power whole fraction : List Char} {negative : Bool}
    {exponent : Int} (hsign : Sign sign negative) (hplaces : Places places whole fraction)
    (hpower : Power power exponent) :
    readTrimmed? (String.ofList (sign ++ (places ++ power))) =
      some { ofDigits whole fraction with
        negative, exponent := (ofDigits whole fraction).exponent + exponent } := by
  rw [readTrimmed?_of_numeral (.mk hsign hplaces hpower), read?_of_parts hsign hplaces hpower]

/-- A numeral without a power of ten. -/
theorem readTrimmed?_of_places {sign places whole fraction : List Char} {negative : Bool}
    (hsign : Sign sign negative) (hplaces : Places places whole fraction) :
    readTrimmed? (String.ofList (sign ++ places)) =
      some { ofDigits whole fraction with negative } := by
  have hread := readTrimmed?_of_parts hsign hplaces .none
  rwa [List.append_nil, Int.add_zero] at hread

theorem readTrimmed?_of_literal {x : Number} {text : String} (h : Scan.Numeral x text.toList) :
    ∃ d, readTrimmed? text = some d ∧ d.toNumber = x := by
  obtain ⟨whole, fraction, hplaces, hx⟩ := places_of_literal h
  have hread := readTrimmed?_of_places .none hplaces
  rw [List.nil_append, String.ofList_toList] at hread
  exact ⟨_, hread, hx⟩

end Decimal

open Decimal

/-- Called with a string, `stringToNum` gives a number if the string is a numeral with blanks around
it, and nil otherwise.  The number is the one to which the exact value of the numeral rounds.  For
the text of a number literal it is the value of the literal. -/
theorem stringToNum_reads (paren : Token) (text : String) :
    (∃ value, Native.call paren .stringToNum [.string text] = pure value ∧
      ((∃ x, value = .number x) ↔ ∃ negative exact, Denotes text.toList negative exact) ∧
      ((∀ negative exact, ¬ Denotes text.toList negative exact) → value = .nil) ∧
      ∀ negative exact, Denotes text.toList negative exact →
        ∀ x, value = .number x ↔ x.Rounds negative exact) ∧
    ∀ unit source, ∀ token ∈ (scan unit source).tokens, ∀ x, token.kind = .number x →
      Native.call paren .stringToNum [.string token.lexeme] = pure (.number x) := by
  constructor
  · simp only [Native.call, Native.readNumber]
    cases hread : readTrimmed? text with
    | none =>
      have hnone : ∀ negative exact, ¬ Denotes text.toList negative exact := by
        intro negative exact hdenotes
        obtain ⟨d, hsome, -⟩ := readTrimmed?_of_denotes hdenotes
        rw [hread] at hsome
        cases hsome
      refine ⟨.nil, rfl, ?_, fun _ => rfl, fun negative exact h => absurd h (hnone _ _)⟩
      simp [hnone]
    | some d =>
      have hdenotes := denotes_of_readTrimmed? hread
      refine ⟨.number d.toNumber, rfl, ?_, fun hnone => absurd hdenotes (hnone _ _), ?_⟩
      · exact ⟨fun _ => ⟨_, _, hdenotes⟩, fun _ => ⟨_, rfl⟩⟩
      · intro negative exact hother x
        obtain ⟨other, hsame, rfl, rfl⟩ := readTrimmed?_of_denotes hother
        obtain rfl : d = other := Option.some.inj (hread.symm.trans hsame)
        rw [Value.number.injEq]
        constructor
        · rintro rfl
          exact d.rounds_toNumber
        · exact d.rounds_toNumber.unique
  · intro unit source token htoken x hkind
    have hspells := spells_of_scan htoken
    rw [hkind] at hspells
    obtain ⟨d, hread, rfl⟩ := readTrimmed?_of_literal hspells
    simp only [Native.call, Native.readNumber, hread]

def closingParen : Token := ⟨.symbol .rightParen, ")", 1, 12, 1⟩

/-- Digits of two scripts, with blanks around them, are read as what they write; a point alone is
nothing; and the literal of a program is read as the scanner reads it. -/
theorem mixedDigits_read :
    (∃ x, Native.call closingParen .stringToNum [.string " +٣.5e-1\n"] = pure (.number x) ∧
      x.Rounds false (7 / 20)) ∧
    Native.call closingParen .stringToNum [.string "."] = pure .nil ∧
    ∃ token ∈ (scan 1 "print 0.1;".toList).tokens, ∃ x, token.kind = .number x ∧
      Native.call closingParen .stringToNum [.string token.lexeme] = pure (.number x) := by
  refine ⟨?_, ?_, ?_⟩
  · obtain ⟨⟨value, hcall, hnumber, -, hrounds⟩, -⟩ :=
      stringToNum_reads closingParen " +٣.5e-1\n"
    have hdenotes : Denotes " +٣.5e-1\n".toList false (7 / 20) := by
      have hplaces : Places (['٣'] ++ '.' :: ['5']) ['٣'] ['5'] :=
        .pointed (by decide) (List.forall_mem_singleton.2 (by decide))
          (List.forall_mem_singleton.2 (by decide))
      have hpower : Power ('e' :: (['-'] ++ ['1'])) (-natural ['1']) :=
        .marked (.inl rfl) .minus (by decide) (List.forall_mem_singleton.2 (by decide))
      have hnumeral := Numeral.mk .plus hplaces hpower
      have hthree : natural ['٣'] = 3 := by decide
      have hfive : natural ['5'] = 5 := by decide
      have hone : natural ['1'] = 1 := by decide
      rw [hthree, hfive, hone] at hnumeral
      norm_num at hnumeral
      refine ⟨_, ⟨⟨[' '], ['\n'], by decide, ?_, ?_⟩, ?_, ?_⟩, hnumeral⟩
      · exact List.forall_mem_singleton.2 (by decide)
      · exact List.forall_mem_singleton.2 (by decide)
      · rintro c ⟨⟩
        decide
      · rintro c ⟨⟩
        decide
    obtain ⟨x, rfl⟩ := hnumber.2 ⟨_, _, hdenotes⟩
    exact ⟨x, hcall, (hrounds _ _ hdenotes x).1 rfl⟩
  · obtain ⟨⟨value, hcall, -, hnil, -⟩, -⟩ := stringToNum_reads closingParen "."
    have hread : readTrimmed? "." = none := by decide +kernel
    rw [hcall, hnil]
    intro negative exact hdenotes
    obtain ⟨d, hsome, -⟩ := readTrimmed?_of_denotes hdenotes
    rw [hread] at hsome
    cases hsome
  · have htoken : (scan 1 "print 0.1;".toList).tokens[1]? =
        some ⟨.number ⟨0x3FB999999999999A⟩, "0.1", 1, 6, 1⟩ := by decide +kernel
    have hmem := Array.mem_of_getElem? htoken
    exact ⟨_, hmem, _, rfl, (stringToNum_reads closingParen "").2 1 _ _ hmem _ rfl⟩

end Moth
