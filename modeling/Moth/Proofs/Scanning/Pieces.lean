import Moth.Token.Scan
/-!
# The pieces of a text

Scanning cuts a text into pieces and then numbers them.  `pieces` is the first half by
itself: it knows no lines, offsets or units, so what it gives for a text can be put
together from what it gives for the parts.
-/

namespace Moth

abbrev Word := Kind × String

def Token.word (token : Token) : Word := (token.kind, token.lexeme)

namespace Scan

def pieces : List Char → List (Reading × List Char)
  | [] => []
  | c :: text => ((cut c text).reading, (cut c text).piece) :: pieces (cut c text).rest
termination_by text => text.length
decreasing_by exact Nat.lt_succ_of_le (length_rest_cut_le c text)

@[simp] theorem pieces_nil : pieces [] = [] := by rw [pieces]

theorem pieces_cons (c : Char) (text : List Char) :
    pieces (c :: text) =
      ((cut c text).reading, (cut c text).piece) :: pieces (cut c text).rest := by
  rw [pieces]

def word? : Reading × List Char → Option Word
  | (.token kind, piece) => some (kind, String.ofList piece)
  | _ => none

def Clean (ps : List (Reading × List Char)) : Prop :=
  ∀ p ∈ ps, ∀ fault, p.1 ≠ .fault fault

theorem clean_append {ps qs : List (Reading × List Char)} :
    Clean (ps ++ qs) ↔ Clean ps ∧ Clean qs := by
  simp only [Clean, List.mem_append]
  constructor
  · intro h
    exact ⟨fun p hp => h p (.inl hp), fun p hp => h p (.inr hp)⟩
  · rintro ⟨hps, hqs⟩ p (hp | hp)
    · exact hps p hp
    · exact hqs p hp

/-! ## Passing pieces -/

def passAll (scan : Scan) (ps : List (Reading × List Char)) : Scan :=
  ps.foldl (fun scan p => scan.pass p.1 p.2) scan

theorem advance_eq_passAll (scan : Scan) (text : List Char) :
    scan.advance text = scan.passAll (pieces text) := by
  fun_induction advance scan text with
  | case1 scan => simp [passAll]
  | case2 scan c text next ih =>
    rw [ih, pieces_cons]
    rfl

theorem words_pass (scan : Scan) (p : Reading × List Char) :
    (scan.pass p.1 p.2).tokens.toList.map Token.word =
      scan.tokens.toList.map Token.word ++ (word? p).toList := by
  obtain ⟨reading, piece⟩ := p
  cases reading <;> simp [pass, word?, Token.word]

theorem words_passAll (ps : List (Reading × List Char)) (scan : Scan) :
    (scan.passAll ps).tokens.toList.map Token.word =
      scan.tokens.toList.map Token.word ++ ps.filterMap word? := by
  induction ps generalizing scan with
  | nil => simp [passAll]
  | cons p ps ih =>
    have hrest := ih (scan.pass p.1 p.2)
    rw [passAll, List.foldl_cons, ← passAll, hrest, words_pass, List.append_assoc]
    cases hword : word? p <;> simp [hword]

theorem complaints_passAll (ps : List (Reading × List Char)) (scan : Scan) :
    (scan.passAll ps).complaints = #[] ↔ scan.complaints = #[] ∧ Clean ps := by
  induction ps generalizing scan with
  | nil => simp [passAll, Clean]
  | cons p ps ih =>
    rw [passAll, List.foldl_cons, ← passAll, ih]
    obtain ⟨reading, piece⟩ := p
    cases reading <;> simp [pass, Clean]

end Scan

open Scan

theorem words_scan (unit : Nat) (text : List Char) :
    (scan unit text).tokens.toList.map Token.word = (pieces text).filterMap word? := by
  rw [scan, advance_eq_passAll, words_passAll]
  rfl

theorem scan_quiet_iff (unit : Nat) (text : List Char) :
    (scan unit text).complaints = #[] ↔ Clean (pieces text) := by
  rw [scan, advance_eq_passAll, complaints_passAll]
  simp [Scan.start]

end Moth
