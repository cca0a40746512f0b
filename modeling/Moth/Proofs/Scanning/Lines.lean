import Moth.Proofs.Scanning.Lexeme
/-!
# Scanning across a line break

No token but a string goes on across a line break, and a comment ends with its line.  A text
without a fault is therefore cut as it is when a line break and more text stand behind it.
-/

namespace Moth.Scan

/-- A character that stops the run stops it behind the text as well. -/
theorem takeWhile_before {p : Char → Bool} {stop : Char} (hstop : p stop = false)
    (text more : List Char) :
    (text ++ stop :: more).takeWhile p = text.takeWhile p ∧
      (text ++ stop :: more).dropWhile p = text.dropWhile p ++ stop :: more := by
  induction text with
  | nil => simp [hstop]
  | cons c text ih =>
    cases hc : p c with
    | false => simp [hc]
    | true => simp [hc, ih]

/-- What stands behind a run that has stopped does not matter. -/
theorem takeWhile_stopped {p : Char → Bool} {text rest : List Char} {stop : Char}
    (h : text.dropWhile p = stop :: rest) (more : List Char) :
    (text ++ more).takeWhile p = text.takeWhile p ∧
      (text ++ more).dropWhile p = stop :: (rest ++ more) := by
  induction text with
  | nil => cases h
  | cons c text ih =>
    cases hc : p c with
    | false =>
      rw [List.dropWhile_cons_of_neg (by simp [hc])] at h
      cases h
      simp [hc]
    | true =>
      rw [List.dropWhile_cons_of_pos hc] at h
      simp [hc, ih h]

def CutsBefore (next : Cut) (more : List Char) (longer : Cut) : Prop :=
  longer = ⟨next.reading, next.piece, next.rest ++ more⟩

theorem newline_not_digit : isDigit '\n' = false := rfl

theorem newline_not_name : isNamePart '\n' = false := rfl

theorem cutExtensible_before (c : Char) (alone extended : Symbol) (text more : List Char) :
    CutsBefore (cutExtensible c alone extended text) ('\n' :: more)
      (cutExtensible c alone extended (text ++ '\n' :: more)) := by
  cases text with
  | nil => rfl
  | cons d text =>
    by_cases hd : d = '='
    · subst hd
      rfl
    · simp [CutsBefore, cutExtensible, hd]

theorem cutSlash_before (text more : List Char) :
    CutsBefore (cutSlash text) ('\n' :: more) (cutSlash (text ++ '\n' :: more)) := by
  cases text with
  | nil => rfl
  | cons d text =>
    by_cases hd : d = '/'
    · subst hd
      have hstop : decide ('\n' ≠ '\n') = false := by decide
      obtain ⟨htake, hdrop⟩ := takeWhile_before (p := (· ≠ '\n')) hstop text more
      simp only [CutsBefore, cutSlash, List.cons_append, htake, hdrop]
    · simp [CutsBefore, cutSlash, hd]

theorem cutString_before {text : List Char}
    (h : (cutString text).reading ≠ .fault .unterminatedString) (more : List Char) :
    CutsBefore (cutString text) more (cutString (text ++ more)) := by
  cases hclose : text.dropWhile (· ≠ '"') with
  | nil =>
    simp only [cutString, hclose] at h
    exact absurd rfl h
  | cons quote rest =>
    obtain ⟨htake, hdrop⟩ := takeWhile_stopped hclose more
    simp only [CutsBefore, cutString, hclose, htake, hdrop]

theorem cutNumber_before (c : Char) (text more : List Char) :
    CutsBefore (cutNumber c text) ('\n' :: more) (cutNumber c (text ++ '\n' :: more)) := by
  obtain ⟨htake, hdrop⟩ := takeWhile_before newline_not_digit text more
  simp only [CutsBefore, cutNumber, htake, hdrop]
  cases hafter : text.dropWhile isDigit with
  | nil => simp
  | cons d rest =>
    by_cases hd : d = '.'
    · subst hd
      obtain ⟨htake, hdrop⟩ := takeWhile_before newline_not_digit rest more
      simp only [List.cons_append, htake, hdrop]
      split <;> rfl
    · simp [hd]

theorem cutName_before (c : Char) (text more : List Char) :
    CutsBefore (cutName c text) ('\n' :: more) (cutName c (text ++ '\n' :: more)) := by
  obtain ⟨htake, hdrop⟩ := takeWhile_before newline_not_name text more
  simp only [CutsBefore, cutName, htake, hdrop]

/-- A line break ends every piece, an open string apart. -/
theorem cut_before {c : Char} {text : List Char}
    (h : (cut c text).reading ≠ .fault .unterminatedString) (more : List Char) :
    CutsBefore (cut c text) ('\n' :: more) (cut c (text ++ '\n' :: more)) := by
  by_cases hquote : c = '"'
  · subst hquote
    exact cutString_before h _
  unfold cut
  split
  · rfl
  split
  · exact cutExtensible_before c _ _ text more
  split
  · exact cutSlash_before text more
  split
  · rfl
  split
  · exact cutNumber_before c text more
  split
  · exact cutName_before c text more
  · rfl

theorem pieces_before {text : List Char} (h : Clean (pieces text)) (more : List Char) :
    pieces (text ++ '\n' :: more) = pieces text ++ pieces ('\n' :: more) := by
  fun_induction pieces text with
  | case1 => rfl
  | case2 c text ih =>
    have hfirst : (cut c text).reading ≠ .fault .unterminatedString :=
      h _ List.mem_cons_self _
    rw [List.cons_append, pieces_cons, cut_before hfirst more]
    rw [ih fun p hp => h p (List.mem_cons_of_mem _ hp)]
    rfl

/-- Two texts without a fault, one on the lines behind the other. -/
theorem scan_lines {text more : List Char} {unit unit' : Nat}
    (h : (scan unit text).complaints = #[]) (h' : (scan unit' more).complaints = #[])
    (joint : Nat) : (scan joint (text ++ '\n' :: more)).complaints = #[] ∧
      (scan joint (text ++ '\n' :: more)).tokens.toList.map Token.word =
        (scan unit text).tokens.toList.map Token.word ++
          (scan unit' more).tokens.toList.map Token.word := by
  rw [scan_quiet_iff] at h h'
  have hfirst : Lexes text ((scan unit text).tokens.toList.map Token.word) ('\n' :: more) :=
    ⟨pieces text, pieces_before h more, h, (words_scan unit text).symm⟩
  have hlast : Lexes more ((scan unit' more).tokens.toList.map Token.word) [] :=
    ⟨pieces more, by simp, h', (words_scan unit' more).symm⟩
  have hline : Lexes ('\n' :: more) ((scan unit' more).tokens.toList.map Token.word) [] :=
    (lexes_blank (.inr rfl) (more ++ [])).append hlast
  have hboth : Lexes text _ ('\n' :: more ++ []) := (List.append_nil ('\n' :: more)).symm ▸ hfirst
  exact (hboth.append hline).quiet joint

end Moth.Scan
