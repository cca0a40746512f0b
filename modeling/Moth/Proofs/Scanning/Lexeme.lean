import Moth.Proofs.Scanning.Pieces
/-!
# Lexemes

Which texts are tokens (`Spells`), and what may follow them (`Apart`).  Every token that
scanning gives has the text of its kind, and every such text is scanned as that token
wherever nothing behind it would make it longer.
-/

namespace Moth.Scan

/-- The text of a number: digits, and perhaps a point with digits behind it. -/
inductive Numeral : Number → List Char → Prop where
  | whole {digits : List Char} (hne : digits ≠ []) (hdigits : ∀ c ∈ digits, isDigit c) :
      Numeral (Decimal.ofDigits digits []).toNumber digits
  | pointed {digits fraction : List Char} (hne : digits ≠ [])
      (hdigits : ∀ c ∈ digits, isDigit c) (hne' : fraction ≠ [])
      (hfraction : ∀ c ∈ fraction, isDigit c) :
      Numeral (Decimal.ofDigits digits fraction).toNumber (digits ++ '.' :: fraction)

/-- The texts of the tokens of a kind. -/
def Spells : Kind → List Char → Prop
  | .symbol symbol, text => text = symbol.text.toList
  | .keyword keyword, text => text = keyword.text.toList
  | .identifier, text => (∃ c more, text = c :: more ∧ isNameStart c ∧ ∀ d ∈ more, isNamePart d) ∧
      Keyword.ofText? (String.ofList text) = none
  | .string value, text => text = '"' :: (value.toList ++ ['"']) ∧ '"' ∉ value.toList
  | .number value, text => Numeral value text
  | .eof, _ => False

/-- What may stand behind a token of a kind. -/
def Apart : Kind → List Char → Prop
  | .symbol .slash, rest => rest.head? ≠ some '/'
  | .symbol .bang, rest | .symbol .equal, rest | .symbol .less, rest
  | .symbol .greater, rest => rest.head? ≠ some '='
  | .keyword _, rest | .identifier, rest => ∀ c ∈ rest.head?, ¬ isNamePart c
  | .number _, rest => ∀ c more, rest = c :: more → ¬ isDigit c ∧
      (c = '.' → ∀ d ∈ more.head?, ¬ isDigit d)
  | _, _ => True

/-- Behind such a text every name, number and string is at its end. -/
def Breaks (rest : List Char) : Prop :=
  ∀ c more, rest = c :: more → ¬ isNamePart c ∧ (c = '.' → ∀ d ∈ more.head?, ¬ isDigit d)

/-! ## Characters -/

theorem not_namePart_of_single {c : Char} {symbol : Symbol}
    (h : singleSymbol? c = some symbol) : isNamePart c = false := by
  unfold singleSymbol? at h
  split at h <;> cases h <;> rfl

theorem not_namePart_of_extensible {c : Char} {symbols : Symbol × Symbol}
    (h : extensibleSymbol? c = some symbols) : isNamePart c = false := by
  unfold extensibleSymbol? at h
  split at h <;> cases h <;> rfl

theorem isNamePart_of_isDigit {c : Char} (h : isDigit c) : isNamePart c := by
  simp [isNamePart, h]

theorem isNamePart_of_isNameStart {c : Char} (h : isNameStart c) : isNamePart c := by
  simp [isNamePart, h]

theorem not_isDigit_of_isNameStart {c : Char} (h : isNameStart c) : isDigit c = false := by
  simp only [isNameStart, isDigit, Bool.or_eq_true, Bool.and_eq_true, decide_eq_true_eq,
    Bool.and_eq_false_iff, decide_eq_false_iff_not, Char.le_def] at h ⊢
  rcases h with (⟨hlow, -⟩ | ⟨hlow, -⟩) | rfl
  · right
    intro hhigh
    exact absurd (UInt32.le_trans hlow hhigh) (by decide)
  · right
    intro hhigh
    exact absurd (UInt32.le_trans hlow hhigh) (by decide)
  · decide

/-- A part of a name is cut as a number or a name. -/
theorem cut_of_isNamePart {c : Char} (h : isNamePart c) (text : List Char) :
    cut c text = if isDigit c then cutNumber c text else cutName c text := by
  have hsingle : singleSymbol? c = none := by
    cases hsymbol : singleSymbol? c with
    | none => rfl
    | some symbol => simp [not_namePart_of_single hsymbol] at h
  have hextensible : extensibleSymbol? c = none := by
    cases hsymbol : extensibleSymbol? c with
    | none => rfl
    | some symbols => simp [not_namePart_of_extensible hsymbol] at h
  have hother (d : Char) (hd : isNamePart d = false) : c ≠ d := by
    rintro rfl
    simp [hd] at h
  simp only [cut, hsingle, hextensible, hother '/' rfl, hother '"' rfl, hother ' ' rfl,
    hother '\r' rfl, hother '\t' rfl, hother '\n' rfl, if_false, decide_false, Bool.or_self,
    Bool.false_eq_true]
  by_cases hdigit : isDigit c
  · simp [hdigit]
  · have hstart : isNameStart c := by simpa [isNamePart, hdigit] using h
    simp [hdigit, hstart]

/-! ## Every token has the text of its kind -/

theorem forall_mem_takeWhile {p : Char → Bool} (text : List Char) :
    ∀ c ∈ text.takeWhile p, p c :=
  List.all_eq_true.1 List.all_takeWhile

theorem spells_of_cutExtensible {c : Char} {alone extended : Symbol}
    (h : extensibleSymbol? c = some (alone, extended)) {text : List Char} {kind : Kind}
    (hkind : (cutExtensible c alone extended text).reading = .token kind) :
    Spells kind (cutExtensible c alone extended text).piece := by
  have htexts : [c] = alone.text.toList ∧ [c, '='] = extended.text.toList := by
    unfold extensibleSymbol? at h
    split at h <;> cases h <;> exact ⟨rfl, rfl⟩
  unfold cutExtensible at hkind ⊢
  split at hkind <;> cases hkind
  · exact htexts.2
  · exact htexts.1

theorem spells_of_cutString {text : List Char} {kind : Kind}
    (hkind : (cutString text).reading = .token kind) : Spells kind (cutString text).piece := by
  simp only [cutString] at hkind ⊢
  split at hkind
  · cases hkind
  · next quote rest hdrop =>
    have hquote : quote = '"' := by
      have hhead := List.head?_dropWhile_not (· ≠ '"') text
      rw [hdrop] at hhead
      simpa using hhead
    cases hkind
    refine ⟨by simp [hquote], ?_⟩
    intro hmem
    rw [String.toList_ofList] at hmem
    exact absurd (forall_mem_takeWhile text _ hmem) (by decide)

theorem spells_of_cutNumber {c : Char} (hc : isDigit c) {text : List Char} {kind : Kind}
    (hkind : (cutNumber c text).reading = .token kind) :
    Spells kind (cutNumber c text).piece := by
  have hdigits : ∀ d ∈ c :: text.takeWhile isDigit, isDigit d := by
    intro d hd
    rcases List.mem_cons.1 hd with rfl | hd
    · exact hc
    · exact forall_mem_takeWhile text d hd
  simp only [cutNumber] at hkind ⊢
  split at hkind
  · next afterPoint hafter =>
    simp only [hafter]
    by_cases hempty : (afterPoint.takeWhile isDigit).isEmpty
    · simp only [hempty, if_true] at hkind ⊢
      cases hkind
      exact .whole (by simp) hdigits
    · simp only [hempty] at hkind ⊢
      cases hkind
      refine .pointed (by simp) hdigits ?_ (forall_mem_takeWhile afterPoint)
      simpa [List.isEmpty_iff] using hempty
  · cases hkind
    exact .whole (by simp) hdigits

theorem spells_of_cutName {c : Char} (hc : isNameStart c) {text : List Char} {kind : Kind}
    (hkind : (cutName c text).reading = .token kind) : Spells kind (cutName c text).piece := by
  simp only [cutName, Reading.token.injEq] at hkind ⊢
  unfold wordKind at hkind
  split at hkind
  · next keyword hkeyword =>
    cases hkind
    have htext := List.find?_some hkeyword
    simp only [decide_eq_true_eq] at htext
    simp [Spells, htext]
  · next hnone =>
    cases hkind
    exact ⟨⟨c, _, rfl, hc, forall_mem_takeWhile text⟩, hnone⟩

theorem spells_of_cut {c : Char} {text : List Char} {kind : Kind}
    (hkind : (cut c text).reading = .token kind) : Spells kind (cut c text).piece := by
  revert hkind
  unfold cut
  split
  · next symbol hsymbol =>
    intro hkind
    cases hkind
    unfold singleSymbol? at hsymbol
    split at hsymbol <;> cases hsymbol <;> rfl
  split
  · next alone extended hsymbols => exact spells_of_cutExtensible hsymbols
  split
  · unfold cutSlash
    split <;> intro hkind <;> cases hkind
    rfl
  split
  · exact spells_of_cutString
  split
  · intro hkind
    cases hkind
  split
  · next hdigit => exact spells_of_cutNumber hdigit
  split
  · next hname => exact spells_of_cutName hname
  · intro hkind
    cases hkind

/-! ## Every such text is a token -/

theorem takeWhile_stop {p : Char → Bool} {text rest : List Char} (h : ∀ c ∈ text, p c)
    (hrest : ∀ c ∈ rest.head?, ¬ p c) :
    (text ++ rest).takeWhile p = text ∧ (text ++ rest).dropWhile p = rest := by
  rw [List.takeWhile_append_of_pos h, List.dropWhile_append_of_pos h]
  cases rest with
  | nil => simp
  | cons c rest =>
    have hc : p c = false := by simpa using hrest c rfl
    simp [hc]

theorem takeWhile_stop_cons {p : Char → Bool} {text : List Char} {stop : Char}
    (h : ∀ c ∈ text, p c) (hstop : ¬ p stop) (rest : List Char) :
    (text ++ stop :: rest).takeWhile p = text ∧
      (text ++ stop :: rest).dropWhile p = stop :: rest := by
  refine takeWhile_stop h ?_
  rintro c ⟨⟩
  exact hstop

theorem cut_symbol {symbol : Symbol} {c : Char} {text rest : List Char}
    (htext : symbol.text.toList = c :: text) (h : Apart (.symbol symbol) rest) :
    cut c (text ++ rest) = ⟨.token (.symbol symbol), c :: text, rest⟩ := by
  cases symbol <;> simp only [Symbol.text, String.reduceToList,
    List.cons.injEq, List.nil_eq] at htext <;> obtain ⟨rfl, rfl⟩ := htext
  case slash | bang | equal | less | greater =>
    cases rest with
    | nil => rfl
    | cons d rest =>
      simp only [Apart, List.head?_cons, ne_eq, Option.some.injEq] at h
      simp [cut, singleSymbol?, extensibleSymbol?, cutExtensible, cutSlash, h]
  all_goals rfl

theorem cut_name {c : Char} {text rest : List Char} (hc : isNameStart c)
    (htext : ∀ d ∈ text, isNamePart d) (hrest : ∀ d ∈ rest.head?, ¬ isNamePart d) :
    cut c (text ++ rest) =
      ⟨.token (wordKind (c :: text)), c :: text, rest⟩ := by
  obtain ⟨htake, hdrop⟩ := takeWhile_stop htext hrest
  simp [cut_of_isNamePart (isNamePart_of_isNameStart hc), not_isDigit_of_isNameStart hc,
    cutName, htake, hdrop]

theorem cut_string {value : String} (h : '"' ∉ value.toList) (rest : List Char) :
    cut '"' (value.toList ++ '"' :: rest) =
      ⟨.token (.string value), '"' :: (value.toList ++ ['"']), rest⟩ := by
  have hvalue : ∀ c ∈ value.toList, decide (c ≠ '"') := by
    intro c hc
    rw [decide_eq_true_iff]
    rintro rfl
    exact h hc
  have hquote : ¬ decide ('"' ≠ '"') := by decide
  obtain ⟨htake, hdrop⟩ := takeWhile_stop_cons hvalue hquote rest
  have hcut : cut '"' (value.toList ++ '"' :: rest) =
      cutString (value.toList ++ '"' :: rest) := rfl
  rw [hcut, cutString, htake, hdrop]
  simp

theorem head_of_apart_number {value : Number} {rest : List Char}
    (h : Apart (.number value) rest) : ∀ c ∈ rest.head?, ¬ isDigit c := by
  intro c hc
  cases rest with
  | nil => simp at hc
  | cons d more =>
    cases hc
    exact (h _ _ rfl).1

theorem cut_number {value : Number} {c : Char} {text rest : List Char}
    (hvalue : Numeral value (c :: text)) (h : Apart (.number value) rest) :
    cut c (text ++ rest) = ⟨.token (.number value), c :: text, rest⟩ := by
  have hhead := head_of_apart_number h
  generalize hall : c :: text = all at hvalue
  cases hvalue with
  | whole _ hdigits =>
    subst hall
    have hc : isDigit c := hdigits c (List.mem_cons_self)
    obtain ⟨htake, hdrop⟩ := takeWhile_stop
      (fun d hd => hdigits d (List.mem_cons_of_mem c hd)) hhead
    rw [cut_of_isNamePart (isNamePart_of_isDigit hc), if_pos hc]
    simp only [cutNumber, htake, hdrop]
    split
    · next _ afterPoint =>
      -- the point behind the digits has no digit behind it
      have hfraction : afterPoint.takeWhile isDigit = [] := by
        cases afterPoint with
        | nil => rfl
        | cons d more =>
          have hd := (h _ _ rfl).2 rfl d rfl
          simp [hd]
      simp [hfraction]
    · rfl
  | @pointed digits fraction hne hdigits hne' hfraction =>
    obtain ⟨more, rfl, rfl⟩ := (List.cons_eq_append_iff.1 hall).resolve_left fun h => hne h.1
    have hc : isDigit c := hdigits c (List.mem_cons_self)
    have hpoint : ¬ isDigit '.' := by decide
    obtain ⟨htake, hdrop⟩ := takeWhile_stop_cons
      (fun d hd => hdigits d (List.mem_cons_of_mem c hd)) hpoint (fraction ++ rest)
    obtain ⟨htake', hdrop'⟩ := takeWhile_stop hfraction hhead
    rw [cut_of_isNamePart (isNamePart_of_isDigit hc), if_pos hc]
    simp only [cutNumber, List.append_assoc, List.cons_append, htake, hdrop, htake', hdrop']
    simp [hne']

theorem keyword_name (keyword : Keyword) : wordKind keyword.text.toList = .keyword keyword ∧
    ∃ c more, keyword.text.toList = c :: more ∧ isNameStart c ∧ ∀ d ∈ more, isNamePart d := by
  cases keyword <;>
    exact ⟨by decide, _, _, rfl, by decide, List.all_eq_true.1 (by decide)⟩

theorem Spells.ne_nil {kind : Kind} {text : List Char} (h : Spells kind text) : text ≠ [] := by
  rintro rfl
  cases kind with
  | symbol symbol =>
    have hempty : [] = symbol.text.toList := h
    cases symbol <;> simp [Symbol.text] at hempty
  | keyword keyword =>
    obtain ⟨-, c, more, htext, -⟩ := keyword_name keyword
    have hempty : [] = keyword.text.toList := h
    simp [htext] at hempty
  | identifier =>
    obtain ⟨⟨c, more, heq, -⟩, -⟩ := h
    cases heq
  | string value => cases h.1
  | number value =>
    generalize hall : ([] : List Char) = all at h
    cases h with
    | whole hne => exact hne hall.symm
    | pointed => simp at hall
  | eof => exact h

theorem Numeral.head {value : Number} {text : List Char} (h : Numeral value text) :
    ∃ c, text.head? = some c ∧ c ≠ '=' := by
  have digit {digits : List Char} (hne : digits ≠ []) (hdigits : ∀ c ∈ digits, isDigit c)
      (more : List Char) : ∃ c, (digits ++ more).head? = some c ∧ c ≠ '=' := by
    cases digits with
    | nil => exact absurd rfl hne
    | cons c digits =>
      refine ⟨c, rfl, ?_⟩
      rintro rfl
      exact absurd (hdigits '=' List.mem_cons_self) (by decide)
  cases h with
  | whole hne hdigits => simpa using digit hne hdigits []
  | pointed hne hdigits => exact digit hne hdigits _

/-- A text that spells a kind is cut off as a token of that kind. -/
theorem cut_of_spells {kind : Kind} {c : Char} {text rest : List Char}
    (hspells : Spells kind (c :: text)) (h : Apart kind rest) :
    cut c (text ++ rest) = ⟨.token kind, c :: text, rest⟩ := by
  cases kind with
  | symbol symbol => exact cut_symbol hspells.symm h
  | keyword keyword =>
    obtain ⟨hkind, d, more, htext, hd, hmore⟩ := keyword_name keyword
    have heq : c :: text = d :: more := hspells.trans htext
    cases heq
    rw [cut_name hd hmore h, ← htext, hkind]
  | identifier =>
    obtain ⟨⟨d, more, heq, hd, hmore⟩, hnone⟩ := hspells
    cases heq
    rw [cut_name hd hmore h, wordKind, hnone]
  | string value =>
    obtain ⟨heq, hquote⟩ := hspells
    cases heq
    simpa using cut_string hquote rest
  | number value => exact cut_number hspells h
  | eof => exact absurd hspells id

/-! ## Texts in front of a text -/

/-- The text is cut into pieces without a fault, whose tokens are `words`, and what stands
behind it is cut as if it stood alone. -/
def Lexes (text : List Char) (words : List Word) (rest : List Char) : Prop :=
  ∃ ps, pieces (text ++ rest) = ps ++ pieces rest ∧ Clean ps ∧ ps.filterMap word? = words

theorem lexes_nil (rest : List Char) : Lexes [] [] rest :=
  ⟨[], rfl, by simp [Clean], rfl⟩

theorem Lexes.append {text other rest : List Char} {words more : List Word}
    (h : Lexes text words (other ++ rest)) (hother : Lexes other more rest) :
    Lexes (text ++ other) (words ++ more) rest := by
  obtain ⟨ps, hps, hclean, rfl⟩ := h
  obtain ⟨qs, hqs, hclean', rfl⟩ := hother
  refine ⟨ps ++ qs, ?_, clean_append.2 ⟨hclean, hclean'⟩, List.filterMap_append⟩
  rw [List.append_assoc, hps, hqs, List.append_assoc]

theorem lexes_word {kind : Kind} {text rest : List Char} (hspells : Spells kind text)
    (h : Apart kind rest) : Lexes text [(kind, String.ofList text)] rest := by
  cases text with
  | nil => exact absurd rfl hspells.ne_nil
  | cons c text =>
    refine ⟨[(.token kind, c :: text)], ?_, by simp [Clean], rfl⟩
    rw [List.cons_append, pieces_cons, cut_of_spells hspells h]
    rfl

theorem lexes_blank {c : Char} (h : c = ' ' ∨ c = '\n') (rest : List Char) :
    Lexes [c] [] rest := by
  refine ⟨[(.gap, [c])], ?_, by simp [Clean], rfl⟩
  rw [List.cons_append, pieces_cons]
  rcases h with rfl | rfl <;> rfl

theorem lexes_blanks {text : List Char} (h : ∀ c ∈ text, c = ' ' ∨ c = '\n')
    (rest : List Char) : Lexes text [] rest := by
  induction text with
  | nil => exact lexes_nil rest
  | cons c text ih =>
    have hc := h c List.mem_cons_self
    exact (lexes_blank hc (text ++ rest)).append (ih fun d hd => h d (List.mem_cons_of_mem c hd))

theorem Lexes.quiet {text : List Char} {words : List Word} (h : Lexes text words [])
    (unit : Nat) : (scan unit text).complaints = #[] ∧
      (scan unit text).tokens.toList.map Token.word = words := by
  obtain ⟨ps, hps, hclean, hwords⟩ := h
  simp only [List.append_nil, pieces_nil] at hps
  rw [scan_quiet_iff, words_scan, hps]
  exact ⟨hclean, hwords⟩

end Moth.Scan
