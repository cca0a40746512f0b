import Moth.Proofs.Scanning.Lexeme
/-!
# Texts and the tokens in them

`Yields text follow R` says that a text is cut into tokens without a fault, whatever stands
behind it as far as `follow` allows it, and that any tokens with these words satisfy `R`.
Where the tokens stand does not matter.  The lemmas take a text apart from the left.
-/

namespace Moth.Scan

def Yields (text : List Char) (follow : List Char → Prop) (R : List Token → Prop) : Prop :=
  ∃ words, (∀ rest, follow rest → Lexes text words rest) ∧
    ∀ ts : List Token, ts.map Token.word = words → R ts

def Anything (_ : List Char) : Prop := True

namespace Yields

variable {text other : List Char} {follow : List Char → Prop} {P R : List Token → Prop}

theorem imp {Q : List Token → Prop} (h : Yields text follow R) (hRQ : ∀ ts, R ts → Q ts) :
    Yields text follow Q := by
  obtain ⟨words, hlexes, hR⟩ := h
  exact ⟨words, hlexes, fun ts hts => hRQ ts (hR ts hts)⟩

theorem done (h : R []) : Yields [] follow R := by
  refine ⟨[], fun rest _ => lexes_nil rest, fun ts hts => ?_⟩
  rw [List.map_eq_nil_iff.1 hts]
  exact h

/-- Texts one after the other. -/
theorem append {behind : List Char → Prop} (h : Yields text behind P)
    (hbehind : ∀ rest, follow rest → behind (other ++ rest))
    (hother : Yields other follow fun us => ∀ ts, P ts → R (ts ++ us)) :
    Yields (text ++ other) follow R := by
  obtain ⟨words, hlexes, hP⟩ := h
  obtain ⟨more, hlexes', hR⟩ := hother
  refine ⟨words ++ more, fun rest hrest => ?_, fun ts hts => ?_⟩
  · exact (hlexes _ (hbehind rest hrest)).append (hlexes' rest hrest)
  · obtain ⟨us, vs, rfl, hus, hvs⟩ := List.map_eq_append_iff.1 hts
    exact hR vs hvs us (hP us hus)

theorem blank {c : Char} (hc : c = ' ' ∨ c = '\n') (h : Yields text follow R) :
    Yields (c :: text) follow R := by
  obtain ⟨words, hlexes, hR⟩ := h
  exact ⟨words, fun rest hrest => (lexes_blank hc (text ++ rest)).append (hlexes rest hrest), hR⟩

theorem blanks {pad : List Char} (hpad : ∀ c ∈ pad, c = ' ' ∨ c = '\n')
    (h : Yields text follow R) : Yields (pad ++ text) follow R := by
  obtain ⟨words, hlexes, hR⟩ := h
  exact ⟨words, fun rest hrest =>
    (lexes_blanks hpad (text ++ rest)).append (hlexes rest hrest), hR⟩

theorem token (kind : Kind) {lexeme : List Char} (hspells : Spells kind lexeme)
    (hapart : ∀ rest, follow rest → Apart kind (text ++ rest))
    (h : Yields text follow fun ts =>
      ∀ token : Token, token.word = (kind, String.ofList lexeme) → R (token :: ts)) :
    Yields (lexeme ++ text) follow R := by
  have hone : Yields lexeme (Apart kind) fun ts =>
      ∃ token : Token, ts = [token] ∧ token.word = (kind, String.ofList lexeme) := by
    refine ⟨_, fun rest hrest => lexes_word hspells hrest, fun ts hts => ?_⟩
    obtain ⟨token, rest, rfl, hword, hrest⟩ := List.map_eq_cons_iff.1 hts
    rw [List.map_eq_nil_iff.1 hrest]
    exact ⟨token, rfl, hword⟩
  refine hone.append hapart (h.imp ?_)
  rintro ts hR us ⟨token, rfl, hword⟩
  exact hR token hword

theorem keyword (keyword : Keyword)
    (hbreak : ∀ rest, follow rest → ∀ c ∈ (text ++ rest).head?, ¬ isNamePart c)
    (h : Yields text follow fun ts => ∀ token : Token,
      token.kind = .keyword keyword → token.lexeme = keyword.text → R (token :: ts)) :
    Yields (keyword.text.toList ++ text) follow R := by
  refine token (.keyword keyword) rfl hbreak (h.imp fun ts hR token hword => ?_)
  simp only [Token.word, Prod.mk.injEq, String.ofList_toList] at hword
  exact hR token hword.1 hword.2

theorem symbol (symbol : Symbol)
    (hapart : ∀ rest, follow rest → Apart (.symbol symbol) (text ++ rest))
    (h : Yields text follow fun ts => ∀ token : Token,
      token.kind = .symbol symbol → token.lexeme = symbol.text → R (token :: ts)) :
    Yields (symbol.text.toList ++ text) follow R := by
  refine token (.symbol symbol) rfl hapart (h.imp fun ts hR token hword => ?_)
  simp only [Token.word, Prod.mk.injEq, String.ofList_toList] at hword
  exact hR token hword.1 hword.2

end Yields

/-! ## What follows -/

theorem breaks_cons {c : Char} (hpart : isNamePart c = false) (hdot : c ≠ '.')
    (rest : List Char) : Breaks (c :: rest) := by
  rintro d more heq
  cases heq
  exact ⟨by simp [hpart], fun h => absurd h hdot⟩

theorem Breaks.head {rest : List Char} (h : Breaks rest) :
    ∀ c ∈ rest.head?, ¬ isNamePart c := by
  intro c hc
  cases rest with
  | nil => simp at hc
  | cons d rest =>
    cases hc
    exact (h _ _ rfl).1

theorem Breaks.number {rest : List Char} (h : Breaks rest) (value : Number) :
    Apart (.number value) rest := by
  intro c more heq
  obtain ⟨hpart, hdot⟩ := h c more heq
  exact ⟨fun hdigit => hpart (isNamePart_of_isDigit hdigit), hdot⟩

end Moth.Scan
