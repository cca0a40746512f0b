import Moth.Proofs.Parsing.Relabelling
import Moth.Proofs.Rendering.Bare
import Moth.Proofs.Scanning.Partition
/-!
# Spacing

What stands between the tokens of a text does not matter, as long as it begins with a blank
and holds nothing but blanks and whole comments.  Written with such separators, the tokens of a
text are scanned as the same words, and parsed as the same program but for the places of
tokens.
-/

namespace Moth

open Scan

/-- Blanks, and comments with the line break that ends them. -/
inductive Filler : List Char → Prop where
  | nil : Filler []
  | blank {c : Char} {more : List Char} (hblank : IsBlank c) (hmore : Filler more) :
      Filler (c :: more)
  | comment {body more : List Char} (hbody : '\n' ∉ body) (hmore : Filler more) :
      Filler ('/' :: '/' :: (body ++ '\n' :: more))

def Separator (text : List Char) : Prop :=
  Filler text ∧ ∃ c more, text = c :: more ∧ IsBlank c

/-- The lexemes in order, with the separators from the `i`th on between them. -/
def spreadOut (separator : Nat → List Char) : Nat → List Token → List Char
  | _, [] => []
  | _, [token] => token.lexeme.toList
  | i, token :: next :: more =>
    token.lexeme.toList ++ (separator i ++ spreadOut separator (i + 1) (next :: more))

/-! ## Scanning -/

theorem Scan.lexes_filler {text : List Char} (h : Filler text) (rest : List Char) :
    Lexes text [] rest := by
  induction h with
  | nil => exact lexes_nil rest
  | @blank c more hblank hmore ih =>
    have hfirst : Lexes [c] [] (more ++ rest) := by
      refine ⟨[(.gap, [c])], ?_, by simp [Clean], rfl⟩
      rw [List.cons_append, pieces_cons]
      rcases hblank with rfl | rfl | rfl | rfl <;> rfl
    exact hfirst.append ih
  | @comment body more hbody hmore ih =>
    have hfirst : Lexes ('/' :: '/' :: body) [] ('\n' :: (more ++ rest)) := by
      have hstays : ∀ c ∈ body, decide (c ≠ '\n') := by
        intro c hc
        rw [decide_eq_true_iff]
        rintro rfl
        exact hbody hc
      have hstop : ¬ decide ('\n' ≠ '\n') := by decide
      obtain ⟨htake, hdrop⟩ := takeWhile_stop_cons hstays hstop (more ++ rest)
      have hcut : cut '/' ('/' :: (body ++ '\n' :: (more ++ rest))) =
          ⟨.gap, '/' :: '/' :: body, '\n' :: (more ++ rest)⟩ := by
        change cutSlash ('/' :: (body ++ '\n' :: (more ++ rest))) = _
        rw [cutSlash, htake, hdrop]
      refine ⟨[(.gap, '/' :: '/' :: body)], ?_, by simp [Clean], rfl⟩
      rw [List.cons_append, List.cons_append, pieces_cons, hcut]
      rfl
    exact hfirst.append ((lexes_blank (.inr rfl) (more ++ rest)).append ih)

/-- A blank makes no token longer. -/
theorem Scan.apart_blank (kind : Kind) {c : Char} (h : IsBlank c) (more : List Char) :
    Apart kind (c :: more) := by
  have hname : isNamePart c = false := by
    rcases h with rfl | rfl | rfl | rfl <;> rfl
  have hdigit : isDigit c = false := by
    rcases h with rfl | rfl | rfl | rfl <;> rfl
  have hother : c ≠ '/' ∧ c ≠ '=' ∧ c ≠ '.' := by
    rcases h with rfl | rfl | rfl | rfl <;> decide
  cases kind with
  | symbol symbol => cases symbol <;> simp [Apart, hother]
  | keyword | identifier => simp [Apart, hname]
  | number value =>
    intro d rest heq
    cases heq
    exact ⟨by simp [hdigit], fun hpoint => absurd hpoint hother.2.2⟩
  | string | eof => trivial

theorem Scan.lexes_spreadOut {separator : Nat → List Char}
    (hseparator : ∀ i, Separator (separator i))
    {tokens : List Token} (htokens : ∀ token ∈ tokens, Spells token.kind token.lexeme.toList)
    (i : Nat) : Lexes (spreadOut separator i tokens) (tokens.map Token.word) [] := by
  fun_induction spreadOut separator i tokens with
  | case1 i => exact lexes_nil []
  | case2 i token =>
    have hspells := htokens token List.mem_cons_self
    have hword := lexes_word hspells (apart_nil token.kind)
    rwa [String.ofList_toList] at hword
  | case3 i token next more ih =>
    obtain ⟨hspells, hmore⟩ := List.forall_mem_cons.1 htokens
    obtain ⟨hfiller, c, rest, hblank, hc⟩ := hseparator i
    have hword : Lexes token.lexeme.toList [token.word]
        (separator i ++ spreadOut separator (i + 1) (next :: more) ++ []) := by
      rw [hblank, List.append_assoc, List.cons_append]
      have hfirst := lexes_word hspells (apart_blank token.kind hc
        (rest ++ (spreadOut separator (i + 1) (next :: more) ++ [])))
      rwa [String.ofList_toList] at hfirst
    exact hword.append ((lexes_filler hfiller _).append (ih hmore))

/-! ## Parsing -/

def placeless : Relabelling := ⟨Token.bare, fun _ => rfl⟩

theorem map_bare_of_words {tokens others : List Token}
    (h : others.map Token.word = tokens.map Token.word) :
    others.map Token.bare = tokens.map Token.bare := by
  have hbare : Token.bare = (fun word : Word => ⟨word.1, word.2, 0, 0, 0⟩) ∘ Token.word := rfl
  rw [hbare, ← List.map_map, h, List.map_map]

/-- Tokens of the same words are parsed alike, wherever they stand. -/
theorem parseProgram_of_words {tokens others : List Token} {stop stop' : Token}
    (h : others.map Token.word = tokens.map Token.word) (hstop : stop'.word = stop.word)
    (levels : Nat) : (parseProgram others stop' levels).relabel placeless =
      (parseProgram tokens stop levels).relabel placeless := by
  have htokens : others.map placeless.label = tokens.map placeless.label := map_bare_of_words h
  have hstops : placeless.label stop' = placeless.label stop :=
    Token.bare_eq_iff.2 (Prod.mk.inj hstop)
  rw [← parseProgram_relabel, ← parseProgram_relabel, htokens, hstops]

def ParseComplaint.words (complaint : ParseComplaint) : String × Word :=
  (complaint.fault.message, complaint.token.word)

theorem map_words_relabel (parsed : Parsed (List Stmt)) :
    (parsed.relabel placeless).complaints.toList.map ParseComplaint.words =
      parsed.complaints.toList.map ParseComplaint.words := by
  rw [Parsed.relabel, Array.toList_map, List.map_map]
  rfl

/-- Spacing does not matter: the tokens of a text, written with any separators between them, are
scanned without a fault as the same words.  They are parsed as the same program, up to the
places of tokens, with the same complaints in the same order. -/
theorem spacing_immaterial (unit unit' levels : Nat) (text : List Char)
    (separator : Nat → List Char) (hseparator : ∀ i, Separator (separator i)) :
    let first := scan unit text
    let second := scan unit' (spreadOut separator 0 first.tokens.toList)
    second.complaints = #[] ∧
    second.tokens.toList.map Token.word = first.tokens.toList.map Token.word ∧
    relabelAll placeless (parseProgram second.tokens.toList second.stop levels).tree =
      relabelAll placeless (parseProgram first.tokens.toList first.stop levels).tree ∧
    (parseProgram second.tokens.toList second.stop levels).complaints.toList.map
        ParseComplaint.words =
      (parseProgram first.tokens.toList first.stop levels).complaints.toList.map
        ParseComplaint.words := by
  intro first second
  have hspells : ∀ token ∈ first.tokens.toList, Spells token.kind token.lexeme.toList :=
    fun token htoken => spells_of_scan (Array.mem_toList_iff.1 htoken)
  obtain ⟨hsecond, hwords⟩ := (lexes_spreadOut hseparator hspells 0).quiet unit'
  have hstop : second.stop.word = first.stop.word := rfl
  have hparsed := parseProgram_of_words hwords hstop levels
  refine ⟨hsecond, hwords, congrArg Parsed.tree hparsed, ?_⟩
  rw [← map_words_relabel, hparsed, map_words_relabel]

/-- A text without a blank, whose second statement is faulty. -/
def crampedText : List Char := "print\"a//b\"+1.5.c;var!x".toList

def roomyGap (i : Nat) : List Char :=
  if i % 2 = 0 then [' ', '\r', '\n'] else "\t// var ;\n//\n".toList

theorem separator_roomyGap (i : Nat) : Separator (roomyGap i) := by
  unfold roomyGap
  split
  · exact ⟨.blank (.inl rfl) (.blank (by simp [IsBlank]) (.blank (by simp [IsBlank]) .nil)),
      _, _, rfl, .inl rfl⟩
  · have hcomment : Filler ('/' :: '/' :: (" var ;".toList ++ '\n' ::
        '/' :: '/' :: ([] ++ '\n' :: []))) :=
      .comment (by decide) (.comment (by decide) .nil)
    exact ⟨.blank (.inr (.inl rfl)) hcomment, _, _, rfl, .inr (.inl rfl)⟩

theorem crampedText_respaced :
    (∀ i, Separator (roomyGap i)) ∧
    spreadOut roomyGap 0 (scan 0 crampedText).tokens.toList ≠ crampedText ∧
    (let second := scan 1 (spreadOut roomyGap 0 (scan 0 crampedText).tokens.toList)
    (parseProgram second.tokens.toList second.stop).complaints.toList.map ParseComplaint.words =
      [("Expect variable name.", (.symbol .bang, "!"))]) := by
  obtain ⟨-, -, -, hcomplaints⟩ := spacing_immaterial 0 1 nestingLimit crampedText roomyGap
    separator_roomyGap
  refine ⟨separator_roomyGap, by decide +kernel, ?_⟩
  exact hcomplaints.trans (by decide +kernel)

end Moth
