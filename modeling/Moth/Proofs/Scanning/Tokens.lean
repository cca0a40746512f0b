import Moth.Proofs.Scanning.Lexeme
/-!
# The tokens of a unit

Every token has the text of its kind.  Tokens come in the order of their offsets and carry
the number of their unit, so no two of them stand at the same spot.
-/

namespace Moth

open Scan

theorem spells_of_mem_pieces {text : List Char} {kind : Kind} {piece : List Char}
    (h : (Reading.token kind, piece) ∈ pieces text) : Spells kind piece := by
  fun_induction pieces text with
  | case1 => simp at h
  | case2 c text ih =>
    rcases List.mem_cons.1 h with heq | hrest
    · obtain ⟨hreading, rfl⟩ := Prod.mk.inj heq
      exact spells_of_cut hreading.symm
    · exact ih hrest

theorem spells_of_scan {unit : Nat} {text : List Char} {token : Token}
    (h : token ∈ (scan unit text).tokens) : Spells token.kind token.lexeme.toList := by
  have hword : token.word ∈ (pieces text).filterMap word? := by
    rw [← words_scan unit text]
    exact List.mem_map_of_mem (by simpa using h)
  obtain ⟨⟨reading, piece⟩, hpiece, hsome⟩ := List.mem_filterMap.1 hword
  cases reading with
  | token kind =>
    simp only [word?, Option.some.injEq, Token.word, Prod.mk.injEq] at hsome
    rw [← hsome.1, ← hsome.2, String.toList_ofList]
    exact spells_of_mem_pieces hpiece
  | gap => simp [word?] at hsome
  | fault fault => simp [word?] at hsome

def Token.spot (token : Token) : Nat × Nat := (token.unit, token.offset)

namespace Scan

structure Ordered (scan : Scan) : Prop where
  increasing : scan.tokens.toList.Pairwise fun first second => first.offset < second.offset
  passed : ∀ token ∈ scan.tokens.toList, token.offset < scan.offset
  unit : ∀ token ∈ scan.tokens.toList, token.unit = scan.unit

theorem Ordered.pass {scan : Scan} (h : scan.Ordered) {reading : Reading} {piece : List Char}
    (hpiece : ∀ kind, reading = .token kind → piece ≠ []) : (scan.pass reading piece).Ordered := by
  have hpassed : ∀ token ∈ scan.tokens.toList, token.offset < scan.offset + piece.length :=
    fun token htoken => Nat.lt_add_right _ (h.passed token htoken)
  cases reading with
  | gap => exact ⟨h.increasing, hpassed, h.unit⟩
  | fault fault => exact ⟨h.increasing, hpassed, h.unit⟩
  | token kind =>
    have hlength : 0 < piece.length := List.length_pos_iff.2 (hpiece kind rfl)
    refine ⟨?_, ?_, ?_⟩
    · simp only [Scan.pass, Array.toList_push]
      refine List.pairwise_append.2 ⟨h.increasing, List.pairwise_singleton _ _, ?_⟩
      intro first hfirst second hsecond
      obtain rfl := List.mem_singleton.1 hsecond
      exact h.passed first hfirst
    · simp only [Scan.pass, Array.toList_push, List.forall_mem_append, List.forall_mem_singleton]
      exact ⟨hpassed, Nat.lt_add_of_pos_right hlength⟩
    · simp only [Scan.pass, Array.toList_push, List.forall_mem_append, List.forall_mem_singleton]
      exact ⟨h.unit, trivial⟩

theorem Ordered.passAll {ps : List (Reading × List Char)}
    (hps : ∀ p ∈ ps, ∀ kind, p.1 = .token kind → p.2 ≠ []) {scan : Scan} (h : scan.Ordered) :
    (scan.passAll ps).Ordered := by
  induction ps generalizing scan with
  | nil => exact h
  | cons p ps ih =>
    obtain ⟨hp, hrest⟩ := List.forall_mem_cons.1 hps
    exact ih hrest (h.pass hp)

theorem unit_passAll (ps : List (Reading × List Char)) (scan : Scan) :
    (scan.passAll ps).unit = scan.unit := by
  induction ps generalizing scan with
  | nil => rfl
  | cons p ps ih =>
    refine (ih (scan.pass p.1 p.2)).trans ?_
    unfold Scan.pass
    split <;> rfl

end Scan

theorem ordered_scan (unit : Nat) (text : List Char) : (scan unit text).Ordered := by
  rw [scan, advance_eq_passAll]
  refine Ordered.passAll ?_ ⟨.nil, by simp [Scan.start], by simp [Scan.start]⟩
  rintro ⟨reading, piece⟩ hp kind rfl
  exact (spells_of_mem_pieces hp).ne_nil

theorem unit_of_scan {unit : Nat} {text : List Char} {token : Token}
    (h : token ∈ (scan unit text).tokens.toList) : token.unit = unit := by
  rw [(ordered_scan unit text).unit token h, scan, advance_eq_passAll, unit_passAll]
  rfl

theorem nodup_spots (unit : Nat) (text : List Char) :
    ((scan unit text).tokens.toList.map Token.spot).Nodup := by
  refine List.pairwise_map.2 ((ordered_scan unit text).increasing.imp ?_)
  intro first second hlt heq
  exact Nat.ne_of_lt hlt (Prod.mk.inj heq).2

end Moth
