import Moth.Proofs.Number.Reading
/-!
# Scanning partitions the text

Every character of a text belongs to one piece, and `Reading.Fits` says which pieces a
reading may have.  A token is the longest text at its place that spells anything, and what
lies between tokens is blank, a comment or a fault.  The main result puts this together with
the numbering: `scan_partitions` says of every text where its tokens stand, what lies
between them, and which faults are reported.
-/

namespace Moth

open Scan

def IsBlank (c : Char) : Prop := c = ' ' ∨ c = '\t' ∨ c = '\r' ∨ c = '\n'

/-- Which pieces of a text have a reading, given the text behind them. -/
def Reading.Fits : Reading → List Char → List Char → Prop
  | .token kind, piece, behind => Spells kind piece ∧ ¬ ['/', '/'] <+: piece ++ behind ∧
      ∀ other longer, Spells other longer → longer <+: piece ++ behind →
        longer.length ≤ piece.length
  | .gap, piece, behind => (∃ c, piece = [c] ∧ IsBlank c) ∨
      ∃ body, piece = '/' :: '/' :: body ∧ '\n' ∉ body ∧ ∀ c ∈ behind.head?, c = '\n'
  | .fault .unexpectedCharacter, piece, _ =>
      ∃ c, piece = [c] ∧ ¬ IsBlank c ∧ ∀ kind more, ¬ Spells kind (c :: more)
  | .fault .unterminatedString, piece, behind =>
      ∃ body, piece = '"' :: body ∧ '"' ∉ body ∧ behind = []

namespace Scan

/-! ## A cut loses nothing -/

theorem cutString_whole (text : List Char) :
    (cutString text).piece ++ (cutString text).rest = '"' :: text := by
  have hwhole := List.takeWhile_append_dropWhile (p := (· ≠ '"')) (l := text)
  simp only [cutString]
  split
  · next hclose =>
    rw [hclose, List.append_nil] at hwhole
    rw [List.append_nil, hwhole]
  · next quote rest hclose =>
    rw [hclose] at hwhole
    rw [List.cons_append, List.append_assoc, List.singleton_append, hwhole]

theorem cutNumber_whole (c : Char) (text : List Char) :
    (cutNumber c text).piece ++ (cutNumber c text).rest = c :: text := by
  have hwhole := List.takeWhile_append_dropWhile (p := isDigit) (l := text)
  simp only [cutNumber]
  split
  · next afterPoint hafter =>
    have hfraction := List.takeWhile_append_dropWhile (p := isDigit) (l := afterPoint)
    split
    · rw [List.cons_append, hwhole]
    · rw [hafter] at hwhole
      simp [hfraction, hwhole]
  · rw [List.cons_append, hwhole]

/-- The piece and the text behind it are the text. -/
theorem cut_whole (c : Char) (text : List Char) :
    (cut c text).piece ++ (cut c text).rest = c :: text := by
  unfold cut
  split
  · rfl
  split
  · unfold cutExtensible
    split <;> rfl
  split
  · next hslash =>
    subst hslash
    unfold cutSlash
    split <;> simp
  split
  · next hquote =>
    subst hquote
    exact cutString_whole text
  split
  · rfl
  split
  · exact cutNumber_whole c text
  split
  · simp [cutName]
  · rfl

/-! ## A token is the longest -/

theorem length_le_takeWhile {p : Char → Bool} {text : List Char} (h : ∀ c ∈ text, p c)
    (rest : List Char) : text.length ≤ ((text ++ rest).takeWhile p).length := by
  rw [List.takeWhile_append_of_pos h, List.length_append]
  exact Nat.le_add_right _ _

theorem length_le_cutName {c : Char} {text : List Char} (htext : ∀ d ∈ text, isNamePart d)
    (rest : List Char) : (c :: text).length ≤ (cutName c (text ++ rest)).piece.length := by
  simpa [cutName] using length_le_takeWhile htext rest

theorem length_le_cutNumber {value : Number} {c : Char} {text : List Char}
    (hvalue : Numeral value (c :: text)) (rest : List Char) :
    isDigit c ∧ (c :: text).length ≤ (cutNumber c (text ++ rest)).piece.length := by
  generalize hall : c :: text = all at hvalue
  cases hvalue with
  | whole _ hdigits =>
    subst hall
    refine ⟨hdigits c List.mem_cons_self, ?_⟩
    have htake := length_le_takeWhile (fun d hd => hdigits d (List.mem_cons_of_mem c hd)) rest
    simp only [cutNumber]
    split
    · split
      · simpa using htake
      · simp only [List.length_cons, List.length_append]
        omega
    · simpa using htake
  | @pointed digits fraction hne hdigits hne' hfraction =>
    obtain ⟨more, rfl, rfl⟩ := (List.cons_eq_append_iff.1 hall).resolve_left fun h => hne h.1
    refine ⟨hdigits c List.mem_cons_self, ?_⟩
    have hpoint : ¬ isDigit '.' := by decide
    obtain ⟨htake, hdrop⟩ := takeWhile_stop_cons
      (fun d hd => hdigits d (List.mem_cons_of_mem c hd)) hpoint (fraction ++ rest)
    have hlonger := length_le_takeWhile hfraction rest
    have hsome : ((fraction ++ rest).takeWhile isDigit).isEmpty = false := by
      rw [List.isEmpty_eq_false_iff, ← List.length_pos_iff]
      exact Nat.lt_of_lt_of_le (List.length_pos_iff.2 hne') hlonger
    simp only [cutNumber, List.append_assoc, List.cons_append, htake, hdrop, hsome]
    simp only [Bool.false_eq_true, if_false, List.length_cons, List.length_append]
    omega

/-- No text in front that spells anything is longer than the token cut off there. -/
theorem length_le_cut {kind other : Kind} {c : Char} {text rest : List Char}
    (htoken : (cut c (text ++ rest)).reading = .token kind) (h : Spells other (c :: text)) :
    (c :: text).length ≤ (cut c (text ++ rest)).piece.length := by
  cases other with
  | symbol symbol =>
    by_cases hapart : Apart (.symbol symbol) rest
    · have hcut := congrArg (·.piece.length) (cut_of_spells h hapart)
      exact Nat.le_of_eq hcut.symm
    · -- a slash would begin a comment, and any other such symbol is extended
      have htext : c :: text = symbol.text.toList := h
      cases symbol
      case slash =>
        simp only [Symbol.text, String.reduceToList, List.cons.injEq] at htext
        obtain ⟨rfl, rfl⟩ := htext
        obtain ⟨more, rfl⟩ := List.head?_eq_some_iff.1 (Decidable.not_not.1 hapart)
        cases htoken
      case bang | equal | less | greater =>
        simp only [Symbol.text, String.reduceToList, List.cons.injEq] at htext
        obtain ⟨rfl, rfl⟩ := htext
        obtain ⟨more, rfl⟩ := List.head?_eq_some_iff.1 (Decidable.not_not.1 hapart)
        exact Nat.le_succ 1
      all_goals exact absurd trivial hapart
  | keyword keyword =>
    obtain ⟨-, d, more, htext, hd, hmore⟩ := keyword_name keyword
    have heq : c :: text = d :: more := h.trans htext
    cases heq
    rw [cut_of_isNamePart (isNamePart_of_isNameStart hd), not_isDigit_of_isNameStart hd]
    exact length_le_cutName hmore rest
  | identifier =>
    obtain ⟨⟨d, more, heq, hd, hmore⟩, -⟩ := h
    cases heq
    rw [cut_of_isNamePart (isNamePart_of_isNameStart hd), not_isDigit_of_isNameStart hd]
    exact length_le_cutName hmore rest
  | string value =>
    have hapart : Apart (.string value) rest := trivial
    have hcut := congrArg (·.piece.length) (cut_of_spells h hapart)
    exact Nat.le_of_eq hcut.symm
  | number value =>
    obtain ⟨hdigit, hlength⟩ := length_le_cutNumber h rest
    rw [cut_of_isNamePart (isNamePart_of_isDigit hdigit), if_pos hdigit]
    exact hlength
  | eof => exact absurd h id

theorem longest_cut {kind other : Kind} {c : Char} {text longer : List Char}
    (htoken : (cut c text).reading = .token kind) (h : Spells other longer)
    (hlonger : longer <+: c :: text) : longer.length ≤ (cut c text).piece.length := by
  obtain ⟨rest, hrest⟩ := hlonger
  cases longer with
  | nil => exact absurd rfl h.ne_nil
  | cons d more =>
    rw [List.cons_append, List.cons.injEq] at hrest
    obtain ⟨rfl, rfl⟩ := hrest
    exact length_le_cut htoken h

/-! ## Every piece fits its reading -/

theorem apart_nil (kind : Kind) : Apart kind [] := by
  cases kind with
  | symbol symbol => cases symbol <;> simp [Apart]
  | keyword | identifier | string | number | eof => simp [Apart]

theorem cutString_cases (text : List Char) : (∃ kind, (cutString text).reading = .token kind) ∨
    '"' ∉ text ∧ cutString text = ⟨.fault .unterminatedString, '"' :: text, []⟩ := by
  have hwhole := List.takeWhile_append_dropWhile (p := (· ≠ '"')) (l := text)
  cases hclose : text.dropWhile (· ≠ '"') with
  | cons quote rest =>
    left
    simp only [cutString, hclose]
    exact ⟨_, rfl⟩
  | nil =>
    right
    rw [hclose, List.append_nil] at hwhole
    constructor
    · intro hmem
      rw [← hwhole] at hmem
      exact absurd (forall_mem_takeWhile text _ hmem) (by decide)
    · simp only [cutString, hclose, hwhole]

theorem cut_token_of_isNamePart {c : Char} (h : isNamePart c) (text : List Char) :
    ∃ kind, (cut c text).reading = .token kind := by
  rw [cut_of_isNamePart h]
  split
  · simp only [cutNumber]
    split
    · split <;> exact ⟨_, rfl⟩
    · exact ⟨_, rfl⟩
  · exact ⟨_, rfl⟩

/-- What is cut off, where it is no token: a blank, a comment, a string left open to the end,
or a character that begins nothing. -/
theorem cut_cases (c : Char) (text : List Char) :
    (∃ kind, (cut c text).reading = .token kind) ∨
    (IsBlank c ∧ cut c text = ⟨.gap, [c], text⟩) ∨
    (∃ more, c :: text = '/' :: '/' :: more ∧ cut c text =
      ⟨.gap, '/' :: '/' :: more.takeWhile (· ≠ '\n'), more.dropWhile (· ≠ '\n')⟩) ∨
    ('"' ∉ text ∧ cut c text = ⟨.fault .unterminatedString, '"' :: text, []⟩) ∨
    (¬ IsBlank c ∧ ∀ more, cut c more = ⟨.fault .unexpectedCharacter, [c], more⟩) := by
  by_cases hslash : c = '/'
  · subst hslash
    cases text with
    | nil => exact .inl ⟨_, rfl⟩
    | cons d more =>
      by_cases hd : d = '/'
      · subst hd
        exact .inr (.inr (.inl ⟨more, rfl, rfl⟩))
      · left
        simp [cut, singleSymbol?, extensibleSymbol?, cutSlash, hd]
  by_cases hquote : c = '"'
  · subst hquote
    rcases cutString_cases text with htoken | hopen
    · exact .inl htoken
    · exact .inr (.inr (.inr (.inl hopen)))
  by_cases hblank : IsBlank c
  · right
    left
    refine ⟨hblank, ?_⟩
    rcases hblank with rfl | rfl | rfl | rfl <;> rfl
  by_cases hname : isNamePart c
  · exact .inl (cut_token_of_isNamePart hname text)
  cases hsingle : singleSymbol? c with
  | some symbol =>
    left
    simp [cut, hsingle]
  | none =>
    cases hextensible : extensibleSymbol? c with
    | some symbols =>
      left
      simp only [cut, hsingle, hextensible, cutExtensible]
      split <;> exact ⟨_, rfl⟩
    | none =>
      refine .inr (.inr (.inr (.inr ⟨hblank, ?_⟩)))
      intro more
      have hname' : isDigit c = false ∧ isNameStart c = false := by
        simpa [isNamePart, and_comm] using hname
      simp only [IsBlank, not_or] at hblank
      simp [cut, hsingle, hextensible, hslash, hquote, hblank, hname']

theorem cut_fits (c : Char) (text : List Char) :
    (cut c text).reading.Fits (cut c text).piece (cut c text).rest := by
  rcases cut_cases c text with ⟨kind, htoken⟩ | ⟨hblank, hcut⟩ | ⟨more, htext, hcut⟩ |
    ⟨hopen, hcut⟩ | ⟨hblank, hcut⟩
  · rw [htoken]
    rw [Reading.Fits, cut_whole]
    refine ⟨spells_of_cut htoken, ?_, fun other longer => longest_cut htoken⟩
    rintro ⟨more, hmore⟩
    cases hmore
    cases htoken
  · rw [hcut]
    exact .inl ⟨c, rfl, hblank⟩
  · rw [hcut]
    refine .inr ⟨_, rfl, ?_, ?_⟩
    · intro hmem
      exact absurd (forall_mem_takeWhile more _ hmem) (by decide)
    · intro d hd
      have hhead := List.head?_dropWhile_not (· ≠ '\n') more
      rw [hd] at hhead
      simpa using hhead
  · rw [hcut]
    exact ⟨text, rfl, hopen, rfl⟩
  · rw [hcut]
    refine ⟨c, rfl, hblank, ?_⟩
    intro kind more hspells
    -- a token at the end of a text would be cut off
    have htoken := cut_of_spells hspells (apart_nil kind)
    rw [hcut] at htoken
    cases htoken

end Scan

/-! ## Numbered pieces -/

/-- The line on which the piece of the text ends that ends before the offset. -/
def lineBefore (text : List Char) (offset : Nat) : Nat := 1 + (text.take offset).count '\n'

/-- From an offset on, the text is a row of pieces that fit their readings, and the tokens and
complaints are those of the pieces. -/
inductive Tiles (unit : Nat) (text : List Char) :
    Nat → List Token → List ScanComplaint → Prop where
  | done : Tiles unit text text.length [] []
  | token {start : Nat} {kind : Kind} {piece behind : List Char} {tokens : List Token}
      {complaints : List ScanComplaint} (htext : text.drop start = piece ++ behind)
      (hfits : (Reading.token kind).Fits piece behind)
      (hmore : Tiles unit text (start + piece.length) tokens complaints) :
      Tiles unit text start (⟨kind, String.ofList piece, lineBefore text (start + piece.length),
        start, unit⟩ :: tokens) complaints
  | gap {start : Nat} {piece behind : List Char} {tokens : List Token}
      {complaints : List ScanComplaint} (htext : text.drop start = piece ++ behind)
      (hfits : Reading.gap.Fits piece behind)
      (hmore : Tiles unit text (start + piece.length) tokens complaints) :
      Tiles unit text start tokens complaints
  | fault {start : Nat} {fault : ScanFault} {piece behind : List Char} {tokens : List Token}
      {complaints : List ScanComplaint} (htext : text.drop start = piece ++ behind)
      (hfits : (Reading.fault fault).Fits piece behind)
      (hmore : Tiles unit text (start + piece.length) tokens complaints) :
      Tiles unit text start tokens
        (⟨lineBefore text (start + piece.length), start, fault⟩ :: complaints)

structure Scan.Counted (scan : Scan) (done : List Char) : Prop where
  offset : scan.offset = done.length
  line : scan.line = 1 + done.count '\n'

theorem Scan.Counted.pass {scan : Scan} {done : List Char} (h : scan.Counted done)
    (reading : Reading) (piece : List Char) :
    (scan.pass reading piece).Counted (done ++ piece) := by
  obtain ⟨hoffset, hline⟩ := h
  cases reading <;>
    exact ⟨by simp [Scan.pass, hoffset], by simp [Scan.pass, hline, Nat.add_assoc]⟩

theorem Scan.pass_unit (scan : Scan) (reading : Reading) (piece : List Char) :
    (scan.pass reading piece).unit = scan.unit := by
  cases reading <;> rfl

/-- A scan that has passed `done` adds the tokens and complaints of the pieces behind it. -/
theorem Scan.advance_tiles (scan : Scan) (rest : List Char) : ∀ done, scan.Counted done →
    (scan.advance rest).Counted (done ++ rest) ∧ ∃ tokens complaints,
      (scan.advance rest).tokens.toList = scan.tokens.toList ++ tokens ∧
      (scan.advance rest).complaints.toList = scan.complaints.toList ++ complaints ∧
      Tiles scan.unit (done ++ rest) done.length tokens complaints := by
  fun_induction Scan.advance scan rest with
  | case1 scan =>
    intro done h
    refine ⟨by simpa using h, [], [], by simp, by simp, ?_⟩
    simpa using Tiles.done
  | case2 scan c text next ih =>
    intro done h
    have hwhole : next.piece ++ next.rest = c :: text := cut_whole c text
    have hfits : next.reading.Fits next.piece next.rest := cut_fits c text
    have hdone : done ++ next.piece ++ next.rest = done ++ c :: text := by
      rw [List.append_assoc, hwhole]
    obtain ⟨hcounted, tokens, complaints, htokens, hcomplaints, htiles⟩ :=
      ih _ (h.pass next.reading next.piece)
    rw [hdone] at hcounted htiles
    rw [Scan.pass_unit, List.length_append] at htiles
    have hdrop : (done ++ c :: text).drop done.length = next.piece ++ next.rest := by
      rw [List.drop_left, hwhole]
    have hline : scan.line + next.piece.count '\n' =
        lineBefore (done ++ c :: text) (done.length + next.piece.length) := by
      rw [lineBefore, ← hdone, ← List.length_append, List.take_left, h.line, List.count_append]
      omega
    refine ⟨hcounted, ?_⟩
    cases hreading : next.reading with
    | token kind =>
      rw [hreading] at hfits htokens hcomplaints
      refine ⟨_, complaints, ?_, ?_, .token hdrop hfits htiles⟩
      · rw [htokens]
        simp [Scan.pass, hline, h.offset]
      · rw [hcomplaints]
        rfl
    | gap =>
      rw [hreading] at hfits htokens hcomplaints
      refine ⟨tokens, complaints, ?_, ?_, .gap hdrop hfits htiles⟩
      · rw [htokens]
        rfl
      · rw [hcomplaints]
        rfl
    | fault fault =>
      rw [hreading] at hfits htokens hcomplaints
      refine ⟨tokens, _, ?_, ?_, .fault hdrop hfits htiles⟩
      · rw [htokens]
        rfl
      · rw [hcomplaints]
        simp [Scan.pass, hline, h.offset]

theorem unit_scan (unit : Nat) (text : List Char) : (scan unit text).unit = unit := by
  rw [scan, advance_eq_passAll, unit_passAll]
  rfl

theorem scan_tiles (unit : Nat) (text : List Char) :
    (scan unit text).Counted text ∧ Tiles unit text 0 (scan unit text).tokens.toList
      (scan unit text).complaints.toList := by
  have hstart : (Scan.start unit).Counted [] := ⟨rfl, rfl⟩
  obtain ⟨hcounted, tokens, complaints, htokens, hcomplaints, htiles⟩ :=
    (Scan.start unit).advance_tiles text [] hstart
  have htokens' : (scan unit text).tokens.toList = tokens := htokens
  have hcomplaints' : (scan unit text).complaints.toList = complaints := hcomplaints
  rw [htokens', hcomplaints']
  exact ⟨hcounted, htiles⟩

/-! ## What lies where -/

/-- What holds of a token of a text that stands no earlier than an offset. -/
structure Token.Stands (token : Token) (unit : Nat) (text : List Char) (start : Nat) : Prop where
  start_le : start ≤ token.offset
  unit_eq : token.unit = unit
  line_eq : token.line = lineBefore text (token.offset + token.lexeme.length)
  fits : ∃ behind, text.drop token.offset = token.lexeme.toList ++ behind ∧
    (Reading.token token.kind).Fits token.lexeme.toList behind

theorem Token.Stands.earlier {token : Token} {unit : Nat} {text : List Char} {start start' : Nat}
    (h : token.Stands unit text start) (hle : start' ≤ start) : token.Stands unit text start' :=
  { h with start_le := Nat.le_trans hle h.start_le }

section

variable {unit start : Nat} {text : List Char} {tokens : List Token}
  {complaints : List ScanComplaint}

theorem Tiles.stands (h : Tiles unit text start tokens complaints) :
    ∀ token ∈ tokens, token.Stands unit text start := by
  induction h with
  | done => simp
  | @token start kind piece behind _ _ htext hfits hmore ih =>
    intro token htoken
    rcases List.mem_cons.1 htoken with rfl | htoken
    · refine ⟨Nat.le_refl _, rfl, by simp, behind, ?_, ?_⟩
      · rw [String.toList_ofList, htext]
      · simpa using hfits
    · exact (ih token htoken).earlier (Nat.le_add_right _ _)
  | gap htext hfits hmore ih =>
    exact fun token htoken => (ih token htoken).earlier (Nat.le_add_right _ _)
  | fault htext hfits hmore ih =>
    exact fun token htoken => (ih token htoken).earlier (Nat.le_add_right _ _)

theorem Tiles.spans (h : Tiles unit text start tokens complaints) :
    tokens.Pairwise fun first second => first.offset + first.lexeme.length ≤ second.offset := by
  induction h with
  | done => exact .nil
  | token htext hfits hmore ih =>
    refine List.pairwise_cons.2 ⟨?_, ih⟩
    intro second hsecond
    simpa using (hmore.stands second hsecond).start_le
  | gap htext hfits hmore ih => exact ih
  | fault htext hfits hmore ih => exact ih

theorem Reading.Fits.fault_ne_nil {fault : ScanFault} {piece behind : List Char}
    (h : (Reading.fault fault).Fits piece behind) : piece ≠ [] := by
  cases fault with
  | unexpectedCharacter =>
    obtain ⟨c, rfl, -⟩ := h
    simp
  | unterminatedString =>
    obtain ⟨body, rfl, -⟩ := h
    simp

theorem Tiles.faults (h : Tiles unit text start tokens complaints) :
    (∀ complaint ∈ complaints, start ≤ complaint.offset) ∧
      complaints.Pairwise fun first second => first.offset < second.offset := by
  induction h with
  | done => simp
  | token htext hfits hmore ih | gap htext hfits hmore ih =>
    exact ⟨fun complaint hmem => Nat.le_trans (Nat.le_add_right _ _) (ih.1 complaint hmem), ih.2⟩
  | fault htext hfits hmore ih =>
    have hpiece := List.length_pos_iff.2 hfits.fault_ne_nil
    refine ⟨?_, List.pairwise_cons.2 ⟨?_, ih.2⟩⟩
    · refine List.forall_mem_cons.2 ⟨Nat.le_refl _, ?_⟩
      intro complaint hmem
      exact Nat.le_trans (Nat.le_add_right _ _) (ih.1 complaint hmem)
    · intro complaint hmem
      exact Nat.lt_of_lt_of_le (Nat.lt_add_of_pos_right hpiece) (ih.1 complaint hmem)

end

/-- Between two offsets there is no token: the pieces there are blanks, comments and faults,
and these are the faults. -/
inductive Gap (text : List Char) : Nat → Nat → List (Nat × ScanFault) → Prop where
  | none (start : Nat) : Gap text start start []
  | blank {start finish : Nat} {piece behind : List Char} {faults : List (Nat × ScanFault)}
      (htext : text.drop start = piece ++ behind) (hfits : Reading.gap.Fits piece behind)
      (hmore : Gap text (start + piece.length) finish faults) : Gap text start finish faults
  | fault {start finish : Nat} {fault : ScanFault} {piece behind : List Char}
      {faults : List (Nat × ScanFault)} (htext : text.drop start = piece ++ behind)
      (hfits : (Reading.fault fault).Fits piece behind)
      (hmore : Gap text (start + piece.length) finish faults) :
      Gap text start finish ((start, fault) :: faults)

/-- From an offset to the end, what lies before, between and behind the tokens are gaps, and
these are the faults in them. -/
inductive Covered (text : List Char) : Nat → List Token → List (Nat × ScanFault) → Prop where
  | last {start : Nat} {faults : List (Nat × ScanFault)}
      (hgap : Gap text start text.length faults) : Covered text start [] faults
  | next {start : Nat} {token : Token} {tokens : List Token}
      {faults more : List (Nat × ScanFault)} (hgap : Gap text start token.offset faults)
      (hmore : Covered text (token.offset + token.lexeme.length) tokens more) :
      Covered text start (token :: tokens) (faults ++ more)

theorem Covered.token {text : List Char} {start : Nat} {token : Token} {tokens : List Token}
    {faults : List (Nat × ScanFault)} (hstart : token.offset = start)
    (h : Covered text (start + token.lexeme.length) tokens faults) :
    Covered text start (token :: tokens) faults := by
  subst hstart
  exact Covered.next (.none token.offset) h

theorem Covered.blank {text piece behind : List Char} {start : Nat} {tokens : List Token}
    {faults : List (Nat × ScanFault)} (htext : text.drop start = piece ++ behind)
    (hfits : Reading.gap.Fits piece behind)
    (h : Covered text (start + piece.length) tokens faults) : Covered text start tokens faults := by
  cases h with
  | last hgap => exact .last (.blank htext hfits hgap)
  | next hgap hmore => exact .next (.blank htext hfits hgap) hmore

theorem Covered.fault {text piece behind : List Char} {start : Nat} {fault : ScanFault}
    {tokens : List Token} {faults : List (Nat × ScanFault)}
    (htext : text.drop start = piece ++ behind) (hfits : (Reading.fault fault).Fits piece behind)
    (h : Covered text (start + piece.length) tokens faults) :
    Covered text start tokens ((start, fault) :: faults) := by
  cases h with
  | last hgap => exact .last (.fault htext hfits hgap)
  | next hgap hmore => exact .next (.fault htext hfits hgap) hmore

def ScanComplaint.finding (complaint : ScanComplaint) : Nat × ScanFault :=
  (complaint.offset, complaint.fault)

theorem Tiles.covered {unit start : Nat} {text : List Char} {tokens : List Token}
    {complaints : List ScanComplaint} (h : Tiles unit text start tokens complaints) :
    Covered text start tokens (complaints.map ScanComplaint.finding) := by
  induction h with
  | done => exact .last (.none _)
  | @token start _ piece _ _ _ htext hfits hmore ih =>
    rw [← String.length_ofList] at ih
    exact Covered.token rfl ih
  | gap htext hfits hmore ih => exact ih.blank htext hfits
  | fault htext hfits hmore ih => exact ih.fault htext hfits

/-! ## Reserved words -/

def reservedWords : List String :=
  ["and", "class", "else", "false", "for", "fun", "if", "nil",
    "or", "print", "return", "super", "this", "true", "var", "while"]

theorem mem_reservedWords {word : String} :
    word ∈ reservedWords ↔ ∃ keyword : Keyword, keyword.text = word := by
  have hall : reservedWords = Keyword.all.map Keyword.text := rfl
  rw [hall, List.mem_map]
  constructor
  · rintro ⟨keyword, -, h⟩
    exact ⟨keyword, h⟩
  · rintro ⟨keyword, h⟩
    exact ⟨keyword, keyword.mem_all, h⟩

/-- A text spells one kind at most. -/
theorem Scan.Spells.unique {kind other : Kind} {text : List Char} (h : Spells kind text)
    (h' : Spells other text) : kind = other := by
  cases text with
  | nil => exact absurd rfl h.ne_nil
  | cons c text =>
    have hcut := cut_of_spells h (apart_nil kind)
    rw [cut_of_spells h' (apart_nil other)] at hcut
    cases hcut
    rfl

theorem Scan.Spells.keyword_iff {kind : Kind} {word : String} (h : Spells kind word.toList) :
    word ∈ reservedWords ↔ ∃ keyword, kind = .keyword keyword := by
  rw [mem_reservedWords]
  constructor
  · rintro ⟨keyword, rfl⟩
    exact ⟨keyword, h.unique rfl⟩
  · rintro ⟨keyword, rfl⟩
    exact ⟨keyword, (String.toList_injective h).symm⟩

/-! ## The partition -/

/-- What a scan holds that has read the text of a unit. -/
structure Scan.Partitions (scan : Scan) (unit : Nat) (text : List Char) : Prop where
  increasing : scan.tokens.toList.Pairwise fun first second => first.offset < second.offset
  apart : scan.tokens.toList.Pairwise fun first second =>
    first.offset + first.lexeme.length ≤ second.offset
  lexemes : ∀ token ∈ scan.tokens.toList,
    (text.drop token.offset).take token.lexeme.length = token.lexeme.toList
  spelt : ∀ token ∈ scan.tokens.toList, Spells token.kind token.lexeme.toList
  values : ∀ token ∈ scan.tokens.toList, ∀ x, token.kind = .number x →
    ∃ exact, Decimal.Numeral token.lexeme.toList false exact ∧ x.Rounds false exact
  longest : ∀ token ∈ scan.tokens.toList, ∀ kind piece, Spells kind piece →
    piece <+: text.drop token.offset → piece.length ≤ token.lexeme.length
  comments : ∀ token ∈ scan.tokens.toList, ¬ ['/', '/'] <+: text.drop token.offset
  keywords : ∀ token ∈ scan.tokens.toList,
    token.lexeme ∈ reservedWords ↔ ∃ keyword, token.kind = .keyword keyword
  covered : Covered text 0 scan.tokens.toList (scan.complaints.toList.map ScanComplaint.finding)
  faults : scan.complaints.toList.Pairwise fun first second => first.offset < second.offset
  lines : ∀ token ∈ scan.tokens.toList,
    token.line = 1 + (text.take (token.offset + token.lexeme.length)).count '\n'
  units : ∀ token ∈ scan.tokens.toList, token.unit = unit
  ending : scan.allTokens =
    scan.tokens.toList ++ [⟨.eof, "", 1 + text.count '\n', text.length, unit⟩]
  single : ∀ token ∈ scan.tokens.toList, token.kind ≠ .eof

/-- Scanning partitions every text: its tokens are the longest at their places, those of numbers
round what they write, nothing but blanks, comments and reported faults lies between them, and
lines and offsets count what stands before. -/
theorem scan_partitions (unit : Nat) (text : List Char) :
    (scan unit text).Partitions unit text := by
  obtain ⟨hcounted, htiles⟩ := scan_tiles unit text
  have hspelt : ∀ token ∈ (scan unit text).tokens.toList,
      Spells token.kind token.lexeme.toList := by
    intro token htoken
    obtain ⟨behind, -, hfits⟩ := (htiles.stands token htoken).fits
    exact hfits.1
  refine ⟨(ordered_scan unit text).increasing, htiles.spans, ?_, hspelt, ?_, ?_, ?_, ?_,
    htiles.covered, htiles.faults.2, fun token htoken => (htiles.stands token htoken).line_eq,
    fun token htoken => (htiles.stands token htoken).unit_eq, ?_, ?_⟩
  · intro token htoken
    obtain ⟨behind, hdrop, -⟩ := (htiles.stands token htoken).fits
    rw [hdrop, ← String.length_toList, List.take_left]
  · intro token htoken x hkind
    have hspells := hspelt token htoken
    rw [hkind] at hspells
    exact Decimal.rounds_of_literal hspells
  · intro token htoken kind piece hpiece hlonger
    obtain ⟨behind, hdrop, hfits⟩ := (htiles.stands token htoken).fits
    rw [hdrop] at hlonger
    rw [← String.length_toList]
    exact hfits.2.2 kind piece hpiece hlonger
  · intro token htoken
    obtain ⟨behind, hdrop, hfits⟩ := (htiles.stands token htoken).fits
    rw [hdrop]
    exact hfits.2.1
  · exact fun token htoken => (hspelt token htoken).keyword_iff
  · rw [Scan.allTokens, Scan.stop, hcounted.line, hcounted.offset, unit_scan]
  · intro token htoken hkind
    have hspells := hspelt token htoken
    rw [hkind] at hspells
    exact hspells

end Moth
