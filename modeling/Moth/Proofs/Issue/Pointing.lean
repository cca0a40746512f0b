import Mathlib.Data.List.Forall2
import Moth.Issue.Report
/-!
# What pointers point at

The rows of a text, one behind the other, are the text.  The row and the column of an offset in
the text are those of the character at the offset.  An illustration is the row with its number in
front and carets below, which begin under that character and stay within the row.  A report points
at the offset it is asked for unless there are but line breaks from there on.
-/

namespace Moth

namespace Text

/-! ## Rows -/

theorem offsetsAfterBreaks_le (offset : Nat) (text : List Char) :
    ∀ start ∈ offsetsAfterBreaks offset text, start ≤ offset + text.length := by
  fun_induction offsetsAfterBreaks offset text with
  | case1 => simp
  | case2 offset rest ih | case3 offset c rest _ _ ih =>
    simp only [List.mem_cons, forall_eq_or_imp, List.length_cons]
    refine ⟨by omega, fun start hstart => ?_⟩
    have := ih start hstart
    omega
  | case4 offset c rest _ _ ih =>
    intro start hstart
    have := ih start hstart
    rw [List.length_cons]
    omega

/-- What is before the first of some increasing offsets is before all of them. -/
theorem lt_of_increasing {offset next : Nat} {starts : List Nat}
    (h : (next :: starts).Pairwise (· < ·)) (hlt : offset < next) :
    ∀ start ∈ next :: starts, offset < start := by
  rw [List.pairwise_cons] at h
  refine List.forall_mem_cons.2 ⟨hlt, fun start hstart => ?_⟩
  exact Nat.lt_trans hlt (h.1 start hstart)

theorem offsetsAfterBreaks_increasing (offset : Nat) (text : List Char) :
    (offset :: offsetsAfterBreaks offset text).Pairwise (· < ·) := by
  fun_induction offsetsAfterBreaks offset text with
  | case1 => simp
  | case2 offset rest ih => exact .cons (lt_of_increasing ih (by omega)) ih
  | case3 offset c rest _ _ ih => exact .cons (lt_of_increasing ih (by omega)) ih
  | case4 offset c rest _ _ ih =>
    have hlt := lt_of_increasing ih (Nat.lt_succ_self offset)
    exact .cons (List.forall_mem_cons.1 hlt).2 (List.pairwise_cons.1 ih).2

/-- Where the row begins that has `number` rows before it; behind the last row, where the text
ends. -/
def rowStart (text : List Char) (number : Nat) : Nat := (rowStarts text).getD number text.length

theorem rowStart_zero (text : List Char) : rowStart text 0 = 0 := rfl

theorem rowStart_of_lt {text : List Char} {number : Nat} (h : number < (rowStarts text).length) :
    rowStart text number = (rowStarts text)[number] := by
  rw [rowStart, List.getD_eq_getElem?_getD, List.getElem?_eq_getElem h, Option.getD_some]

theorem rowStart_of_ge {text : List Char} {number : Nat} (h : (rowStarts text).length ≤ number) :
    rowStart text number = text.length := by
  rw [rowStart, List.getD_eq_getElem?_getD, List.getElem?_eq_none h, Option.getD_none]

theorem rowStart_le_length (text : List Char) (number : Nat) :
    rowStart text number ≤ text.length := by
  by_cases h : number < (rowStarts text).length
  · rw [rowStart_of_lt h]
    have hmem : (rowStarts text)[number] ∈ rowStarts text := List.getElem_mem h
    rcases List.mem_cons.1 hmem with hzero | hlater
    · omega
    · have := offsetsAfterBreaks_le 0 text _ hlater
      omega
  · exact Nat.le_of_eq (rowStart_of_ge (by omega))

theorem rowStart_le_succ (text : List Char) (number : Nat) :
    rowStart text number ≤ rowStart text (number + 1) := by
  by_cases h : number + 1 < (rowStarts text).length
  · have hlt : number < (rowStarts text).length := by omega
    have hincreasing := List.pairwise_iff_getElem.1 (offsetsAfterBreaks_increasing 0 text)
      number (number + 1) hlt h (Nat.lt_succ_self number)
    rw [rowStart_of_lt h, rowStart_of_lt hlt]
    exact Nat.le_of_lt hincreasing
  · rw [rowStart_of_ge (show _ ≤ number + 1 by omega)]
    exact rowStart_le_length text number

theorem row_succ (text : List Char) (number : Nat) :
    row text (number + 1) = (text.drop (rowStart text number)).take
      (rowStart text (number + 1) - rowStart text number) := rfl

theorem length_row_succ (text : List Char) (number : Nat) :
    (row text (number + 1)).length = rowStart text (number + 1) - rowStart text number := by
  have hnext := rowStart_le_length text (number + 1)
  rw [row_succ, List.length_take, List.length_drop]
  omega

/-- Row after row, the text up to the beginning of a row. -/
theorem take_rowStart (text : List Char) (number : Nat) :
    text.take (rowStart text number) =
      (List.range number).flatMap fun index => row text (index + 1) := by
  induction number with
  | zero => simp [rowStart_zero]
  | succ number ih =>
    have hle := rowStart_le_succ text number
    calc text.take (rowStart text (number + 1))
      _ = text.take (rowStart text number +
            (rowStart text (number + 1) - rowStart text number)) := by
        rw [Nat.add_sub_of_le hle]
      _ = text.take (rowStart text number) ++ row text (number + 1) := by
        rw [List.take_add, row_succ]
      _ = (List.range (number + 1)).flatMap fun index => row text (index + 1) := by
        rw [ih, List.range_succ, List.flatMap_append, List.flatMap_singleton]

/-! ## Positions -/

/-- The row that is found for an offset begins no later than at the offset, and the next row
begins behind it. -/
theorem position_spec {text : List Char} {offset : Nat} (h : offset < text.length) :
    ∃ number, (position text offset).row = number + 1 ∧
      rowStart text number + (position text offset).column = offset ∧
      offset < rowStart text (number + 1) := by
  have hsplit := List.takeWhile_append_dropWhile (p := (· ≤ offset)) (l := rowStarts text)
  have hbehind := List.head?_dropWhile_not (· ≤ offset) (rowStarts text)
  have hkept : ∀ start ∈ (rowStarts text).takeWhile (· ≤ offset), start ≤ offset := by
    intro start hstart
    exact of_decide_eq_true (List.all_eq_true.1 List.all_takeWhile start hstart)
  have hsome : (rowStarts text).takeWhile (· ≤ offset) ≠ [] := by simp [rowStarts]
  simp only [position]
  generalize (rowStarts text).takeWhile (· ≤ offset) = kept at hsplit hkept hsome ⊢
  generalize (rowStarts text).dropWhile (· ≤ offset) = behind at hsplit hbehind
  obtain ⟨init, last, hconcat⟩ := (List.eq_nil_or_concat kept).resolve_left hsome
  obtain rfl : kept = init ++ [last] := hconcat.trans List.concat_eq_append
  have hlast : last ≤ offset := hkept last (by simp)
  refine ⟨init.length, by simp, ?_, ?_⟩
  · have hstart : rowStart text init.length = last := by
      rw [rowStart, ← hsplit]
      simp
    rw [hstart, List.getLastD_concat]
    omega
  · rw [rowStart, ← hsplit]
    cases behind with
    | nil => simpa using h
    | cons next behind => simpa using hbehind

end Text

/-! ## Illustrations -/

/-- What stands below a character on the line of the carets, so that they are in their columns. -/
def Text.Under (above below : Char) : Prop := below = if above = '\t' then '\t' else ' '

/-- The parts of an illustration of a place: the margin with the number of the row, what is to be
seen of the row, and what leads up to the carets on the line below. -/
structure Text.Drawn (text : List Char) (place : Position) (margin seen lead : List Char) :
    Prop where
  number : ∃ spaces, margin = spaces ++ (Nat.toDigits 10 place.row ++ [' ', '|']) ∧
    ∀ c ∈ spaces, c = ' '
  aligned : margin.length = max 8 ((Nat.toDigits 10 place.row).length + 3)
  row : ∃ behind, Text.row text place.row = seen ++ behind ∧ ∀ c ∈ behind, Text.isBlank c
  last : ∀ c ∈ seen.getLast?, ¬ Text.isBlank c
  lead : List.Forall₂ Text.Under (margin ++ (Text.row text place.row).take place.column) lead

namespace Pointer

theorem drawn (pointer : Pointer) :
    let row := Text.row pointer.text pointer.position.row
    Text.Drawn pointer.text pointer.position (margin pointer.position.row)
      (Text.dropEndWhile Text.isBlank row)
      (blanks (margin pointer.position.row ++ row.take pointer.position.column)) := by
  intro row
  obtain ⟨behind, hrow, hblank, hlast⟩ := Text.eq_dropEndWhile_append Text.isBlank row
  refine ⟨?_, ?_, ⟨behind, hrow, hblank⟩, hlast, ?_⟩
  · refine ⟨List.replicate (6 - (' ' :: Nat.toDigits 10 pointer.position.row).length) ' ' ++ [' '],
      ?_, ?_⟩
    · simp [margin, Text.padLeft]
    · intro c hc
      rcases List.mem_append.1 hc with hc | hc
      · exact List.eq_of_mem_replicate hc
      · exact List.mem_singleton.1 hc
  · simp only [margin, Text.padLeft, List.length_append, List.length_replicate, List.length_cons,
      List.length_nil]
    omega
  · exact List.forall₂_map_right_iff.2 (List.forall₂_same.2 fun _ _ => rfl)

/-- A pointer into a text at an offset.  The rows before its row and the columns before its column
make up the text before the offset.  It is drawn as the row in its margin and, on a line below,
blanks up to the column and then the carets: as many as it is wide, but none beyond the row. -/
structure Marks (pointer : Pointer) (text : List Char) (offset width : Nat) : Prop where
  text_eq : pointer.text = text
  offset_eq : pointer.offset = offset
  inside : offset < text.length
  before : text.take offset =
    ((List.range (pointer.position.row - 1)).flatMap fun index => Text.row text (index + 1)) ++
      (Text.row text pointer.position.row).take pointer.position.column
  character : (Text.row text pointer.position.row)[pointer.position.column]? = text[offset]?
  caret : 1 ≤ pointer.caretCount
  within : pointer.position.column + pointer.caretCount ≤
    (Text.row text pointer.position.row).length
  carets : pointer.caretCount =
    min width ((Text.row text pointer.position.row).length - pointer.position.column)
  drawn : ∃ margin seen lead, Text.Drawn text pointer.position margin seen lead ∧
    pointer.illustrate.toList =
      margin ++ seen ++ '\n' :: lead ++ List.replicate pointer.caretCount '^' ++ [' ']

theorem marks {pointer : Pointer} (h : pointer.offset < pointer.text.length)
    (hwidth : 1 ≤ pointer.width) (hcaption : pointer.caption = "") :
    pointer.Marks pointer.text pointer.offset pointer.width := by
  obtain ⟨number, hrow, hcolumn, hnext⟩ := Text.position_spec h
  have hlength := Text.length_row_succ pointer.text number
  have hrow' : pointer.position.row = number + 1 := hrow
  have hcolumn' : Text.rowStart pointer.text number + pointer.position.column =
      pointer.offset := hcolumn
  have hshort : pointer.position.column <
      Text.rowStart pointer.text (number + 1) - Text.rowStart pointer.text number := by omega
  refine ⟨rfl, rfl, h, ?_, ?_, ?_, ?_, ?_, _, _, _, pointer.drawn, ?_⟩
  · rw [hrow', Nat.add_sub_cancel, ← Text.take_rowStart, Text.row_succ, List.take_take,
      Nat.min_eq_left (Nat.le_of_lt hshort), ← List.take_add, hcolumn']
  · rw [hrow', Text.row_succ, List.getElem?_take_of_lt hshort, List.getElem?_drop, hcolumn']
  · exact Nat.le_max_left _ _
  · simp only [caretCount]
    rw [hrow', hlength]
    omega
  · simp only [caretCount]
    rw [hrow', hlength]
    omega
  · simp [illustrate, hcaption]

end Pointer

example : (Pointer.mk "a\n\tb = c;\n".toList 7 9 "").illustrate =
    "     2 |\tb = c;\n        \t    ^^^ " := by decide +kernel

/-! ## Reports -/

namespace Text

def isLineBreak (c : Char) : Bool := c = '\r' || c = '\n'

theorem isLineBreak_iff {c : Char} : isLineBreak c = true ↔ c = '\r' ∨ c = '\n' := by
  simp [isLineBreak]

def visible (text : List Char) : List Char := dropEndWhile isLineBreak text

theorem length_visible_le (text : List Char) : (visible text).length ≤ text.length := by
  obtain ⟨dropped, htext, -⟩ := eq_dropEndWhile_append isLineBreak text
  have hlength : text.length = (visible text ++ dropped).length := congrArg List.length htext
  rw [List.length_append] at hlength
  exact Nat.le.intro hlength.symm

/-- A character that breaks no line is not dropped. -/
theorem lt_length_visible {text : List Char} {offset : Nat} {c : Char}
    (h : text[offset]? = some c) (hc : isLineBreak c = false) :
    offset < (visible text).length := by
  obtain ⟨dropped, htext, hdropped, -⟩ := eq_dropEndWhile_append isLineBreak text
  rw [← visible] at htext
  by_cases hlt : offset < (visible text).length
  · exact hlt
  · rw [htext, List.getElem?_append_right (Nat.le_of_not_lt hlt)] at h
    rw [hdropped c (List.mem_of_getElem? h)] at hc
    cases hc

end Text

/-- The issue is shown by its headline alone. -/
def Issue.Bare (issue : Issue) : Prop := issue.pointer = none ∧ issue.text = issue.headline

/-- Below the headline of the issue there is an illustration of the text at an offset. -/
def Issue.Illustrated (issue : Issue) (text : List Char) (offset width : Nat) : Prop :=
  ∃ pointer, issue.pointer = some pointer ∧ pointer.Marks text offset width ∧
    issue.text = issue.headline ++ "\n" ++ pointer.illustrate

/-- An issue at the end of a text is shown at the last character that is no line break. -/
def Issue.ShownAtEnd (issue : Issue) (text : List Char) : Prop :=
  if Text.visible text = [] then issue.Bare
  else issue.Illustrated text ((Text.visible text).length - 1) 1

section

variable {issue : Issue} {report : Report} {text : List Char} {offset width : Nat}

theorem Issue.bare_of_pointer (h : issue.pointer = none) : issue.Bare :=
  ⟨h, by rw [Issue.text, h]⟩

theorem Issue.illustrated_of_pointer (h : issue.pointer = some ⟨text, offset, width, ""⟩)
    (hinside : offset < text.length) (hwidth : 1 ≤ width) : issue.Illustrated text offset width :=
  ⟨_, h, Pointer.marks hinside hwidth rfl, by rw [Issue.text, h]⟩

/-- A report points at a character that breaks no line. -/
theorem Issue.illustrated_of_pointAt (hsource : report.source = some text)
    (hpointer : issue.pointer = report.pointAt offset width) {c : Char}
    (hchar : text[offset]? = some c) (hc : Text.isLineBreak c = false) (hwidth : 1 ≤ width) :
    issue.Illustrated text offset width := by
  have hlt := Text.lt_length_visible hchar hc
  have hinside := Nat.lt_of_lt_of_le hlt (Text.length_visible_le text)
  have hpointAt : report.pointAt offset width = some ⟨text, offset, width, ""⟩ := by
    have hvisible : (Text.dropEndWhile (fun c => c = '\r' || c = '\n') text).length =
        (Text.visible text).length := rfl
    simp only [Report.pointAt, hsource, hvisible]
    rw [if_neg (by omega), if_neg (by omega), Nat.max_eq_left hwidth]
  exact Issue.illustrated_of_pointer (hpointer.trans hpointAt) hinside hwidth

/-- Behind the end of a text a report points at its last visible character. -/
theorem Issue.shownAtEnd_of_pointAt (hsource : report.source = some text)
    (hpointer : issue.pointer = report.pointAt offset width) (hoffset : text.length ≤ offset) :
    issue.ShownAtEnd text := by
  have hvisible : (Text.dropEndWhile (fun c => c = '\r' || c = '\n') text).length =
      (Text.visible text).length := rfl
  have hle := Text.length_visible_le text
  simp only [Report.pointAt, hsource, hvisible] at hpointer
  unfold Issue.ShownAtEnd
  split
  · next hnone =>
    rw [hnone, List.length_nil, if_pos rfl] at hpointer
    exact Issue.bare_of_pointer hpointer
  · next hsome =>
    have hpos := List.length_pos_iff.2 hsome
    rw [if_neg (by omega), if_pos (by omega)] at hpointer
    exact Issue.illustrated_of_pointer hpointer (by omega) (Nat.le_refl 1)

end

end Moth
