import Moth.Proofs.Issue.Pointing
import Moth.Proofs.Number.Source
/-!
# Rows and lines

Rows end with a line feed, with a carriage return, or with both; lines end with a line feed only.
So the row of an offset is ahead of its line by the carriage returns before it that stand alone.
The number in front of an illustration is that of the row.
-/

namespace Moth

namespace Text

/-! ## Carriage returns that stand alone -/

def isLoneReturn (text : List Char) (index : Nat) : Bool :=
  text[index]? = some '\r' && text[index + 1]? ≠ some '\n'

def loneReturns (text : List Char) (offset : Nat) : Nat :=
  (List.range offset).countP (isLoneReturn text)

@[simp] theorem loneReturns_zero (text : List Char) : loneReturns text 0 = 0 := rfl

theorem loneReturns_succ (c : Char) (text : List Char) (offset : Nat) :
    loneReturns (c :: text) (offset + 1) =
      (if isLoneReturn (c :: text) 0 then 1 else 0) + loneReturns text offset := by
  have hshift : (isLoneReturn (c :: text) ∘ Nat.succ) = isLoneReturn text := by
    funext index
    simp [isLoneReturn]
  rw [loneReturns, List.range_succ_eq_map, List.countP_cons, List.countP_map, hshift, Nat.add_comm]
  rfl

@[simp] theorem loneReturns_nil (offset : Nat) : loneReturns [] offset = 0 := by
  simp [loneReturns, isLoneReturn]

/-- A text in which every carriage return has a line feed behind it. -/
theorem loneReturns_eq_zero {text : List Char} (h : ∀ index, isLoneReturn text index = false)
    (offset : Nat) : loneReturns text offset = 0 := by
  simp [loneReturns, h]

/-! ## The row of an offset -/

/-- The breaks up to an offset are the line feeds and the lone carriage returns before it.  An
offset between a carriage return and its line feed is still before their break. -/
theorem length_breaks (offset base : Nat) (text : List Char) :
    ((offsetsAfterBreaks base text).takeWhile (· ≤ base + offset)).length =
      (text.take offset).count '\n' + loneReturns text offset := by
  fun_induction offsetsAfterBreaks base text generalizing offset with
  | case1 => simp
  | case2 base rest ih =>
    cases offset with
    | zero => simp
    | succ offset =>
      cases offset with
      | zero => simp [loneReturns_succ, isLoneReturn]
      | succ offset =>
        have hbase : base + (offset + 2) = base + 2 + offset := by omega
        rw [hbase, List.takeWhile_cons_of_pos (by simp), List.length_cons, ih]
        simp [loneReturns_succ, isLoneReturn]
        omega
  | case3 base c rest hpair hbreak ih =>
    cases offset with
    | zero => simp
    | succ offset =>
      have hbase : base + (offset + 1) = base + 1 + offset := by omega
      have hhead : (if isLoneReturn (c :: rest) 0 then 1 else 0) + [c].count '\n' = 1 := by
        rcases Bool.or_eq_true_iff.1 hbreak with hc | hc <;> obtain rfl := of_decide_eq_true hc
        · -- behind a carriage return by itself there is no line feed
          have hnext : rest[0]? ≠ some '\n' := by
            rintro hnext
            obtain ⟨tail, rfl⟩ := List.head?_eq_some_iff.1 (List.head?_eq_getElem?.trans hnext)
            exact hpair tail rfl rfl
          simp [isLoneReturn, hnext]
        · rfl
      rw [hbase, List.takeWhile_cons_of_pos (by simp), List.length_cons, ih, loneReturns_succ,
        List.take_succ_cons, ← List.singleton_append, List.count_append]
      omega
  | case4 base c rest hpair hbreak ih =>
    cases offset with
    | zero =>
      have hbehind := (List.pairwise_cons.1 (offsetsAfterBreaks_increasing (base + 1) rest)).1
      have hnone : (offsetsAfterBreaks (base + 1) rest).takeWhile (· ≤ base + 0) = [] := by
        cases hstarts : offsetsAfterBreaks (base + 1) rest with
        | nil => rfl
        | cons start starts =>
          have hlt := hbehind start (hstarts ▸ List.mem_cons_self)
          exact List.takeWhile_cons_of_neg (by simpa using Nat.lt_of_succ_lt hlt)
      rw [hnone]
      rfl
    | succ offset =>
      obtain ⟨hreturn, hfeed⟩ : c ≠ '\r' ∧ c ≠ '\n' := by simpa using hbreak
      have hbase : base + (offset + 1) = base + 1 + offset := by omega
      rw [hbase, ih, loneReturns_succ]
      simp [isLoneReturn, hreturn, hfeed]

theorem row_position (text : List Char) (offset : Nat) :
    (position text offset).row = 1 + (text.take offset).count '\n' + loneReturns text offset := by
  have hbreaks := length_breaks offset 0 text
  rw [Nat.zero_add] at hbreaks
  rw [position, rowStarts]
  simp only
  rw [List.takeWhile_cons_of_pos (by simp), List.length_cons, hbreaks]
  omega

end Text

/-! ## The number in front of an illustration -/

/-- The number that a text begins with, behind its first spaces. -/
def shownNumber (shown : List Char) : Nat :=
  Text.digitsValue ((shown.dropWhile (· = ' ')).takeWhile Scan.isDigit)

theorem Text.Drawn.shownNumber {text margin seen lead : List Char} {place : Position}
    (h : Text.Drawn text place margin seen lead) (rest : List Char) :
    Moth.shownNumber (margin ++ rest) = place.row := by
  obtain ⟨spaces, rfl, hspaces⟩ := h.number
  have hblank : ∀ c ∈ spaces, decide (c = ' ') := fun c hc => decide_eq_true (hspaces c hc)
  have hdigits : ∀ c ∈ Nat.toDigits 10 place.row, Scan.isDigit c :=
    fun c hc => isDigit_of_mem_toDigits hc
  have hne : Nat.toDigits 10 place.row ≠ [] := Nat.toDigits_ne_nil
  obtain ⟨first, digits, hcons⟩ := List.exists_cons_of_ne_nil hne
  have hfirst : ∀ c ∈ (Nat.toDigits 10 place.row ++ ' ' :: '|' :: rest).head?,
      ¬ decide (c = ' ') := by
    rw [hcons]
    rintro c ⟨⟩ hspace
    have hdigit := hdigits first (hcons ▸ List.mem_cons_self)
    rw [of_decide_eq_true hspace] at hdigit
    cases hdigit
  have hbehind : ¬ Scan.isDigit ' ' := by decide
  have hdrop := (Scan.takeWhile_stop hblank hfirst).2
  have htake := (Scan.takeWhile_stop_cons hdigits hbehind ('|' :: rest)).1
  have hshape : spaces ++ (Nat.toDigits 10 place.row ++ [' ', '|']) ++ rest =
      spaces ++ (Nat.toDigits 10 place.row ++ ' ' :: '|' :: rest) := by simp
  rw [Moth.shownNumber, hshape, hdrop, htake, Text.digitsValue_toDigits]

/-- The number shown below the headline of an illustrated issue. -/
theorem Issue.Illustrated.shownNumber {issue : Issue} {text : List Char} {offset width : Nat}
    {illustration : String} (h : issue.Illustrated text offset width)
    (htext : issue.text = issue.headline ++ "\n" ++ illustration) :
    Moth.shownNumber illustration.toList =
      1 + (text.take offset).count '\n' + Text.loneReturns text offset := by
  obtain ⟨pointer, -, hmarks, hshown⟩ := h
  have hsame : illustration = pointer.illustrate := by
    rw [hshown] at htext
    exact (String.append_right_inj _).1 htext.symm
  obtain ⟨margin, seen, lead, hdrawn, hillustrate⟩ := hmarks.drawn
  simp only [hsame, hillustrate, List.append_assoc]
  rw [hdrawn.shownNumber, ← Text.row_position, Pointer.position, hmarks.text_eq, hmarks.offset_eq]

end Moth
