import Moth.Proofs.Parsing.Exactness
import Moth.Proofs.Rendering.Statement
import Moth.Proofs.Scanning.Tokens
/-!
# Reading rendered text back

A program that was scanned and parsed without a complaint is rendered as a text that is
scanned and parsed without one, to the same program when groupings and places are left out.
Rendering the second program gives the same text again.
-/

namespace Moth.Syntax

open Scan

def programOf (levels unit : Nat) (text : String) : Parsed (List Stmt) :=
  parseProgram (scan unit text.toList).tokens.toList (scan unit text.toList).stop levels

def expressionOf (levels unit : Nat) (text : String) : Parsed (Option Expr) :=
  parseExpression (scan unit text.toList).tokens.toList (scan unit text.toList).stop levels

def finiteLiterals (scanned : Scan) : Bool :=
  scanned.tokens.all fun token =>
    match token.kind with
    | .number value => value.isFinite
    | _ => true

/-! ## Scanned tokens -/

theorem proper_of_scan {unit : Nat} {text : List Char} (h : finiteLiterals (scan unit text)) :
    ∀ token ∈ (scan unit text).tokens.toList, Proper token := by
  intro token htoken
  have hmem : token ∈ (scan unit text).tokens := by simpa using htoken
  refine ⟨spells_of_scan hmem, fun value hvalue => ?_⟩
  have hfinite := Array.all_eq_true_iff_forall_mem.1 h token hmem
  rwa [hvalue] at hfinite

/-! ## Programs and expressions -/

theorem rendered_program {tokens : List Token} {program : List Stmt}
    (h : Derives .declarations tokens program) (hproper : ∀ token ∈ tokens, Proper token) :
    RenderedAs .declarations (renderProgram program) program := by
  have hlines := h.rendered hproper 0 0
  have htext : (renderProgram program).toList = (lines 0 (renderAll 0 program)).toList ++
      ('\n' :: []) := by
    simp [renderProgram, lines]
  rw [RenderedAs, htext]
  refine Yields.append hlines (fun _ _ => trivial) (.blank (.inr rfl) (.done ?_))
  intro ts hts
  rwa [List.append_nil]

theorem Yields.scanned {text : String} {follow : List Char → Prop} {R : List Token → Prop}
    (h : Yields text.toList follow R) (hend : follow []) (unit : Nat) :
    (scan unit text.toList).complaints = #[] ∧ R (scan unit text.toList).tokens.toList := by
  obtain ⟨words, hlexes, hR⟩ := h
  obtain ⟨hquiet, hwords⟩ := (hlexes [] hend).quiet unit
  exact ⟨hquiet, hR _ hwords⟩

/-- The text of a program that was read is read as the same program. -/
theorem programOf_renderProgram {levels unit : Nat} {text : String}
    (hfinite : finiteLiterals (scan unit text.toList))
    (hparse : (programOf levels unit text).complaints = #[]) (copyUnit : Nat) :
    let rendered := renderProgram (programOf levels unit text).tree
    (scan copyUnit rendered.toList).complaints = #[] ∧
      ∃ copy, Derives .declarations (scan copyUnit rendered.toList).tokens.toList copy ∧
        bareAll copy = bareAll (programOf levels unit text).tree :=
  Yields.scanned (rendered_program (derives_of_parseProgram hparse) (proper_of_scan hfinite))
    trivial copyUnit

theorem expressionOf_render {levels unit : Nat} {text : String} {expr : Expr}
    (hfinite : finiteLiterals (scan unit text.toList))
    (hparse : expressionOf levels unit text = ⟨some expr, #[]⟩) (copyUnit : Nat) :
    (scan copyUnit expr.render.toList).complaints = #[] ∧
      ∃ copy, Derives (.phrase .assignment) (scan copyUnit expr.render.toList).tokens.toList copy ∧
        copy.bare = expr.bare := by
  have hrendered : Rendered expr :=
    (derives_of_parseExpression hparse).rendered (proper_of_scan hfinite)
  obtain ⟨hquiet, copy, hcopy, hbare⟩ :=
    Yields.scanned hrendered.1 (fun c more h => by cases h) copyUnit
  exact ⟨hquiet, copy, hcopy.loosen (Nat.zero_le _), hbare⟩

theorem renderProgram_congr {program copy : List Stmt} (h : bareAll copy = bareAll program) :
    renderProgram copy = renderProgram program := by
  rw [renderProgram, renderProgram, ← renderAll_bareAll 0 copy, h, renderAll_bareAll]

theorem render_congr {expr copy : Expr} (h : copy.bare = expr.bare) :
    copy.render = expr.render := by
  rw [← copy.render_bare, h, expr.render_bare]

/-- Rendering and reading are inverse to each other, on programs and on expressions. -/
theorem render_roundTrip (levels unit copyUnit : Nat) (text : String)
    (hfinite : finiteLiterals (scan unit text.toList)) :
    ((programOf levels unit text).complaints = #[] →
      let rendered := renderProgram (programOf levels unit text).tree
      let copy := programOf levels copyUnit rendered
      (scan copyUnit rendered.toList).complaints = #[] ∧
      (∃ tree, Derives .declarations (scan copyUnit rendered.toList).tokens.toList tree) ∧
      (¬ TooDeep copy → copy.complaints = #[] ∧
        bareAll copy.tree = bareAll (programOf levels unit text).tree ∧
        renderProgram copy.tree = rendered)) ∧
    ∀ expr, expressionOf levels unit text = ⟨some expr, #[]⟩ →
      let copy := expressionOf levels copyUnit expr.render
      (scan copyUnit expr.render.toList).complaints = #[] ∧
      (∃ tree, Derives (.phrase .assignment)
        (scan copyUnit expr.render.toList).tokens.toList tree) ∧
      (¬ TooDeep copy → ∃ again, copy = ⟨some again, #[]⟩ ∧ again.bare = expr.bare ∧
        again.render = expr.render) := by
  constructor
  · intro hparse rendered copy
    obtain ⟨hscan, tree, htree, hbare⟩ := programOf_renderProgram hfinite hparse copyUnit
    refine ⟨hscan, ⟨tree, htree⟩, fun hshallow => ?_⟩
    rcases parseProgram_of_derives htree (scan copyUnit rendered.toList).stop levels
      with hcopy | ⟨-, hdeep⟩
    · have heq : copy = ⟨tree, #[]⟩ := hcopy
      rw [heq]
      exact ⟨rfl, hbare, renderProgram_congr hbare⟩
    · exact absurd hdeep hshallow
  · intro expr hparse copy
    obtain ⟨hscan, tree, htree, hbare⟩ := expressionOf_render hfinite hparse copyUnit
    refine ⟨hscan, ⟨tree, htree⟩, fun hshallow => ?_⟩
    rcases parseExpression_of_derives htree (scan copyUnit expr.render.toList).stop levels
      with hcopy | ⟨-, hdeep⟩
    · exact ⟨tree, hcopy, hbare, render_congr hbare⟩
    · exact absurd hdeep hshallow

/-- An open `if` under a loop and a block of its own, negations that must not fuse, a
string over two lines. -/
def awkwardText : String :=
  "if (a) while (b) \x7b if (c) a.f(- -1.5, (2 + 3) * 4); \x7d else print \"x\ny\";"

theorem awkwardText_roundTrip :
    let read := programOf nestingLimit
    let rendered := renderProgram (read 0 awkwardText).tree
    (read 0 awkwardText).complaints = #[] ∧ (read 1 rendered).complaints = #[] ∧
      bareAll (read 1 rendered).tree = bareAll (read 0 awkwardText).tree ∧
      renderProgram (read 1 rendered).tree = rendered := by
  intro read rendered
  have hparse : (read 0 awkwardText).complaints = #[] := by decide +kernel
  have hcopy : (read 1 rendered).complaints = #[] := by decide +kernel
  have hshallow : ¬ TooDeep (read 1 rendered) := by
    rintro ⟨complaint, hmem, -⟩
    simp [hcopy] at hmem
  have hfinite : finiteLiterals (scan 0 awkwardText.toList) := by decide +kernel
  exact ⟨hparse, ((render_roundTrip nestingLimit 0 1 awkwardText hfinite).1 hparse).2.2 hshallow⟩

end Moth.Syntax
