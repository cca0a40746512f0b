import Moth.Proofs.Rendering.RoundTrip
import Moth.Proofs.Session.Comparing
/-!
# Rendered programs behave the same

What a program is rendered as differs from it in groupings and places, and neither the resolver
nor the evaluator sees them.  So in every session the rendered text ends as the text does, prints
the same and leaves the same behind, whether it is run to its end, is rejected or fails.
-/

namespace Moth.Syntax

open Scan

/-- A text and the text that its program is rendered as come to the same: both end or neither
does, and if they end it is in the same way, with the same text printed and the same to be seen
afterwards.  Only nesting that is too deep for the parser can keep the rendered text from being
read. -/
theorem render_ends_alike {turns : List Turn} {session : Session}
    (hreached : Reached turns session) {text : String}
    (hscan : (scan (session.report.unit + 1) text.toList).complaints = #[])
    (hparse : (programOf session.limits.nesting (session.report.unit + 1) text).complaints = #[])
    (hfinite : finiteLiterals (scan (session.report.unit + 1) text.toList))
    (hshallow : ¬ TooDeep (programOf session.limits.nesting (session.report.unit + 1)
      (renderProgram (programOf session.limits.nesting (session.report.unit + 1) text).tree))) :
    let rendered :=
      renderProgram (programOf session.limits.nesting (session.report.unit + 1) text).tree
    (session.Halts (.run text) ↔ session.Halts (.run rendered)) ∧
      ∀ ending printed seen, session.Prints (.run text) ending printed seen ↔
        session.Prints (.run rendered) ending printed seen := by
  intro rendered
  obtain ⟨hscan', copy, hcopy, hbare⟩ :=
    programOf_renderProgram hfinite hparse (session.report.unit + 1)
  have hparse' := (parseProgram_of_derives hcopy _ _).resolve_right fun hdeep =>
    hshallow hdeep.2
  have hends : ∀ ending printed seen, session.Prints (.run text) ending printed seen ↔
      session.Prints (.run rendered) ending printed seen :=
    hreached.sound.prints_iff hreached.rooted hscan (congrArg (Parsed.mk _) hparse) hscan' hparse'
      (· = .same) rfl (clear_same _) fun links _ =>
        stmtTwins_of_bareAll hbare links _ fun _ _ _ _ => trivial
  refine ⟨?_, hends⟩
  simp only [hreached.halts_iff, hends]

/-- A program with closures and groupings that prints and then calls `nil`. -/
def failingText : String :=
  "fun f(n) \x7b if (n < 2) return (n); fun g() \x7b return f((n) - 1); \x7d
  return g() + f(n - 2); \x7d print (f(4)); (nil)(1);"

def freshSession : Session := .start {} false (.seeded 0 0) "line"

def failingSeen : Seen where
  entries := [(.runtime, "Can only call functions and classes.")]
  input := "line".toList
  globals := freshSession.machine.shownGlobals ++ [("f", "function", "<fn f>")]

theorem failingText_ends_alike :
    let read := programOf nestingLimit 1
    let rendered := renderProgram (read failingText).tree
    rendered ≠ failingText ∧ (read rendered).complaints = #[] ∧
      freshSession.Prints (.run rendered) .runtimeError "3\n" failingSeen := by
  intro read rendered
  -- one evaluation, so that each text is scanned once
  obtain ⟨hother, hcopy, hscan, hparse, hfinite, hshown⟩ :
      rendered ≠ failingText ∧ (read rendered).complaints = #[] ∧
      (scan 1 failingText.toList).complaints = #[] ∧ (read failingText).complaints = #[] ∧
      finiteLiterals (scan 1 failingText.toList) ∧
      freshSession.shown? 50 (.run failingText) =
        some (.runtimeError, "3\n", failingSeen) := by
    decide +kernel
  have hshallow : ¬ TooDeep (read rendered) := by
    rintro ⟨complaint, hmem, -⟩
    rw [hcopy] at hmem
    simp at hmem
  have hreached : Reached [] freshSession := .start _ _ _ _ _
  obtain ⟨-, halike⟩ := render_ends_alike hreached hscan hparse hfinite hshallow
  exact ⟨hother, hcopy, (halike _ _ _).1 (Session.ends_of_shown 50 hshown)⟩

end Moth.Syntax
