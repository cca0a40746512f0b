import Moth.Proofs.Renaming.Resolved
import Moth.Proofs.Renaming.Text
import Moth.Proofs.Rendering.RoundTrip
import Moth.Proofs.Session.Comparing
/-!
# Local names do not matter

A local variable or parameter of an accepted program gets a name that is not in use.  The resolver
accepts the renamed program and finds every variable as far away as before, and in every session
the renamed program ends as the program does, prints the same and leaves the same behind.
-/

namespace Moth

open Scan Syntax

/-- The program in which the variable that a token declares has a new name: it is written at the
declaration and at the references that the resolver leads to it.  If the token declares no variable
of a block, a function or a method, the program stays as it is. -/
def renameProgram (declared : Token) (fresh : String) (program : List Stmt) : List Stmt :=
  renameAll ⟨declared, fresh, (resolveProgram program).resolution⟩ none program

section

variable {levels unit : Nat} {text : String} {program : List Stmt} {declared : Token}
  {fresh : String}

theorem spelt_fresh (hfresh : Spells .identifier fresh.toList) (name : Token)
    (hname : name.kind = .identifier) : Spelt { name with lexeme := fresh } := by
  rw [Spelt, hname]
  exact hfresh

theorem applies_of_parse (hparse : programOf levels unit text = ⟨program, #[]⟩)
    (hresolve : (resolveProgram program).complaints = #[])
    (hdeclared : declared ∈ (scan unit text.toList).tokens) (hkind : declared.kind = .identifier)
    (hfresh : Spells .identifier fresh.toList)
    (hunused : ∀ token ∈ (scan unit text.toList).tokens, token.lexeme ≠ fresh) :
    LocalRenaming.Applies ⟨declared, fresh, (resolveProgram program).resolution⟩ program := by
  have hread := readIn_of_parse hparse
  obtain ⟨-, hmentions⟩ := mentions_of_parseProgram hparse
  have hplain : IsPlain declared.lexeme := Spelt.isPlain (spells_of_scan hdeclared) hkind
  have hplain' : IsPlain fresh := (spelt_fresh hfresh declared hkind).isPlain hkind
  exact {
    plain := ⟨hplain, hplain'⟩
    branched := hread.branched
    quiet := (resolveProgram_quiet_iff hread.branched).1 hresolve
    formed := hmentions.formed
    evades := hmentions.evades hread.branched hplain' fun token htoken =>
      hunused token (by simpa using htoken)
    linked := hread.linked }

/-- The renamed program is a twin of the program however it is written. -/
theorem LocalRenaming.Applies.written {r : LocalRenaming} (h : r.Applies program)
    {copy : List Stmt} (hbare : bareAll copy = bareAll (renameAll r none program))
    {links : Resolution} (hlinks : Linked links (programEvents program)) :
    stmtTwins (Matching.byName h.plain.Allows links fun _ => True) [] program copy := by
  have hle : (h.plain.matching links).Le (Matching.byName h.plain.Allows links fun _ => True) :=
    ⟨fun hallows => hallows, fun hpair => ⟨trivial, hpair.2⟩⟩
  exact stmtTwins_respell (Matching.blind_flip_byName _ _ _) [] program
    (stmtTwins_mono hle [] program (h.twins hlinks)) hbare.symm

/-- A local variable or parameter of an accepted program gets a name that no token of the program
has.  The resolver accepts the renamed program, with the same hops at every token.  There is a text
of the renamed program.  And from every session every text that is read as the renamed program, up
to groupings and places, comes to what the program comes to: both end or neither does, and if they
end it is in the same way, with the same text printed and the same to be seen afterwards. -/
theorem local_names_free (hscan : (scan unit text.toList).complaints = #[])
    (hparse : programOf levels unit text = ⟨program, #[]⟩)
    (hresolve : (resolveProgram program).complaints = #[])
    (hdeclared : declared ∈ (scan unit text.toList).tokens) (hkind : declared.kind = .identifier)
    (hfresh : Spells .identifier fresh.toList)
    (hunused : ∀ token ∈ (scan unit text.toList).tokens, token.lexeme ≠ fresh) :
    let renamed := renameProgram declared fresh program
    (resolveProgram renamed).complaints = #[] ∧
      (∀ token, (resolveProgram renamed).resolution.hops? token =
        (resolveProgram program).resolution.hops? token) ∧
      (∃ text' : String, (scan unit text'.toList).complaints = #[] ∧ ∃ copy,
        Derives .declarations (scan unit text'.toList).tokens.toList copy ∧
          bareAll copy = bareAll renamed) ∧
      ∀ (turns : List Turn) (session : Session) (text' : String) (copy : List Stmt),
        Reached turns session → session.report.unit + 1 = unit → session.limits.nesting = levels →
        (scan unit text'.toList).complaints = #[] → programOf levels unit text' = ⟨copy, #[]⟩ →
        bareAll copy = bareAll renamed →
        (session.Halts (.run text) ↔ session.Halts (.run text')) ∧
          ∀ ending printed seen, session.Prints (.run text) ending printed seen ↔
            session.Prints (.run text') ending printed seen := by
  have happlies := applies_of_parse hparse hresolve hdeclared hkind hfresh hunused
  refine ⟨happlies.accepted, happlies.hops?, ?_, ?_⟩
  · have hderives : Derives .declarations (scan unit text.toList).tokens.toList program :=
      derives_of_parsed hparse
    obtain ⟨us, hus, hspelt⟩ := hderives.rewritten (r := ⟨declared, fresh, _⟩)
      (spelt_fresh hfresh) (fun token htoken => spells_of_scan (by simpa using htoken)) none
    exact hus.text hspelt unit
  · rintro turns session text' copy hreached rfl rfl hscan' hparse' hbare
    have hends : ∀ ending printed seen, session.Prints (.run text) ending printed seen ↔
        session.Prints (.run text') ending printed seen :=
      hreached.sound.prints_iff hreached.rooted hscan hparse hscan' hparse' happlies.plain.Allows
        (.inl rfl) (happlies.plain.clear happlies.evades)
        fun links hlinks => happlies.written hbare hlinks
    refine ⟨?_, hends⟩
    simp only [hreached.halts_iff, hends]

/-- What the renamed program is rendered as is a text of it. -/
theorem renameProgram_rendered (hfinite : finiteLiterals (scan unit text.toList))
    (hparse : programOf levels unit text = ⟨program, #[]⟩)
    (hfresh : Spells .identifier fresh.toList) (declared : Token) (copyUnit : Nat) :
    let rendered := renderProgram (renameProgram declared fresh program)
    (scan copyUnit rendered.toList).complaints = #[] ∧
      ∃ copy, Derives .declarations (scan copyUnit rendered.toList).tokens.toList copy ∧
        bareAll copy = bareAll (renameProgram declared fresh program) := by
  have hderives : Derives .declarations (scan unit text.toList).tokens.toList program :=
    derives_of_parsed hparse
  have hproper (name : Token) (hname : name.kind = .identifier) :
      Proper { name with lexeme := fresh } := by
    refine ⟨spelt_fresh hfresh name hname, fun value hvalue => ?_⟩
    rw [hname] at hvalue
    cases hvalue
  obtain ⟨us, hus, husProper⟩ := hderives.rewritten
    (r := ⟨declared, fresh, (resolveProgram program).resolution⟩) hproper
    (proper_of_scan hfinite) none
  exact Yields.scanned (rendered_program hus husProper) trivial copyUnit

end

/-! ## A renamed parameter -/

/-- A parameter that a function inside changes, and that a block has another variable named like. -/
def sharedText : String :=
  "fun f(n) \x7b fun g() \x7b n = n + 1; \x7b var n = 0; \x7d return n; \x7d return g() + n; \x7d
  print f(1); nil();"

def sharedParameter : Token := ⟨.identifier, "n", 1, 6, 1⟩

def countText : String :=
  "fun f(count) \x7b
    fun g() \x7b
        (count = (count + 1));
        \x7b
            var n = 0;
        \x7d
        return count;
    \x7d
    return (g() + count);
\x7d
print f(1);
nil();
"

def sharedSeen : Seen where
  entries := [(.runtime, "Can only call functions and classes.")]
  input := []
  globals := Session.empty.machine.shownGlobals ++ [("f", "function", "<fn f>")]

theorem sharedText_renamed :
    sharedParameter ∈ (scan 1 sharedText.toList).tokens ∧
      renderProgram (renameProgram sharedParameter "count"
        (programOf nestingLimit 1 sharedText).tree) = countText ∧
      Session.empty.Prints (.run countText) .runtimeError "4\n" sharedSeen := by
  -- one evaluation, so that each text is scanned once
  obtain ⟨hdeclared, hrendered, hscan, hparse, hresolve, hfinite, hunused, hcopy, hshown⟩ :
      sharedParameter ∈ (scan 1 sharedText.toList).tokens ∧
      renderProgram (renameProgram sharedParameter "count"
        (programOf nestingLimit 1 sharedText).tree) = countText ∧
      (scan 1 sharedText.toList).complaints = #[] ∧
      (programOf nestingLimit 1 sharedText).complaints = #[] ∧
      (resolveProgram (programOf nestingLimit 1 sharedText).tree).complaints = #[] ∧
      finiteLiterals (scan 1 sharedText.toList) ∧
      (∀ token ∈ (scan 1 sharedText.toList).tokens, token.lexeme ≠ "count") ∧
      (programOf nestingLimit 1 countText).complaints = #[] ∧
      Session.empty.shown? 20 (.run sharedText) = some (.runtimeError, "4\n", sharedSeen) := by
    decide +kernel
  have hfresh : Spells .identifier "count".toList :=
    ⟨⟨'c', "ount".toList, rfl, by decide, List.all_eq_true.1 (by decide)⟩, by decide⟩
  have hprogram : programOf nestingLimit 1 sharedText =
      ⟨(programOf nestingLimit 1 sharedText).tree, #[]⟩ := congrArg (Parsed.mk _) hparse
  obtain ⟨hscan', copy, hderives, hbare⟩ :=
    renameProgram_rendered hfinite hprogram hfresh sharedParameter 1
  rw [hrendered] at hscan' hderives
  have hread : programOf nestingLimit 1 countText = ⟨copy, #[]⟩ := by
    refine (parseProgram_of_derives hderives _ _).resolve_right ?_
    rintro ⟨-, complaint, hmem, -⟩
    rw [← programOf, hcopy] at hmem
    simp at hmem
  obtain ⟨-, -, -, halike⟩ :=
    local_names_free hscan hprogram hresolve hdeclared rfl hfresh hunused
  obtain ⟨-, hprints⟩ :=
    halike [] .empty countText copy .empty rfl rfl hscan' hread hbare
  exact ⟨hdeclared, hrendered, (hprints _ _ _).1 (Session.ends_of_shown 20 hshown)⟩

end Moth
