import Moth.Eval.Native
/-!
# What native functions do

A native function reads the input, the clock or numbers by chance, and may write a prompt.  It
leaves all else in the machine as it is, gives a value that refers to nothing in it, and fails only
at the parenthesis of its call.
-/

namespace Moth

namespace Machine

structure Sources where
  world : World
  input : List Char
  clockReadings : Nat
  draws : Nat

def sources (machine : Machine) : Sources :=
  ⟨machine.world, machine.input, machine.clockReadings, machine.draws⟩

def exchange (machine : Machine) (text : String) (rest : Sources) : Machine :=
  { machine with
    output := machine.output ++ text
    world := rest.world
    input := rest.input
    clockReadings := rest.clockReadings
    draws := rest.draws }

theorem exchange_sources (machine : Machine) : machine.exchange "" machine.sources = machine := by
  simp only [exchange, String.append_empty, sources]

end Machine

namespace Native

inductive Answer where
  | gives (value : Literal) (text : String) (rest : Machine.Sources)
  | fails (fault : RuntimeFault)
  | stuck

def Answer.outcome (paren : Token) (machine : Machine) : Answer → Outcome Value
  | gives value text rest => .done value.value (machine.exchange text rest)
  | fails fault => .failed ⟨paren, fault⟩ machine
  | stuck => .stuck machine

/-- The answer is the same for all machines that read from the same, wherever the call stands. -/
def Answers (f : Native) (args : List Value) (sources : Machine.Sources) (answer : Answer) : Prop :=
  ∀ paren machine, machine.sources = sources →
    f.call paren args machine = answer.outcome paren machine

variable (sources : Machine.Sources)

theorem answers_clock : ∃ answer ≠ .stuck, clock.Answers [] sources answer := by
  refine ⟨.gives (.number (sources.world.clock sources.clockReadings)) ""
    { sources with clockReadings := sources.clockReadings + 1 }, nofun, ?_⟩
  rintro paren machine rfl
  simp only [Answer.outcome, Machine.exchange, String.append_empty]
  rfl

theorem answers_input (prompt : Value) :
    ∃ answer ≠ .stuck, input.Answers [prompt] sources answer := by
  cases prompt with
  | string text =>
    by_cases hinput : sources.input.isEmpty
    · refine ⟨.gives .nil text sources, nofun, ?_⟩
      rintro paren machine rfl
      have hline : (machine.write text).readLine = (none, machine.write text) := if_pos hinput
      simp only [call, readInput, bind, Run.bind, Run.modify, Run.make, hline]
      rfl
    · refine ⟨.gives (.string (String.ofList
        (Text.dropEndWhile (fun c => c = '\r' || c = '\n') (Text.takeLine sources.input).1))) text
        { sources with input := (Text.takeLine sources.input).2 }, nofun, ?_⟩
      rintro paren machine rfl
      have hline : (machine.write text).readLine = (some _, _) := if_neg hinput
      simp only [call, readInput, bind, Run.bind, Run.modify, Run.make, hline]
      rfl
  | _ => exact ⟨.fails .promptNotString, nofun, fun _ _ _ => rfl⟩

theorem answers_stringToNum (text : Value) :
    ∃ answer ≠ .stuck, stringToNum.Answers [text] sources answer := by
  cases text with
  | string text =>
    refine ⟨.gives ((Decimal.readTrimmed? text).elim .nil fun decimal => .number decimal.toNumber)
      "" sources, nofun, ?_⟩
    rintro paren machine rfl
    rw [Answer.outcome, Machine.exchange_sources]
    simp only [call, readNumber]
    cases Decimal.readTrimmed? text <;> rfl
  | _ => exact ⟨.fails .numeralNotString, nofun, fun _ _ _ => rfl⟩

theorem answers_randomNum (low high : Value) :
    ∃ answer ≠ .stuck, randomNum.Answers [low, high] sources answer := by
  cases low with
  | number low =>
    cases high with
    | number high =>
      by_cases hrange : low.isFinite && high.isFinite && low.truncate ≤ high.truncate
      · let chosen := sources.world.chance sources.draws %
          ((high.truncate - low.truncate).natAbs + 1)
        refine ⟨.gives (.number (.ofInt (low.truncate + (chosen : Int)))) ""
          { sources with draws := sources.draws + 1 }, nofun, ?_⟩
        rintro paren machine rfl
        simp only [call, drawNumber, hrange, Answer.outcome, Machine.exchange, String.append_empty]
        rfl
      · refine ⟨.fails .invalidRange, nofun, fun paren machine _ => ?_⟩
        simp only [call, drawNumber, hrange]
        rfl
    | _ => exact ⟨.fails .toNotNumber, nofun, fun _ _ _ => rfl⟩
  | _ => exact ⟨.fails .fromNotNumber, nofun, fun _ _ _ => rfl⟩

/-- Every call has an answer.  It is not stuck if there are as many arguments as the function
takes. -/
theorem exists_answer (f : Native) (args : List Value) :
    ∃ answer, (args.length = f.arity → answer ≠ .stuck) ∧ f.Answers args sources answer := by
  by_cases hlength : args.length = f.arity
  · have hsome : ∃ answer ≠ .stuck, f.Answers args sources answer := by
      match f, args, hlength with
      | clock, [], _ => exact answers_clock sources
      | input, [prompt], _ => exact answers_input sources prompt
      | stringToNum, [text], _ => exact answers_stringToNum sources text
      | randomNum, [low, high], _ => exact answers_randomNum sources low high
    obtain ⟨answer, hne, hanswer⟩ := hsome
    exact ⟨answer, fun _ => hne, hanswer⟩
  · refine ⟨.stuck, fun h => absurd h hlength, fun paren machine _ => ?_⟩
    unfold call
    split <;> first | rfl | exact absurd rfl hlength

end Native

end Moth
