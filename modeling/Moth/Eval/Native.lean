import Moth.Eval.Run
import Moth.Number.Numeral
/-!
# Native functions

Each checks its own arguments; what is unsuitable fails at the call's closing
parenthesis.
-/

namespace Moth

namespace Text

/-- The first line of a text without its line break, and what follows the line. -/
def takeLine (text : List Char) : List Char × List Char :=
  (text.takeWhile (· ≠ '\n'), (text.dropWhile (· ≠ '\n')).drop 1)

end Text

namespace Machine

/-- The next line of the input without the line break characters at its end, or
nothing at the end of the input. -/
def readLine (machine : Machine) : Option String × Machine :=
  if machine.input.isEmpty then (none, machine)
  else
    let (line, input) := Text.takeLine machine.input
    let line := Text.dropEndWhile (fun c => c = '\r' || c = '\n') line
    (some (String.ofList line), { machine with input })

def readClock (machine : Machine) : Number × Machine :=
  (machine.world.clock machine.clockReadings,
    { machine with clockReadings := machine.clockReadings + 1 })

def draw (machine : Machine) (low high : Int) : Int × Machine :=
  let choices := (high - low).natAbs + 1
  (low + ((machine.world.chance machine.draws % choices : Nat) : Int),
    { machine with draws := machine.draws + 1 })

end Machine

namespace Native

def readClock : Run Value := do
  let time ← Run.make Machine.readClock
  return .number time

def readInput (paren : Token) : Value → Run Value
  | .string prompt => do
    Run.modify (·.write prompt)
    match ← Run.make Machine.readLine with
    | some line => return .string line
    | none => return .nil
  | _ => Run.fail paren .promptNotString

def readNumber (paren : Token) : Value → Run Value
  | .string text =>
    match Decimal.readTrimmed? text with
    | some decimal => return .number decimal.toNumber
    | none => return .nil
  | _ => Run.fail paren .numeralNotString

/-- A whole number by chance between two bounds, which are cut to whole numbers. -/
def drawNumber (paren : Token) : Value → Value → Run Value
  | .number low, .number high => do
    if low.isFinite && high.isFinite && low.truncate ≤ high.truncate then
      let n ← Run.make (·.draw low.truncate high.truncate)
      return .number (.ofInt n)
    else
      Run.fail paren .invalidRange
  | .number _, _ => Run.fail paren .toNotNumber
  | _, _ => Run.fail paren .fromNotNumber

def call (paren : Token) : Native → List Value → Run Value
  | clock, [] => readClock
  | input, [prompt] => readInput paren prompt
  | stringToNum, [text] => readNumber paren text
  | randomNum, [low, high] => drawNumber paren low high
  | _, _ => Run.stuck

end Native

end Moth
