import Moth.CommandLine.Folder
import Moth.CommandLine.Options
/-!
# Performing commands

What the commands do with a program file, an expression, or the lines of the input,
and the exit codes.
-/

namespace Moth

namespace Text

/-- The text with every line break written as a line feed. -/
def plainBreaks : List Char → List Char
  | [] => []
  | '\r' :: '\n' :: rest => '\n' :: plainBreaks rest
  | c :: rest => (if c = '\r' then '\n' else c) :: plainBreaks rest

end Text

namespace CommandLine

inductive Mishap where
  /-- The bytes of the program are no text. -/
  | notText
  | unfinished (trouble : Trouble)
deriving DecidableEq, Repr

def exitCode : Ending → Nat
  | .completed => 0
  | .staticError => 65
  | .runtimeError => 70

def prompt : String := "moth> "

structure Surroundings where
  world : World
  input : String
  fuel : Nat

def Surroundings.session (around : Surroundings) (settings : Settings) : Session :=
  .start settings.flags settings.verbose around.world
    (String.ofList (Text.plainBreaks around.input.toList))

def transcript (exit : Nat) (session : Session) : Transcript :=
  ⟨exit, session.machine.output, session.report.console⟩

def finished {α : Type} : Except Trouble α → Except Mishap α
  | .ok value => .ok value
  | .error trouble => .error (.unfinished trouble)

def runProgram (around : Surroundings) (settings : Settings) (shownPath : String) :
    Except FileError ByteArray → Except Mishap Transcript
  | .error error =>
    .ok ⟨65, "", "Can't read " ++ shownPath ++ ": " ++ error.reason ++ "\n"⟩
  | .ok bytes =>
    match String.fromUTF8? bytes with
    | none => .error .notText
    | some text => do
      let source := String.ofList (Text.plainBreaks text.toList)
      let (ending, session) ← finished ((around.session settings).run around.fuel source)
      return transcript (exitCode ending) session.complain

/-- Runs one line as a unit of its own, and complains of its issues. -/
def runLine (fuel : Nat) (session : Session) (line : String) : Except Mishap Session := do
  let (_, session) ← finished (session.run fuel line)
  return session.complain

/-- Runs the lines of the input one by one to its end, when a first prompt has been
written; a prompt follows on each line.  Every line takes up some of the input, which
bounds the number of lines. -/
def runLines (fuel : Nat) : Nat → Session → Except Mishap Session
  | 0, session => .ok session
  | bound + 1, session =>
    if session.machine.input.isEmpty then .ok (session.write "\n")
    else do
      let (line, input) := Text.takeLine session.machine.input
      let session := { session with machine := { session.machine with input } }
      let session ← runLine fuel session (String.ofList line)
      runLines fuel bound (session.write prompt)

def runRepl (around : Surroundings) (settings : Settings) : Except Mishap Transcript := do
  let session := (around.session settings).write prompt
  let session ← runLines around.fuel (session.machine.input.length + 1) session
  return transcript 0 session

def runExpression (around : Surroundings) (settings : Settings) (expression : String) :
    Except Mishap Transcript := do
  let (ending, value, session) ←
    finished ((around.session settings).evaluate around.fuel expression)
  let session := session.complain
  let session :=
    if ending = .completed && !settings.flags.dryRun then
      session.write (session.machine.display value ++ "\n")
    else session
  return transcript (exitCode ending) session

/-- Whether a program may come to ask for input: it has to name the function that does. -/
def mayAskForInput (source : String) : Bool :=
  (scan 0 source.toList).tokens.any fun token =>
    token.kind = .identifier && token.lexeme = Native.input.name

def call (around : Surroundings) (here : String) (folder : Folder) (args : List String) :
    Except Mishap Transcript :=
  match read args with
  | .error answer => .ok answer
  | .ok (settings, .run program) =>
    let path := Path.ofText program
    runProgram around settings (path.display here) (folder.read path)
  | .ok (settings, .repl) => runRepl around settings
  | .ok (settings, .eval expression) => runExpression around settings expression

end CommandLine

end Moth
