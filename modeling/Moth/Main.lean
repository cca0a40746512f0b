import Moth.CommandLine.Perform
/-!
# The program

Reads the arguments, the program file and the input, and writes what the command
leaves behind.  The input is read only for a program that may ask for it, and then to
its end.
-/

namespace Moth.CommandLine

/-- The system's code for reading a folder, which comes with either sign. -/
def isFolderCode : UInt32 := 21

def readFile (path : String) : IO (Except FileError ByteArray) := do
  try
    return .ok (← IO.FS.readBinFile path)
  catch
    | .noFileOrDirectory .. => return .error .missing
    | .inappropriateType _ code _ =>
      return .error (if code = isFolderCode || code = -isFolderCode then .isFolder else .notFolder)
    | error => return .error (.other (toString error))

/-- All of the input, or none of it if it is not wanted. -/
def readInput (wanted : Bool) : IO String := do
  if wanted then (← IO.getStdin).readToEnd else return ""

def presentWorld : IO World := do
  let now ← IO.monoNanosNow
  return .seeded (1700000000000000 + now / 1000) now

def flushSession (session : Session) : IO Session := do
  let (out, err, session) := session.takeText
  IO.print out
  IO.eprint err
  (← IO.getStdout).flush
  return session

/-- Runs the lines that are typed at a terminal, each when it has been typed.  From the
first line on that may ask for input, all lines are read before they are run. -/
partial def converse (fuel : Nat) (session : Session) : IO (Except Mishap Unit) := do
  let session ← flushSession (session.write prompt)
  let line ← (← IO.getStdin).getLine
  if line.isEmpty || mayAskForInput line then
    let input := Text.plainBreaks (line ++ (← readInput !line.isEmpty)).toList
    let session := { session with machine := { session.machine with input } }
    match runLines fuel (input.length + 1) session with
    | .ok session =>
      let _ ← flushSession session
      return .ok ()
    | .error mishap => return .error mishap
  else
    let line := Text.dropEndWhile (fun c => c = '\r' || c = '\n') line.toList
    match runLine fuel session (String.ofList line) with
    | .ok session => converse fuel session
    | .error mishap => return .error mishap

def writeTranscript (transcript : Transcript) : IO UInt32 := do
  IO.print transcript.out
  IO.eprint transcript.err
  return transcript.exit.toUInt32

def writeMishap : Mishap → IO UInt32
  | .notText => do
    IO.eprintln "The program file is not UTF-8."
    return 1
  | .unfinished _ => do
    IO.eprintln "The program did not come to an end."
    return 1

def writeAnswer : Except Mishap Transcript → IO UInt32
  | .ok transcript => writeTranscript transcript
  | .error mishap => writeMishap mishap

def carryOut (settings : Settings) (command : Command) : IO UInt32 := do
  let world ← presentWorld
  let around (input : String) : Surroundings := ⟨world, input, Session.ampleFuel⟩
  match command with
  | .run program =>
    let path := Path.ofText program
    let shown := path.display (toString (← IO.currentDir))
    let file ← readFile (path.display ".")
    let text := file.toOption.bind String.fromUTF8?
    let input ← readInput (text.any mayAskForInput)
    writeAnswer (runProgram (around input) settings shown file)
  | .eval expression =>
    let input ← readInput (mayAskForInput expression)
    writeAnswer (runExpression (around input) settings expression)
  | .repl =>
    if ← (← IO.getStdin).isTty then
      match ← converse Session.ampleFuel ((around "").session settings) with
      | .ok () => return 0
      | .error mishap => writeMishap mishap
    else
      writeAnswer (runRepl (around (← readInput true)) settings)

end Moth.CommandLine

def main (args : List String) : IO UInt32 :=
  match Moth.CommandLine.read args with
  | .error transcript => Moth.CommandLine.writeTranscript transcript
  | .ok (settings, command) => Moth.CommandLine.carryOut settings command
