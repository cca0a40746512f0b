import Moth.Issue.Pointer
import Moth.Token.Scan
import Moth.Tree.Parse
import Moth.Scope.Resolve
/-!
# Issues and reports

An `Issue` is one thing that went wrong.  A `Report` gathers the issues of the
current input unit, and what has been said on the console.  An issue at a token of
the current unit points into the unit's text; tokens of earlier units have no text
to point into any more.
-/

namespace Moth

inductive Phase where
  | scan | parse | resolve | runtime
  | other (label : String)
deriving DecidableEq, Repr

namespace Phase

def label : Phase → String
  | scan => "scan"
  | parse => "parse"
  | resolve => "resolve"
  | runtime => "runtime"
  | other label => label

def ofLabel : String → Phase
  | "scan" => scan
  | "parse" => parse
  | "resolve" => resolve
  | "runtime" => runtime
  | label => other label

def isStatic : Phase → Bool
  | scan | parse | resolve => true
  | runtime | other _ => false

end Phase

structure Issue where
  phase : Phase
  line : Int
  message : String
  headline : String
  pointer : Option Pointer

namespace Issue

/-- The headline, with the illustration below it if there is one. -/
def text (issue : Issue) : String :=
  match issue.pointer with
  | none => issue.headline
  | some pointer => issue.headline ++ "\n" ++ pointer.illustrate

def summary (issue : Issue) : String :=
  "<" ++ issue.phase.label ++ " issue: " ++ issue.headline ++ ">"

end Issue

/-- The issues of the current unit, its text and number, and the console. -/
structure Report where
  verbose : Bool
  issues : Array Issue
  source : Option (List Char)
  unit : Nat
  console : String

namespace Report

def start (verbose : Bool) : Report :=
  { verbose, issues := #[], source := none, unit := 0, console := "" }

def ok (report : Report) : Bool := report.issues.isEmpty

def hasStaticIssue (report : Report) : Bool := report.issues.any (·.phase.isStatic)

def hasRuntimeIssue (report : Report) : Bool := report.issues.any (·.phase = .runtime)

def setSource (report : Report) (text : List Char) : Report :=
  { report with unit := report.unit + 1, source := some text }

def reset (report : Report) : Report := { report with issues := #[] }

def add (report : Report) (issue : Issue) : Report :=
  { report with issues := report.issues.push issue }

def say (report : Report) (text : String) : Report :=
  { report with console := report.console ++ text }

def info (report : Report) (words : List String) : Report :=
  if report.verbose then report.say (" ".intercalate words ++ "\n") else report

def complain (report : Report) : Report :=
  report.say (String.join (report.issues.toList.map fun issue => issue.text ++ "\n"))

/-- A pointer into the current text.  Behind the last character that is no line
break it falls back on that character. -/
def pointAt (report : Report) (offset width : Nat) : Option Pointer :=
  match report.source with
  | none => none
  | some text =>
    let size := (Text.dropEndWhile (fun c => c = '\r' || c = '\n') text).length
    if size = 0 then none
    else if size ≤ offset then some ⟨text, size - 1, 1, ""⟩
    else some ⟨text, offset, max width 1, ""⟩

def pointAtToken (report : Report) (token : Token) : Option Pointer :=
  if token.unit = report.unit then report.pointAt token.offset token.lexeme.length
  else none

/-- Notes an issue on a line; `place` says where, if it is not empty. -/
def note (report : Report) (line : Int) (place message : String) (phase : Phase)
    (pointer : Option Pointer) : Report :=
  let space := if place.isEmpty then "" else " "
  let headline := "[line " ++ toString line ++ "] Error" ++ space ++ place ++ ": " ++ message
  report.add { phase, line, message, headline, pointer }

def noteAtToken (report : Report) (token : Token) (message : String) (phase : Phase) :
    Report :=
  let place := if token.kind = .eof then "at end" else "at '" ++ token.lexeme ++ "'"
  report.note token.line place message phase (report.pointAtToken token)

def noteAtOffset (report : Report) (line : Int) (offset : Nat) (message : String) : Report :=
  report.note line "" message .scan (report.pointAt offset 1)

def noteFailure (report : Report) (token : Token) (message : String) : Report :=
  report.add {
    phase := .runtime
    line := token.line
    message
    headline := message ++ "\n[line " ++ toString token.line ++ "]"
    pointer := report.pointAtToken token }

/-- Complains if there is any issue, and says whether there was one. -/
def insist (report : Report) : Bool × Report :=
  if report.ok then (false, report) else (true, report.complain)

def noteScan (report : Report) (scan : Scan) : Report :=
  scan.complaints.foldl
    (fun report c => report.noteAtOffset c.line c.offset c.fault.message) report

def noteParse {α : Type} (report : Report) (parsed : Parsed α) : Report :=
  parsed.complaints.foldl
    (fun report c => report.noteAtToken c.token c.fault.message .parse) report

def noteResolve (report : Report) (resolved : Resolved) : Report :=
  resolved.complaints.foldl
    (fun report c => report.noteAtToken c.token c.fault.message .resolve) report

end Report

end Moth
