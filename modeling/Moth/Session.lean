import Moth.Issue.Report
import Moth.Tree.Render
import Moth.Eval.Evaluate
/-!
# Sessions

A session takes input units one after the other: whole programs to run, or single
expressions to evaluate.  A unit is scanned, parsed, resolved and then run on the
session's machine; an issue ends it early.  What a unit defines is there for the
units that follow, however it ended.
-/

namespace Moth

inductive Ending where
  | completed | staticError | runtimeError
deriving DecidableEq, Repr

def Ending.label : Ending → String
  | completed => "completed"
  | staticError => "halted on static error"
  | runtimeError => "halted on runtime error"

inductive Stage where
  | ready | running
deriving DecidableEq, Repr

inductive Trouble where
  /-- The session is still running another unit. -/
  | busy
  /-- A scope or binding that the resolution promises is missing. -/
  | stuck
  | outOfFuel
deriving DecidableEq, Repr

structure Flags where
  showTokens : Bool := false
  showParse : Bool := false
  dryRun : Bool := false
deriving DecidableEq, Repr

/-- How deep things may go: the nesting of a program, and the calls that are open at once. -/
structure Limits where
  nesting : Nat := nestingLimit
  calls : Nat := Eval.callLimit
deriving DecidableEq, Repr

structure Session where
  limits : Limits
  flags : Flags
  report : Report
  machine : Machine
  stage : Stage

namespace Session

def start (flags : Flags) (verbose : Bool) (world : World) (input : String)
    (limits : Limits := {}) : Session where
  limits
  flags
  report := .start verbose
  machine := .start world input.toList
  stage := .ready

def write (session : Session) (text : String) : Session :=
  { session with machine := session.machine.write text }

def info (session : Session) (text : String) : Session :=
  { session with report := session.report.info [text] }

def openUnit (session : Session) (text : String) : Except Trouble (Scan × Session) :=
  match session.stage with
  | .running => .error .busy
  | .ready =>
    let report := session.report.reset.setSource text.toList
    let scan := scan report.unit text.toList
    let session := { session with report := report.noteScan scan, stage := .running }
    let session := session.info s!"Scanned {scan.allTokens.length} tokens"
    if session.flags.showTokens then
      .ok (scan, session.write (String.join (scan.allTokens.map (·.listing ++ "\n"))))
    else .ok (scan, session)

def closeUnit (session : Session) : Session := { session with stage := .ready }

/-- Notes a failure, and goes back to the global scope. -/
def noteFailure (session : Session) (failure : Failure) (machine : Machine) : Session :=
  { session with
    machine := { machine with current := Machine.globals }
    report := session.report.noteFailure failure.token failure.fault.message }

def interpret (fuel : Nat) (session : Session) (resolution : Resolution)
    (program : List Stmt) : Except Trouble (Ending × Session) :=
  let machine := session.machine.addLinks resolution
  match Eval.executeUnit fuel session.limits.calls program machine with
  | .done () machine => .ok (.completed, { session with machine })
  | .failed failure machine => .ok (.runtimeError, session.noteFailure failure machine)
  | .stuck _ => .error .stuck
  | .outOfFuel => .error .outOfFuel

def interpretExpression (fuel : Nat) (session : Session) (resolution : Resolution)
    (expr : Expr) : Except Trouble (Ending × Value × Session) :=
  let machine := session.machine.addLinks resolution
  match Eval.evaluate fuel session.limits.calls expr machine with
  | .done value machine => .ok (.completed, value, { session with machine })
  | .failed failure machine => .ok (.runtimeError, .nil, session.noteFailure failure machine)
  | .stuck _ => .error .stuck
  | .outOfFuel => .error .outOfFuel

def noteParse {α : Type} (session : Session) (parsed : Parsed α) : Session :=
  { session with report := session.report.noteParse parsed }

def showTree (session : Session) (text : String) : Session :=
  if session.flags.showParse then session.write text else session

/-- Resolves a program, and gives its links if there is no issue. -/
def resolve (session : Session) (program : List Stmt) : Session × Option Resolution :=
  let resolved := resolveProgram program
  let session := { session with report := session.report.noteResolve resolved }
  (session, if session.report.ok then some resolved.resolution else none)

def checkProgram (session : Session) (scan : Scan) :
    Session × Option (Resolution × List Stmt) :=
  let parsed := parseProgram scan.tokens.toList scan.stop session.limits.nesting
  let session := session.noteParse parsed
  if !session.report.ok then (session, none)
  else
    let session := session.info s!"Parsed {parsed.tree.length} top-level statements"
    match (session.showTree (renderProgram parsed.tree)).resolve parsed.tree with
    | (session, none) => (session, none)
    | (session, some resolution) =>
      (session.info s!"Resolved {resolution.links.length} local references",
        some (resolution, parsed.tree))

def checkExpression (session : Session) (scan : Scan) : Session × Option (Resolution × Expr) :=
  let parsed := parseExpression scan.tokens.toList scan.stop session.limits.nesting
  let session := session.noteParse parsed
  match parsed.tree with
  | none => (session, none)
  | some expr =>
    if !session.report.ok then (session, none)
    else
      match (session.showTree (expr.render ++ "\n")).resolve [.expression expr] with
      | (session, none) => (session, none)
      | (session, some resolution) => (session, some (resolution, expr))

def runTokens (fuel : Nat) (session : Session) (scan : Scan) :
    Except Trouble (Ending × Session) :=
  match session.checkProgram scan with
  | (session, none) => .ok (.staticError, session)
  | (session, some (resolution, program)) =>
    if session.flags.dryRun then .ok (.completed, session)
    else session.interpret fuel resolution program

def evaluateTokens (fuel : Nat) (session : Session) (scan : Scan) :
    Except Trouble (Ending × Value × Session) :=
  match session.checkExpression scan with
  | (session, none) => .ok (.staticError, .nil, session)
  | (session, some (resolution, expr)) =>
    if session.flags.dryRun then .ok (.completed, .nil, session)
    else session.interpretExpression fuel resolution expr

def run (fuel : Nat) (session : Session) (text : String) :
    Except Trouble (Ending × Session) := do
  let (scan, session) ← session.openUnit text
  let (ending, session) ← session.runTokens fuel scan
  return (ending, session.closeUnit)

/-- Evaluates a single expression; its value is nil if it has none. -/
def evaluate (fuel : Nat) (session : Session) (text : String) :
    Except Trouble (Ending × Value × Session) := do
  let (scan, session) ← session.openUnit text
  let (ending, value, session) ← session.evaluateTokens fuel scan
  return (ending, value, session.closeUnit)

def complain (session : Session) : Session :=
  { session with report := session.report.complain }

/-- What has been written since the last time: the output and the console. -/
def takeText (session : Session) : String × String × Session :=
  (session.machine.output, session.report.console,
    { session with
      machine := { session.machine with output := "" }
      report := { session.report with console := "" } })

/-- More fuel than any program that ends in a lifetime uses. -/
def ampleFuel : Nat := 1000000000000000000

end Session

end Moth
