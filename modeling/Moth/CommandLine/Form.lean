import Moth.Session
/-!
# Forms of command lines

The switches and commands of the program, the form of the arguments of each command,
and the texts for help and complaints.
-/

namespace Moth

/-- What a call of the program leaves behind. -/
structure Transcript where
  exit : Nat
  out : String
  err : String

namespace CommandLine

inductive Switch where
  | help | tokens | parse | dryRun | verbose
deriving DecidableEq, Repr

namespace Switch

def short : Switch → Char
  | help => 'h'
  | tokens => 't'
  | parse => 'p'
  | dryRun => 'n'
  | verbose => 'v'

def shortName (switch : Switch) : String := String.ofList ['-', switch.short]

def longName : Switch → String
  | help => "--help"
  | tokens => "--tokens"
  | parse => "--parse"
  | dryRun => "--dry-run"
  | verbose => "--verbose"

def label (switch : Switch) : String := switch.shortName ++ "/" ++ switch.longName

end Switch

structure Settings where
  flags : Flags
  verbose : Bool
deriving DecidableEq, Repr

inductive Command where
  | run (program : String)
  | repl
  | eval (expression : String)
deriving DecidableEq, Repr

structure Form where
  program : String
  usage : String
  /-- The help text below the usage line. -/
  details : String
  switches : List Switch

namespace Form

def complain (form : Form) (message : String) : Transcript where
  exit := 2
  out := ""
  err := form.usage ++ form.program ++ ": error: " ++ message ++ "\n"

def help (form : Form) : Transcript where
  exit := 0
  out := form.usage ++ "\n" ++ form.details
  err := ""

def ignored (form : Form) (switch : Switch) (text : List Char) : Transcript :=
  form.complain ("argument " ++ switch.label ++ ": ignored explicit argument " ++
    Text.quoted (String.ofList text))

def short? (form : Form) (c : Char) : Option Switch := form.switches.find? (·.short = c)

def names (form : Form) : List (String × Switch) :=
  form.switches.flatMap fun switch => [(switch.shortName, switch), (switch.longName, switch)]

end Form

def mainForm : Form where
  program := "moth"
  usage := "usage: moth [-h] [-t] [-p] [-n] [-v] \x7brun,repl,eval\x7d ...\n"
  details :=
    "A programming language for moths and cats alike.\n" ++
    "\n" ++
    "positional arguments:\n" ++
    "  \x7brun,repl,eval\x7d\n" ++
    "    run            Run a .moth file\n" ++
    "    repl           Interactive read-eval-print loop\n" ++
    "    eval           Evaluate a single Moth expression\n" ++
    "\n" ++
    "options:\n" ++
    "  -h, --help       show this help message and exit\n" ++
    "  -t, --tokens     Show the tokens the scanner finds.\n" ++
    "  -p, --parse      Show the parse results, rendered back into source.\n" ++
    "  -n, --dry-run    Check the program but do not actually run it.\n" ++
    "  -v, --verbose    Say more about what each phase is up to.\n"
  switches := [.help, .tokens, .parse, .dryRun, .verbose]

def runForm : Form where
  program := "moth run"
  usage := "usage: moth run [-h] program\n"
  details :=
    "positional arguments:\n" ++
    "  program     try examples/closures.moth for example.\n" ++
    "\n" ++
    "options:\n" ++
    "  -h, --help  show this help message and exit\n"
  switches := [.help]

def replForm : Form where
  program := "moth repl"
  usage := "usage: moth repl [-h]\n"
  details :=
    "options:\n" ++
    "  -h, --help  show this help message and exit\n"
  switches := [.help]

def evalForm : Form where
  program := "moth eval"
  usage := "usage: moth eval [-h] expression\n"
  details :=
    "positional arguments:\n" ++
    "  expression  Put -- first if the expression starts with a minus sign.\n" ++
    "\n" ++
    "options:\n" ++
    "  -h, --help  show this help message and exit\n"
  switches := [.help]

def overview : String :=
  "This is an interpreter for the Moth programming language.\n" ++
  "\n" ++
  mainForm.usage ++
  "\n" ++
  "\n" ++
  "For example:\n" ++
  "\n" ++
  "    moth run program.moth\n" ++
  "\n" ++
  "will run program.moth if possible, or else try to explain why not.\n" ++
  "\n" ++
  "    moth repl\n" ++
  "\n" ++
  "starts an interactive session, and\n" ++
  "\n" ++
  "    moth eval \"1 + 2 * 3\"\n" ++
  "\n" ++
  "evaluates a single expression. If the expression begins with a minus sign,\n" ++
  "put -- ahead of it so it is not taken for an option:\n" ++
  "\n" ++
  "    moth eval -- \"-2 * 3\"\n"

end CommandLine

end Moth
