import Moth.CommandLine.Form
/-!
# Options and operands

Reads the arguments of the program.  Options are switches: short ones may share a
dash, long ones may be shortened as long as only one fits.  The first operand names
a command, which has options and operands of its own.  A faulty command line, or a
question for help, is answered at once by a transcript.
-/

namespace Moth

namespace CommandLine

inductive Argument where
  | operand
  /-- A switch by its short name, with text behind it or behind an equal sign. -/
  | short (switch : Switch) (text : List Char)
  /-- A switch alone, or by its long name, which may be shortened, with text behind an
  equal sign. -/
  | named (switch : Switch) (text : Option (List Char))
  | unknown
deriving DecidableEq

/-- Whether a text is a minus sign and a decimal without a power of ten.  A line feed
at the end does not count. -/
def isNegativeNumber : List Char → Bool
  | '-' :: text =>
    let text := if text.getLast? = some '\n' then text.dropLast else text
    let whole := text.takeWhile Text.isDigit
    match text.dropWhile Text.isDigit with
    | [] => !whole.isEmpty
    | '.' :: fraction => !fraction.isEmpty && fraction.all Text.isDigit
    | _ => false
  | _ => false

/-- The name in front of an equal sign, and the text behind it if there is one. -/
def splitAtEqual (text : List Char) : List Char × Option (List Char) :=
  (text.takeWhile (· ≠ '='), ((text.dropWhile (· ≠ '=')).head?).map fun _ =>
    (text.dropWhile (· ≠ '=')).drop 1)

/-- The readings of an argument that begins with a dash and is no full name. -/
def abbreviations (form : Form) (arg : List Char) : List (String × Argument) :=
  match arg with
  | '-' :: '-' :: _ =>
    let (start, text) := splitAtEqual arg
    (form.names.filter fun (name, _) => start.isPrefixOf name.toList).map
      fun (name, switch) => (name, .named switch text)
  | _ =>
    form.names.filterMap fun (name, switch) =>
      if name.toList = arg.take 2 then some (name, .short switch (arg.drop 2))
      else if arg.isPrefixOf name.toList then some (name, .named switch none)
      else none

/-- A switch by its full name, with text behind an equal sign. -/
def withText (name : String) (switch : Switch) (text : List Char) : Argument :=
  if name = switch.shortName then .short switch text else .named switch (some text)

def classify (form : Form) (arg : String) : Except Transcript Argument :=
  let chars := arg.toList
  let (start, text) := splitAtEqual chars
  if chars.head? ≠ some '-' then .ok .operand
  else if let some (_, switch) := form.names.find? (·.1 = arg) then .ok (.named switch none)
  else if chars.length = 1 then .ok .operand
  else if let (some (name, switch), some text) :=
      (form.names.find? (·.1.toList = start), text) then .ok (withText name switch text)
  else
    match abbreviations form chars with
    | [(_, reading)] => .ok reading
    | [] =>
      if isNegativeNumber chars || chars.contains ' ' then .ok .operand else .ok .unknown
    | several =>
      .error (form.complain ("ambiguous option: " ++ arg ++ " could match " ++
        ", ".intercalate (several.map (·.1))))

/-- The switches that share a dash, from `switch` on.  Text that does not begin with the
letter of a switch belongs to the switch before it, which has no use for it. -/
def unbundle (form : Form) (switch : Switch) :
    List Char → Except Transcript (List Switch)
  | [] => .ok [switch]
  | c :: rest =>
    match form.short? c with
    | none => .error (form.ignored switch (c :: rest))
    | some next => do
      let more ← unbundle form next rest
      return switch :: more

/-- The switches in an argument, and what of it is not recognized. -/
def switchesIn (form : Form) (arg : String) :
    Argument → Except Transcript (List Switch × List String)
  | .operand => .ok ([], [])
  | .unknown => .ok ([], [arg])
  | .named switch none => .ok ([switch], [])
  | .named switch (some text) => .error (form.ignored switch text)
  | .short switch [] => .error (form.ignored switch [])
  | .short switch text => do
    let switches ← unbundle form switch text
    return (switches, [])

def applySwitch (form : Form) (settings : Settings) :
    Switch → Except Transcript Settings
  | .help => .error form.help
  | .tokens => .ok { settings with flags := { settings.flags with showTokens := true } }
  | .parse => .ok { settings with flags := { settings.flags with showParse := true } }
  | .dryRun => .ok { settings with flags := { settings.flags with dryRun := true } }
  | .verbose => .ok { settings with verbose := true }

/-! ## Reading the arguments -/

/-- The arguments in front of a double dash, behind which all are operands. -/
def beforeDashes (args : List String) : List String := args.takeWhile (· ≠ "--")

/-- Whether any argument is an option.  All are looked at: one that could be several
options is an error wherever it stands. -/
def hasOption (form : Form) (args : List String) : Except Transcript Bool := do
  let readings ← (beforeDashes args).mapM (classify form)
  return readings.any (· ≠ .operand)

/-- The one operand that a command takes from arguments that hold no option, and the
arguments left over. -/
def takeOperand : List String → Option String × List String
  | [] => (none, [])
  | ["--"] => (none, ["--"])
  | "--" :: operand :: rest => (some operand, rest)
  | operand :: "--" :: rest => (some operand, rest)
  | operand :: rest => (some operand, rest)

/-- Reads the arguments of a command: its operand, if it takes one, and what is not
recognized.  The only switch of a command asks for help. -/
def readOperand (form : Form) (takesOne : Bool) (operand : Option String) :
    List String → Except Transcript (Option String × List String)
  | [] => .ok (operand, [])
  | arg :: rest => do
    if !(← hasOption form (arg :: rest)) then
      if takesOne && operand.isNone then return takeOperand (arg :: rest)
      else return (operand, arg :: rest)
    else
      let reading ← classify form arg
      if reading = .operand && takesOne && operand.isNone then
        readOperand form takesOne (some arg) rest
      else
        let (switches, left) ← switchesIn form arg reading
        for switch in switches do
          let _ ← applySwitch form ⟨{}, false⟩ switch
        let left := if reading = .operand then [arg] else left
        let (operand, more) ← readOperand form takesOne operand rest
        return (operand, left ++ more)

def readRequired (form : Form) (name : String) (args : List String) :
    Except Transcript (String × List String) := do
  match ← readOperand form true none args with
  | (some operand, left) => return (operand, left)
  | (none, _) =>
    .error (form.complain ("the following arguments are required: " ++ name))

def readCommand (name : String) (args : List String) :
    Except Transcript (Command × List String) :=
  match name with
  | "run" => do
    let (program, left) ← readRequired runForm "program" args
    return (.run program, left)
  | "repl" => do
    let (_, left) ← readOperand replForm false none args
    return (.repl, left)
  | "eval" => do
    let (expression, left) ← readRequired evalForm "expression" args
    return (.eval expression, left)
  | _ =>
    .error (mainForm.complain ("argument command: invalid choice: " ++ Text.quoted name ++
      " (choose from 'run', 'repl', 'eval')"))

structure Found where
  settings : Settings
  command : Option Command
  left : List String

/-- Reads switches up to the first operand, which with all that follows is the command. -/
def readMain (settings : Settings) : List String → Except Transcript Found
  | [] => .ok ⟨settings, none, []⟩
  | ["--"] => .ok ⟨settings, none, ["--"]⟩
  | arg :: rest => do
    let reading ← if arg = "--" then .ok .operand else classify mainForm arg
    if reading = .operand then
      let (command, left) ← readCommand arg rest
      return ⟨settings, some command, left⟩
    else
      let (switches, left) ← switchesIn mainForm arg reading
      let settings ← switches.foldlM (applySwitch mainForm) settings
      let found ← readMain settings rest
      return { found with left := left ++ found.left }

def read (args : List String) : Except Transcript (Settings × Command) := do
  if args.isEmpty then
    .error { exit := 0, out := overview, err := "" }
  else
    let _ ← hasOption mainForm args
    let found ← readMain ⟨{}, false⟩ args
    if !found.left.isEmpty then
      .error (mainForm.complain ("unrecognized arguments: " ++ " ".intercalate found.left))
    else
      match found.command with
      | some command => return (found.settings, command)
      | none => .error (mainForm.complain "Say which command: run, repl, or eval.")

end CommandLine

end Moth
