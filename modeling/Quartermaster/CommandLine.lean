import Quartermaster.Batch

/-!
# The command line

Three commands work on a scenario file: `plan` prints one pass, `batch` plans every computer
player for many seeds and saves the results, `validate` checks the file.

Reading the arguments and running a command are functions. `Command.run` is given what the
scenario file holds and answers with what to print, or with the results to save first.
-/

namespace Quartermaster

/-! ## Arguments -/

/-- An option of a command. -/
structure CommandOption where
  name : String
  letter : Option Char := none
  takesValue : Bool := true
deriving DecidableEq, Repr

/-- The options given, by name; one without a value has the empty text. -/
abbrev Settings := List (String × String)

namespace CommandOption

/-- Asks for more of a log. It is understood everywhere and has no bearing on the output. -/
def verbose : CommandOption := { name := "verbose", letter := some 'v', takesValue := false }

def scenario : CommandOption := { name := "scenario", letter := some 's' }

/-- The options in an argument that starts with one dash: letters without a value, or a last one
whose value is the rest of the argument or the argument after it. -/
def ofLetters (options : List CommandOption) :
    List Char → Option (Settings × Option CommandOption)
  | [] => some ([], none)
  | c :: cs => do
    let o ← options.find? fun o => o.letter == some c
    if o.takesValue then
      match cs with
      | [] => return ([], some o)
      | '=' :: value => return ([(o.name, String.ofList value)], none)
      | value => return ([(o.name, String.ofList value)], none)
    else
      let (settings, waiting) ← ofLetters options cs
      return ((o.name, "") :: settings, waiting)

/-- The option in an argument that starts with two dashes, with a value behind the first equals
sign or in the argument after it. -/
def ofName (options : List CommandOption) (cs : List Char) :
    Option (Settings × Option CommandOption) := do
  let name := String.ofList (cs.takeWhile (· != '='))
  let o ← options.find? fun o => o.name == name
  match cs.dropWhile (· != '='), o.takesValue with
  | [], true => return ([], some o)
  | [], false => return ([(name, "")], none)
  | _ :: value, true => return ([(name, String.ofList value)], none)
  | _ :: _, false => none

/-- The options in one argument, and the option that waits for the next argument. -/
def ofArgument (options : List CommandOption) (arg : String) :
    Option (Settings × Option CommandOption) :=
  match arg.toList with
  | '-' :: '-' :: cs => ofName options cs
  | '-' :: c :: cs => ofLetters options (c :: cs)
  | _ => none

/-- Whether an argument is options. A dash alone is not. -/
def isDashed (arg : String) : Bool := arg.startsWith "-" && arg != "-"

/-- The options in the arguments of a command. Two dashes may end them; nothing follows. -/
def scan (options : List CommandOption) : List String → Option Settings
  | [] => some []
  | ["--"] => some []
  | arg :: rest => do
    let (settings, waiting) ← ofArgument options arg
    match waiting, rest with
    | none, rest => return settings ++ (← scan options rest)
    | some o, value :: rest =>
      if isDashed value then none
      else return settings ++ (o.name, value) :: (← scan options rest)
    | some _, [] => none

end CommandOption

namespace Settings

/-- The settings in the arguments of a command, each option once. -/
def ofArguments (options : List CommandOption) (args : List String) : Option Settings := do
  let settings ← CommandOption.scan (.verbose :: options) args
  if (settings.map Prod.fst).Nodup then return settings else none

/-- The value of an option, if it was given: text that `read` understands. -/
def value? {α : Type} (settings : Settings) (name : String) (read : String → Option α) :
    Option (Option α) :=
  match settings.lookup name with
  | none => some none
  | some text => (read text).map some

/-- The value of an option that has to be given. -/
def required {α : Type} (settings : Settings) (name : String) (read : String → Option α) :
    Option α := do
  read (← settings.lookup name)

end Settings

/-- A path is any text but the empty one. -/
def readPath (text : String) : Option String := if text.isEmpty then none else some text

/-- A number in decimal digits. -/
def readDigits (digits : List Char) : Option Nat :=
  if digits.isEmpty || !digits.all Char.isDigit then none
  else some (digits.foldl (fun n c => n * 10 + (c.toNat - '0'.toNat)) 0)

/-- A number of 32 bits, perhaps with a sign; minus zero is zero. -/
def readCount (text : String) : Option Nat := do
  let n ← match text.toList with
    | '+' :: cs => readDigits cs
    | '-' :: cs => do
      let n ← readDigits cs
      if n = 0 then some n else none
    | cs => readDigits cs
  if n < wordValues 32 then return n else none

/-- A number of 64 bits, perhaps with a plus sign. -/
def readSeed (text : String) : Option Nat := do
  let n ← match text.toList with
    | '+' :: cs => readDigits cs
    | cs => readDigits cs
  if n < wordValues 64 then return n else none

/-! ## Commands -/

/-- What the program is asked to do. -/
inductive Command where
  | plan (scenario : String) (player : PlayerId) (seed : Option Nat)
  | batch (scenario : String) (config : BatchConfig) (output : String)
  | validate (scenario : String)
deriving DecidableEq, Repr

/-- A command, or the question for the version. -/
inductive Invocation where
  | command (command : Command)
  | version
deriving DecidableEq, Repr

namespace Command

/-- The command with a name, from its arguments. -/
def ofArguments (name : String) (args : List String) : Option Command :=
  if name = "plan" then do
    let settings ← Settings.ofArguments
      [.scenario, { name := "player", letter := some 'p' }, { name := "seed" }] args
    return .plan (← settings.required "scenario" readPath)
      ⟨← settings.required "player" readCount⟩ (← settings.value? "seed" readSeed)
  else if name = "batch" then do
    let settings ← Settings.ofArguments
      [.scenario, { name := "runs", letter := some 'r' }, { name := "seed" },
        { name := "parallel", letter := some 'p' }, { name := "output", letter := some 'o' }] args
    let config : BatchConfig := {}
    return .batch (← settings.required "scenario" readPath)
      { runs := (← settings.value? "runs" readCount).getD config.runs
        seedStart := (← settings.value? "seed" readSeed).getD config.seedStart
        parallel := (← settings.value? "parallel" readCount).getD config.parallel }
      ((← settings.value? "output" readPath).getD "results/batch.json")
  else if name = "validate" then do
    let settings ← Settings.ofArguments [.scenario] args
    return .validate (← settings.required "scenario" readPath)
  else none

/-- The file that a command reads. -/
def scenarioPath : Command → String
  | .plan path _ _ => path
  | .batch path _ _ => path
  | .validate path => path

end Command

namespace Invocation

/-- The options before the command, each by itself. -/
def leadingWords (args : List String) : List String :=
  (args.takeWhile CommandOption.isDashed).flatMap fun arg =>
    if arg.startsWith "--" then [arg] else (arg.toList.drop 1).map fun c => String.ofList ['-', c]

/-- Whether the options before the command ask for the version. What follows that question does
not matter; anything else but one request for more of a log is refused. -/
def asksVersion (verbose : Bool) : List String → Option Bool
  | [] => some false
  | word :: words =>
    if word = "-V" ∨ word = "--version" then some true
    else if (word = "-v" ∨ word = "--verbose") ∧ !verbose then asksVersion true words
    else none

/-- What the arguments of the program ask for. -/
def ofArguments (args : List String) : Option Invocation := do
  if ← asksVersion false (leadingWords args) then return .version
  match args.dropWhile CommandOption.isDashed with
  | name :: rest => (Command.ofArguments name rest).map .command
  | [] => none

end Invocation

/-! ## Running -/

/-- What the program prints in the end, and the code that it ends with. -/
structure Report where
  out : String := ""
  err : String := ""
  code : Nat := 0
deriving DecidableEq, Repr

/-- A command is finished, or has results to save. What it reports then depends on whether
saving failed, and for what reason. -/
inductive Outcome where
  | finished (report : Report)
  | saving (path : String) (results : BatchResults) (report : Option String → Report)

namespace Report

/-- The code of a command that failed. -/
def failureCode : Nat := 1

/-- The code of arguments that nobody understands. -/
def usageCode : Nat := 2

/-- The code of a program that was stopped by an overflow. -/
def overflowCode : Nat := 101

def failure (message : String) : Report := { err := message ++ "\n", code := failureCode }

/-- The last words of a program that was stopped by an overflow. -/
def stopped (step : Overflow) : Report := { err := step.message ++ "\n", code := overflowCode }

/-- The report of a command that came to nothing. -/
def ofFault (what : String) : ScenarioFault → Report
  | .overflow step => stopped step
  | f => failure (what ++ f.message)

/-- Several lines, each ended. -/
def lines (ls : List String) : String := String.join (ls.map (· ++ "\n"))

/-- The name under which the program announces itself. -/
def programName : String := "conquest_headless"

def version : Report := { out := programName ++ " 0.1.0\n" }

def usage : Report where
  err := lines [
    "usage: " ++ programName ++ " COMMAND",
    "  plan --scenario FILE --player ID [--seed N]",
    "  batch --scenario FILE [--runs N] [--seed N] [--parallel N] [--output FILE]",
    "  validate --scenario FILE"]
  code := usageCode

end Report

/-- The blanks that a text needs to be so wide. -/
def padding (width : Nat) (text : String) : String :=
  String.ofList (List.replicate (width - text.length) ' ')

namespace PlayerSummary

/-- The means of a player, then the share of each kind. -/
def lines (player : PlayerId) (s : PlayerSummary) : List String :=
  ("  " ++ player.label ++ ": mean " ++ s.meanPieces.toTenths ++ " units, " ++
      s.meanSpent.toTenths ++ " PUs") ::
    s.frequencies.entries.map fun e =>
      let share := (e.2.scale 100).toTenths
      "    " ++ e.1 ++ padding 12 e.1 ++ " " ++ padding 5 share ++ share ++ "%"

end PlayerSummary

namespace BatchResults

/-- The results at a glance. -/
def lines (r : BatchResults) : List String :=
  ("Batch '" ++ r.scenario ++ "': " ++ toString r.plans.length ++ " passes") ::
    r.players.entries.flatMap fun e => e.2.lines e.1

/-- What is reported of results once they have been saved, or have not. -/
def report (r : BatchResults) (path : String) : Option String → Report
  | some reason =>
    { err := Report.lines (r.lines ++ ["Failed to save results: " ++ reason])
      code := Report.failureCode }
  | none =>
    let saved := r.lines ++ ["Results saved to " ++ path]
    if r.failures.isEmpty then { err := Report.lines saved }
    else
      { err := Report.lines (saved ++ [toString r.failures.length ++ " passes failed"])
        code := Report.failureCode }

end BatchResults

namespace Scenario

/-- The plan of a pass, printed. -/
def planReport (s : Scenario) (player : PlayerId) (seed : Option Nat) (entropy : Nat) : Report :=
  match s.planText player seed entropy with
  | .ok text => { out := text ++ "\n" }
  | .error f => .ofFault "Planning failed: " f

/-- What a review found. -/
def reviewReport (s : Scenario) : Report :=
  match s.review with
  | .ok r =>
    { err := Report.lines
        (("OK: " ++ toString r.players ++ " players (" ++ toString r.computerPlayers ++ " AI), " ++
            toString r.territories ++ " territories, " ++ toString r.kinds ++ " unit types") ::
          r.warnings.map ("WARN: " ++ ·)) }
  | .error f => .ofFault "FAIL: " f

end Scenario

/-- Runs a command on what its scenario file holds. `entropy` seeds a pass that has no seed. -/
def Command.run (c : Command) (contents : FileContents) (entropy : Nat) : Outcome :=
  match Scenario.ofFile c.scenarioPath contents with
  | .error f => .finished (.failure ("Failed to load scenario: " ++ f.message))
  | .ok s =>
    match c with
    | .plan _ player seed => .finished (s.planReport player seed entropy)
    | .batch _ config output =>
      match Batch.run s config with
      | .error step => .finished (.stopped step)
      | .ok results => .saving output results (results.report output)
    | .validate _ => .finished s.reviewReport

end Quartermaster
