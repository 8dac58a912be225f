import Quartermaster.CommandLine

/-!
# The program

Reads the arguments and the scenario file, runs the command, saves and prints what it answers.
-/

namespace Quartermaster

/-- The reason of a failure, as the system words it. -/
def failureReason (e : IO.Error) : String :=
  match e with
  | .alreadyExists _ code _ => "File exists (os error " ++ toString code ++ ")"
  | .inappropriateType _ code _ =>
    (if code = 20 then "Not" else "Is") ++ " a directory (os error " ++ toString code ++ ")"
  | .permissionDenied _ code _ => "Permission denied (os error " ++ toString code ++ ")"
  | .noFileOrDirectory _ code _ => "No such file or directory (os error " ++ toString code ++ ")"
  | e => toString e

def readScenario (path : String) : IO FileContents := do
  try
    return .text (← IO.FS.readFile path)
  catch
    | .noFileOrDirectory .. => return .missing
    | e => return .unreadable (failureReason e)

/-- The folder of a path; a path without one is in the present folder. -/
def folderOf (path : String) : String :=
  let folder := (path.toList.reverse.dropWhile (· == '/')).dropWhile (· != '/')
  String.ofList folder.reverse

/-- Writes results to a file, whose folder is made if need be; gives the reason of a failure. -/
def saveResults (path : String) (results : BatchResults) : IO (Option String) := do
  try
    if !(folderOf path).isEmpty then IO.FS.createDirAll (folderOf path)
    IO.FS.writeFile path results.toText
    return none
  catch e => return some (failureReason e)

/-- A number of 64 bits that nobody can foresee. -/
def entropy : IO Nat := do
  return (← IO.getRandomBytes 8).foldl (fun n b => n * 256 + b.toNat) 0

/-- Runs a command and reports. -/
def perform (command : Command) : IO Report := do
  let contents ← readScenario command.scenarioPath
  let start ← IO.monoMsNow
  match command.run contents (← entropy) with
  | .finished report => return report
  | .saving path results report =>
    let elapsed := (← IO.monoMsNow) - start
    let durationSeconds := Binary64.ofQuotient false elapsed 1000
    return report (← saveResults path { results with durationSeconds })

/-- Runs the program and gives the code that it ends with. -/
def runProgram (args : List String) : IO UInt32 := do
  let report ← match Invocation.ofArguments args with
    | some (.command command) => perform command
    | some .version => pure .version
    | none => pure .usage
  (← IO.getStdout).putStr report.out
  (← IO.getStderr).putStr report.err
  return UInt32.ofNat report.code

end Quartermaster

def main (args : List String) : IO UInt32 := Quartermaster.runProgram args
