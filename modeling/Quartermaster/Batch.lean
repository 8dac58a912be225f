import Quartermaster.Json.Reader
import Quartermaster.PassRecord

/-!
# Batches of passes

A batch plans every computer player of a scenario for a run of seeds. A pass that fails is kept
with its reason; the others are summed up by player. A pass that overflows takes the whole batch
with it.
-/

namespace Quartermaster

structure BatchConfig where
  /-- The passes for each player. -/
  runs : Nat := 100
  seedStart : Nat := 0
  /-- How many passes may run at once; zero leaves it open. The results do not depend on it. -/
  parallel : Nat := 0
deriving DecidableEq, Repr

/-- A pass that failed. -/
structure BatchFailure where
  player : PlayerId
  seed : Nat
  message : String
deriving DecidableEq, Repr

structure BatchResults where
  scenario : String
  config : BatchConfig
  plans : List PassRecord
  players : SortedMap PlayerId PlayerSummary
  durationSeconds : Binary64 := .zero
  failures : List BatchFailure
deriving DecidableEq

namespace Batch

/-- Seeds follow each other around the numbers of 64 bits. -/
def seedBound : Nat := wordValues 64

/-- The passes of a batch: each player with each seed. -/
def jobs (players : List PlayerId) (config : BatchConfig) : List (PlayerId × Nat) :=
  players.flatMap fun p =>
    (List.range config.runs).map fun i => (p, (config.seedStart + i) % seedBound)

/-- One pass of a batch: its record, or its failure. -/
def runJob (s : Scenario) (job : PlayerId × Nat) :
    Except Overflow (Except BatchFailure PassRecord) :=
  match s.runPlan job.1 (some job.2) 0 with
  | .ok plan => .ok (.ok (.ofPlan s.snapshot plan job.2))
  | .error (.overflow step) => .error step
  | .error f => .ok (.error { player := job.1, seed := job.2, message := f.message })

/-- The passes that succeeded and those that failed, each in order. -/
def split : List (Except BatchFailure PassRecord) → List PassRecord × List BatchFailure
  | [] => ([], [])
  | r :: rs =>
    let (plans, failures) := split rs
    match r with
    | .ok plan => (plan :: plans, failures)
    | .error failure => (plans, failure :: failures)

/-- The results of a batch, unless a pass of it overflows; of several such passes the first tells
how. -/
def run (s : Scenario) (config : BatchConfig) : Except Overflow BatchResults := do
  let (plans, failures) := split (← (jobs s.computerPlayers config).mapM (runJob s))
  return { scenario := s.name, config, plans, players := PlayerSummary.ofAll plans, failures }

end Batch

/-! ## Stored form -/

namespace Archive

/-- Names, as keys of an object. -/
def nameKey : KeySchema String := { Schema.text with toName := id, ofName := some }

def passRecord : Schema PassRecord :=
  (Schema.record "PlanMetrics" <|
    .field "player" (.natural shortWidth) <|
    .field "seed" count <|
    .field "units" (.map nameKey quantity) <|
    .field "spent" amount <|
    .field "territories_used" count .done).via
  (fun (player, seed, pieces, spent, territoriesUsed, _) =>
    { player := ⟨player⟩, seed, pieces, spent, territoriesUsed })
  (fun r => (r.player.number, r.seed, r.pieces, r.spent, r.territoriesUsed, ()))

def batchConfig : Schema BatchConfig :=
  (Schema.record "BatchConfig" <|
    .field "runs" quantity <|
    .field "seed_start" count <|
    .field "parallel" quantity .done).via
  (fun (runs, seedStart, parallel, _) => { runs, seedStart, parallel })
  (fun c => (c.runs, c.seedStart, c.parallel, ()))

def batchFailure : Schema BatchFailure :=
  (Schema.record "BatchError" <|
    .field "player" (.natural shortWidth) <|
    .field "seed" count <|
    .field "message" .text .done).via
  (fun (player, seed, message, _) => { player := ⟨player⟩, seed, message })
  (fun f => (f.player.number, f.seed, f.message, ()))

instance : Stored PassRecord := ⟨passRecord⟩
instance : Stored BatchConfig := ⟨batchConfig⟩
instance : Stored BatchFailure := ⟨batchFailure⟩

end Archive

namespace PlayerSummary

/-- The sums by name are numbers of 64 bits. -/
def sums : Archive.Schema (SortedMap String Nat) := .map Archive.nameKey Archive.count

def toJson (s : PlayerSummary) : Json := .object [
  ("plans", Archive.quantity.toJson s.plans),
  ("units", sums.toJson s.pieces),
  ("frequencies", .object (s.frequencies.entries.map fun e => (e.1, .real e.2))),
  ("mean_spent", .real s.meanSpent),
  ("mean_units", .real s.meanPieces)]

/-- A number of any sort, rounded. -/
def readReal : Json → Option Binary64
  | .real x => some x
  | .integer n => some (.ofInt n)
  | _ => none

def ofJson : Json → Option PlayerSummary
  | .object members => do
    let frequencies ← match ← Json.member? "frequencies" members with
      | .object fs => fs.mapM fun e => do return (e.1, ← readReal e.2)
      | _ => none
    return {
      plans := ← (Json.member? "plans" members).bind Archive.quantity.ofJson
      pieces := ← (Json.member? "units" members).bind sums.ofJson
      frequencies := .ofList frequencies
      meanSpent := ← (Json.member? "mean_spent" members).bind readReal
      meanPieces := ← (Json.member? "mean_units" members).bind readReal }
  | _ => none

end PlayerSummary

namespace BatchResults

def toJson (r : BatchResults) : Json := .object [
  ("scenario", .text r.scenario),
  ("config", Archive.batchConfig.toJson r.config),
  ("plans", (Archive.Schema.list Archive.passRecord).toJson r.plans),
  ("players", .object (r.players.entries.map fun e => (toString e.1.number, e.2.toJson))),
  ("duration_seconds", .real r.durationSeconds),
  ("errors", (Archive.Schema.list Archive.batchFailure).toJson r.failures)]

def ofJson : Json → Option BatchResults
  | .object members => do
    let players ← match ← Json.member? "players" members with
      | .object ps => ps.mapM fun e => do
        return (← Archive.playerId.ofName e.1, ← PlayerSummary.ofJson e.2)
      | _ => none
    return {
      scenario := ← (Json.member? "scenario" members).bind Archive.Schema.text.ofJson
      config := ← (Json.member? "config" members).bind Archive.batchConfig.ofJson
      plans := ← (Json.member? "plans" members).bind (Archive.Schema.list Archive.passRecord).ofJson
      players := .ofList players
      durationSeconds := ← (Json.member? "duration_seconds" members).bind PlayerSummary.readReal
      failures := ←
        (Json.member? "errors" members).bind (Archive.Schema.list Archive.batchFailure).ofJson }
  | _ => none

/-- The text of a results file. -/
def toText (r : BatchResults) : String := r.toJson.pretty

/-- The results in a file. -/
def ofText? (text : String) : Option BatchResults := (Json.parse? text).bind ofJson

end BatchResults

end Quartermaster
