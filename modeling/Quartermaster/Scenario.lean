import Quartermaster.Archive.Snapshot
import Quartermaster.Archive.Text.Printer
import Quartermaster.Json.Printer

/-!
# Scenarios

A scenario is a snapshot with a name and, perhaps, the settings to plan it with. It is stored in
the text form. `Scenario.review` checks it before anyone plans with it.
-/

namespace Quartermaster

structure Scenario where
  name : String
  description : String := ""
  snapshot : Snapshot
  planner : Option PlannerConfig := none
deriving DecidableEq

/-- What goes wrong with a scenario. -/
inductive ScenarioFault where
  | fileNotFound (path : String)
  | unreadable (reason : String)
  | malformed
  | invalid (fault : Fault)
  | overflow (step : Overflow)
deriving DecidableEq, Repr

def ScenarioFault.message : ScenarioFault → String
  | .fileNotFound path => "Scenario file not found: " ++ path
  | .unreadable reason => "Failed to read scenario file: " ++ reason
  | .malformed => "Failed to parse scenario: not a scenario"
  | .invalid fault => "Scenario is invalid: " ++ fault.message
  | .overflow step => step.message

/-- A fault met while planning makes the scenario invalid, but for an overflow, which is not the
scenario's. -/
def ScenarioFault.ofFault : Fault → ScenarioFault
  | .overflow step => .overflow step
  | fault => .invalid fault

instance : MonadLift (Except Fault) (Except ScenarioFault) := ⟨Except.mapError .ofFault⟩

/-- What was found under the path of a file. -/
inductive FileContents where
  | missing
  | unreadable (reason : String)
  | text (contents : String)
deriving DecidableEq, Repr

namespace Scenario

def schema : Archive.Schema Scenario :=
  (Archive.Schema.record "Scenario" <|
    .field "name" .text <|
    .fieldOr "description" .text "" <|
    .field "snapshot" Archive.snapshot <|
    .fieldOr "planner" (.optional Archive.plannerConfig) none .done).via
  (fun (name, description, snapshot, planner, _) => { name, description, snapshot, planner })
  (fun s => (s.name, s.description, s.snapshot, s.planner, ()))

instance : Archive.Stored Scenario := ⟨schema⟩

/-- The text of a scenario file. -/
def toText (s : Scenario) : String := Archive.Text.print (schema.toNode s)

def ofText (text : String) : Except ScenarioFault Scenario :=
  match schema.ofText? text with
  | some s => .ok s
  | none => .error .malformed

/-- The scenario in a file. -/
def ofFile (path : String) : FileContents → Except ScenarioFault Scenario
  | .missing => .error (.fileNotFound path)
  | .unreadable reason => .error (.unreadable reason)
  | .text contents => ofText contents

/-- The settings to plan with; a seed overrides the scenario's. -/
def plannerConfig (s : Scenario) (seed : Option Nat) : PlannerConfig :=
  let config := s.planner.getD {}
  { config with seed := seed.or config.seed }

/-- The players whom the computer plays. -/
def computerPlayers (s : Scenario) : List PlayerId :=
  (s.snapshot.players.values.filter Player.isComputer).map Player.id

/-! ## Planning -/

/-- Plans one pass for a player. `entropy` seeds a pass that has no seed. -/
def runPlan (s : Scenario) (player : PlayerId) (seed : Option Nat) (entropy : Nat) :
    Except ScenarioFault Plan :=
  let planner := Planner.ofConfig (s.plannerConfig seed) entropy
  (planner.plan s.snapshot (.ofRules s.snapshot) player).1.mapError .ofFault

/-- The plan of a pass as text. -/
def planText (s : Scenario) (player : PlayerId) (seed : Option Nat) (entropy : Nat) :
    Except ScenarioFault String := do
  return (Archive.plan.toJson (← s.runPlan player seed entropy)).pretty

/-! ## Review -/

/-- What a review counted, and what it found odd. -/
structure Review where
  players : Nat
  territories : Nat
  kinds : Nat
  computerPlayers : Nat
  warnings : List String
deriving DecidableEq, Repr

def Review.isClean (r : Review) : Bool := r.warnings.isEmpty

/-- What is odd about a computer player who can never buy anything. -/
def playerWarnings (s : Snapshot) (id : PlayerId) : Except Fault (List String) := do
  let player ← s.player id
  let who := player.name ++ " (" ++ id.label ++ ")"
  let frontier :=
    if player.frontier.isEmpty then [who ++ " has an empty production frontier"] else []
  let yards ← Planner.findYards s id
  let places :=
    if yards.isEmpty then [who ++ " has no territory to place units in"] else []
  return frontier ++ places

/-- Checks that every reference leads somewhere, and that every computer player can buy. -/
def review (s : Scenario) : Except ScenarioFault Review := do
  s.snapshot.validate
  let players := s.computerPlayers
  let warnings ← (players.mapM (playerWarnings s.snapshot) : Except Fault _)
  return {
    players := s.snapshot.players.size
    territories := s.snapshot.territories.size
    kinds := s.snapshot.roster.size
    computerPlayers := players.length
    warnings := warnings.flatten }

end Scenario

end Quartermaster
