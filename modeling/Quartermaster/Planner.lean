import Quartermaster.Arbiter
import Quartermaster.Census
import Quartermaster.MoveOptions
import Quartermaster.Selection

/-!
# Planning purchases

A pass decides what a computer player buys and where it goes. It opens a yard in every territory
that can make pieces; fills each yard's own land with land and air batches; then fills the sea
zones beside them with ships from what capacity is left. In every round the offers are cut to
those that can be bought, tried with the arbiter, scored by what the yard needs, and one of them
is chosen, at random by score or simply the best.

The snapshot is only read. What a planner keeps from one pass to the next is its generator and
the source of temporary pieces, which move on even in a pass that fails.
-/

namespace Quartermaster

/-- The settings of a planner. -/
structure PlannerConfig where
  /-- The seed of the generator; without one the planner is given one. -/
  seed : Option Nat := none
  /-- The currency in which offers are scored. -/
  currency : ResourceId := .productionUnits
  /-- Whether to choose at random by score rather than take the best. -/
  randomize : Bool := true
  /-- The most batches that are bought for one place. -/
  maxRounds : Nat := 1000
deriving DecidableEq, Repr

namespace PlannerConfig

def seeded (seed : Nat) : PlannerConfig := { seed := some seed }

/-- Always takes the best. -/
def deterministic (c : PlannerConfig) : PlannerConfig := { c with randomize := false }

/-- The generator of the configured seed, or else of the one given. -/
def generator (c : PlannerConfig) (entropy : Nat) : Generator := .ofSeed (c.seed.getD entropy)

end PlannerConfig

/-- What a yard buys for. -/
inductive Role where
  | attack
  | defense
deriving DecidableEq, Repr

/-- The score of an offer for a role. -/
def Role.efficiency : Role → Offer → Fixed
  | .attack, o => o.attackEfficiency
  | .defense, o => o.defenseEfficiency

/-- The outcome of a pass. -/
structure Plan where
  player : PlayerId
  /-- The yards with what is queued in them. -/
  yards : Yards
  moveOptions : MoveOptions
  /-- The pieces bought of each kind. -/
  purchased : SortedMap KindId Nat
  spent : Holdings
deriving DecidableEq

namespace Plan

/-- All pieces bought, counted exactly. -/
def totalPieces (p : Plan) : Nat := p.purchased.values.foldr (· + ·) 0

/-- Every queued piece, by yard and place. -/
def queued (p : Plan) : List Piece := p.yards.queued

/-- Adds limits to a total, up to the first capacity without one. -/
def addLimits (total : Nat) : List Capacity → Except Fault (Option Nat)
  | [] => .ok (some total)
  | .unlimited :: _ => .ok none
  | .limited n :: rest => do addLimits (← Checked.addCounts total n) rest

/-- The capacity that no piece uses, unless that of some yard is unlimited. -/
def remainingCapacity (p : Plan) : Except Fault (Option Nat) :=
  addLimits 0 (p.yards.values.map Yard.remaining)

end Plan

/-- What changes in the course of a pass. -/
structure Pass where
  player : PlayerId
  ledger : Ledger
  census : Census
  yards : Yards
deriving DecidableEq

/-- A planner: its settings, and what it uses up. -/
structure Planner where
  config : PlannerConfig
  generator : Generator
  source : PieceSource := .temporary
deriving DecidableEq

namespace Planner

def ofConfig (config : PlannerConfig) (entropy : Nat) : Planner :=
  { config, generator := config.generator entropy }

/-! ## Yards -/

/-- The yard in one territory, if pieces can be bought there. Who may not place anywhere needs a
factory on unconquered land, and the player's land pieces must be able to go there. -/
def yardIn? (s : Snapshot) (player : PlayerId) (placesAnywhere : Bool) (t : Territory) :
    Except Fault (Option Yard) := do
  if !placesAnywhere then
    if !(← s.hasOwnedLandFactory t player) then return none
  if !(← s.canMoveLandPieces t.id player) then return none
  return some (← Yard.ofTerritory s t.id (← s.capacity t.id player))

/-- Opens yards in those of the listed territories where pieces can be bought. -/
def openYards (s : Snapshot) (player : PlayerId) (placesAnywhere : Bool) :
    List Territory → Yards → Except Fault Yards
  | [], yards => .ok yards
  | t :: ts, yards => do
    match ← yardIn? s player placesAnywhere t with
    | some yard => openYards s player placesAnywhere ts (yards.insert t.id yard)
    | none => openYards s player placesAnywhere ts yards

/-- The yards of a player this turn, with nothing queued. -/
def findYards (s : Snapshot) (player : PlayerId) : Except Fault Yards := do
  let placesAnywhere := (← s.player player).placesAnywhere
  openYards s player placesAnywhere (s.territoriesOwnedBy player) .empty

/-- A yard beside enemy land buys for defence. -/
def roleOf (s : Snapshot) (territory : TerritoryId) (player : PlayerId) : Except Fault Role := do
  let around ← s.neighbors territory
  if around.any fun n => !n.isWater && s.isEnemyTerritory n player then return .defense
  else return .attack

/-! ## Rounds -/

/-- Chooses from a table as the settings say. -/
def choose {κ : Type} (table : Selection.Table κ) (p : Planner) : Except Fault κ × Planner :=
  if p.config.randomize then
    let (key, g) := Selection.weighted table p.generator
    (key, { p with generator := g })
  else (Selection.best table, p)

/-- The batches of positive score, with their scores. -/
def scored (role : Role) (batches : List (Offer × List Piece)) :
    Selection.Table (Offer × List Piece) :=
  (batches.map fun b => (b, role.efficiency b.1)).filter fun e => decide (.zero < e.2)

/-- Buys a batch for a place of a yard. -/
def buy (yard place : TerritoryId) (batch : Offer × List Piece) (pass : Pass) :
    Except Fault Pass := do
  let ledger ← pass.ledger.purchase batch.1
  let census := pass.census.record batch.1.kind batch.2.length
  match pass.yards.get? yard with
  | none => throw (.unknownTerritory yard)
  | some y =>
    return { pass with ledger, census, yards := pass.yards.insert yard (← y.queue place batch.2) }

/-- The offers worth trying in a round: none once the yard is full. -/
def roundOffers (yard : TerritoryId) (offers : List Offer) (pass : Pass) :
    Except Fault (List Offer) :=
  match pass.yards.get? yard with
  | none => .error (.unknownTerritory yard)
  | some y =>
    .ok (if y.remaining.isExhausted then []
      else buyable offers pass.ledger y.remaining pass.census)

/-- One round for a place of a yard: buys one batch, or finds nothing to buy. -/
def round (arbiter : Arbiter) (yard place : TerritoryId) (offers : List Offer) (role : Role)
    (pass : Pass) (p : Planner) : Except Fault (Option Pass) × Planner :=
  match roundOffers yard offers pass with
  | .error f => (.error f, p)
  | .ok candidates =>
    match arbiter.permitted place pass.player (pass.yards.queuedFor place) candidates
        p.source with
    | (.error f, source) => (.error f, { p with source })
    | (.ok batches, source) =>
      let p := { p with source }
      let table := scored role batches
      if table.isEmpty then (.ok none, p)
      else match choose table p with
        | (.error f, p) => (.error f, p)
        | (.ok batch, p) => ((buy yard place batch pass).map some, p)

/-- Rounds for a place of a yard until nothing is bought, at most so many. -/
def fill (arbiter : Arbiter) (yard place : TerritoryId) (offers : List Offer) (role : Role) :
    Nat → Pass → Planner → Except Fault Pass × Planner
  | 0, pass, p => (.ok pass, p)
  | n + 1, pass, p =>
    match round arbiter yard place offers role pass p with
    | (.error f, p) => (.error f, p)
    | (.ok none, p) => (.ok pass, p)
    | (.ok (some pass), p) => fill arbiter yard place offers role n pass p

/-! ## Phases -/

/-- Fills places of a yard one after the other. -/
def fillPlaces (arbiter : Arbiter) (yard : TerritoryId) (offers : List Offer) (role : Role) :
    List TerritoryId → Pass → Planner → Except Fault Pass × Planner
  | [], pass, p => (.ok pass, p)
  | place :: places, pass, p =>
    match fill arbiter yard place offers role p.config.maxRounds pass p with
    | (.error f, p) => (.error f, p)
    | (.ok pass, p) => fillPlaces arbiter yard offers role places pass p

/-- Fills the places that `places` names for each yard, in the yard's role. -/
def phase (s : Snapshot) (arbiter : Arbiter) (offers : List Offer)
    (places : Pass → TerritoryId → List TerritoryId) :
    List TerritoryId → Pass → Planner → Except Fault Pass × Planner
  | [], pass, p => (.ok pass, p)
  | yard :: yards, pass, p =>
    match roleOf s yard pass.player with
    | .error f => (.error f, p)
    | .ok role =>
      match fillPlaces arbiter yard offers role (places pass yard) pass p with
      | (.error f, p) => (.error f, p)
      | (.ok pass, p) => phase s arbiter offers places yards pass p

/-- The sea zones that a yard feeds. -/
def seaZones (pass : Pass) (yard : TerritoryId) : List TerritoryId :=
  match pass.yards.get? yard with
  | none => []
  | some y => (y.places.filter fun p => p.isWater && p.territory != yard).map Place.territory

/-- The pass before anything is bought. -/
def openPass (s : Snapshot) (player : PlayerId) : Except Fault Pass := do
  let yards ← findYards s player
  return {
    player
    ledger := .ofPlayer (← s.player player)
    census := .ofSnapshot s player [] yards
    yards }

/-- The plan that a finished pass amounts to. -/
def toPlan (s : Snapshot) (pass : Pass) : Except Fault Plan := do
  return {
    player := pass.player
    yards := pass.yards
    moveOptions := ← MoveOptions.ofYards s pass.player pass.yards
    purchased := Stack.countBy Piece.kind pass.yards.queued
    spent := pass.ledger.spent }

/-- The land phase, then the sea phase. -/
def runPhases (s : Snapshot) (arbiter : Arbiter) (catalog : Catalog) (pass : Pass)
    (p : Planner) : Except Fault Pass × Planner :=
  let yards := pass.yards.keys
  match phase s arbiter (catalog.land ++ catalog.air) (fun _ yard => [yard]) yards pass p with
  | (.error f, p) => (.error f, p)
  | (.ok pass, p) => phase s arbiter catalog.sea seaZones yards pass p

/-- A whole pass for a player. -/
def plan (s : Snapshot) (arbiter : Arbiter) (player : PlayerId) (p : Planner) :
    Except Fault Plan × Planner :=
  match (do
      let catalog ← Catalog.ofFrontier s player p.config.currency
      return (catalog, ← openPass s player) : Except Fault (Catalog × Pass)) with
  | .error f => (.error f, p)
  | .ok (catalog, pass) =>
    match runPhases s arbiter catalog pass p with
    | (.error f, p) => (.error f, p)
    | (.ok pass, p) => (toPlan s pass, p)

/-! ## Defenders -/

/-- The affordable offer of the greatest positive score for defence; of equal ones the first. -/
def bestDefender? (ledger : Ledger) (offers : List Offer) : Option Offer :=
  offers.foldl (fun best o =>
    let bar := best.elim .zero Offer.defenseEfficiency
    if bar < o.defenseEfficiency ∧ ledger.affords o then some o else best) none

/-- Buys batches of one offer while money and capacity last, at most so many. -/
def buyRepeatedly (o : Offer) (player : PlayerId) :
    Nat → Ledger → Capacity → PieceSource → Except Fault (List Piece) × PieceSource
  | 0, _, _, source => (.ok [], source)
  | n + 1, ledger, remaining, source =>
    if ledger.affords o then
      match remaining.consume? o.quantity with
      | none => (.ok [], source)
      | some left =>
        match ledger.purchase o, o.materialize source player with
        | .error f, _ => (.error f, source)
        | .ok _, .error f => (.error f, source)
        | .ok ledger, .ok (ps, source) =>
          match buyRepeatedly o player n ledger left source with
          | (.error f, source) => (.error f, source)
          | (.ok rest, source) => (.ok (ps ++ rest), source)
    else (.ok [], source)

/-- As many batches as can be bought at all: each takes a piece of the capacity, or else a unit
of the first currency that has a positive price. -/
def purchaseBound (o : Offer) (holdings : Holdings) : Capacity → Nat
  | .limited n => n
  | .unlimited =>
    match o.costs.entries.find? fun e => decide (0 < e.2) with
    | some e => (holdings.get e.1).toNat
    | none => 0

/-- Fills a territory with the one best defender among the offers, as far as money and capacity
go. The second best is never considered. -/
def maxDefenders (s : Snapshot) (arbiter : Arbiter) (player : PlayerId)
    (territory : TerritoryId) (offers : List Offer) (p : Planner) :
    Except Fault (List Piece) × Planner :=
  match (do
      let ledger := Ledger.ofPlayer (← s.player player)
      return (ledger, ← s.capacity territory player) : Except Fault (Ledger × Capacity)) with
  | .error f => (.error f, p)
  | .ok (ledger, capacity) =>
    match arbiter.permitted territory player [] offers p.source with
    | (.error f, source) => (.error f, { p with source })
    | (.ok batches, source) =>
      match bestDefender? ledger (batches.map Prod.fst) with
      | none => (.ok [], { p with source })
      | some o =>
        let (ps, source) := buyRepeatedly o player (purchaseBound o ledger.holdings capacity)
          ledger capacity source
        (ps, { p with source })

end Planner

end Quartermaster
