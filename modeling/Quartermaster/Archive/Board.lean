import Quartermaster.Archive.Schema
import Quartermaster.Planner

/-!
# Stored forms of the board

The schemas of everything that a snapshot holds, and of what a plan made of it holds. The tally
of a territory is not stored; it is taken anew when a territory is read.
-/

namespace Quartermaster.Archive

/-! ## Identifiers and amounts -/

/-- The width of most numbers. -/
def shortWidth : Nat := 4

def resourceId : KeySchema ResourceId := identSchema "ResourceId" .resource shortWidth
def kindId : KeySchema KindId := identSchema "UnitTypeId" .pieceKind shortWidth
def pieceId : KeySchema PieceId := identSchema "UnitId" .piece wordWidth
def territoryId : KeySchema TerritoryId := identSchema "TerritoryId" .territory shortWidth
def playerId : KeySchema PlayerId := identSchema "PlayerId" .player shortWidth

/-- Amounts and statistics. -/
def amount : Schema Int := .integer shortWidth

/-- Counts of pieces in a batch. -/
def quantity : Schema Nat := .natural shortWidth

/-- Counts of pieces on the board. -/
def count : Schema Nat := .natural wordWidth

def fixed : Schema Fixed := (Schema.integer wordWidth).via Fixed.mk Fixed.bits

def holdings : Schema Holdings :=
  (Schema.wrapped "ResourceCollection" (.map resourceId amount)).via Holdings.mk Holdings.amounts

/-! ## Pieces -/

def domain : Schema Domain :=
  .choice [.plain "Land" .land, .plain "Sea" .sea, .plain "Air" .air]
    (fun | .land => 0 | .sea => 1 | .air => 2) (fun _ => 0)

def buildLimit : Schema BuildLimit :=
  .choice [.plain "Unlimited" .unlimited, .plain "Forbidden" .forbidden, .counted "AtMost" .atMost]
    (fun | .unlimited => 0 | .forbidden => 1 | .atMost _ => 2)
    (fun | .atMost n => n | _ => 0)

def capacity : Schema Capacity :=
  .choice [.counted "Limited" .limited, .plain "Unlimited" .unlimited]
    (fun | .limited _ => 0 | .unlimited => 1)
    (fun | .limited n => n | .unlimited => 0)

def pieceKind : Schema PieceKind :=
  (Schema.record "UnitType" <|
    .field "id" kindId.toSchema <|
    .field "name" .text <|
    .fieldOr "domain" domain .land <|
    .fieldOr "attack" amount 0 <|
    .fieldOr "defense" amount 0 <|
    .fieldOr "movement" amount 1 <|
    .fieldOr "hit_points" amount 1 <|
    .fieldOr "can_produce_units" .bool false <|
    .fieldOr "can_produce_x_units" (.optional amount) none <|
    .fieldOr "transport_capacity" amount 0 <|
    .fieldOr "can_bombard" .bool false <|
    .fieldOr "max_built_per_player" buildLimit .unlimited <|
    .fieldOr "value" amount 0 .done).via
  (fun (id, name, domain, attack, defense, movement, hitPoints, isFactory, fixedOutput,
      transportCapacity, canBombard, buildLimit, value, _) =>
    { id, name, domain, attack, defense, movement, hitPoints, isFactory, fixedOutput,
      transportCapacity, canBombard, buildLimit, value })
  (fun k => (k.id, k.name, k.domain, k.attack, k.defense, k.movement, k.hitPoints, k.isFactory,
    k.fixedOutput, k.transportCapacity, k.canBombard, k.buildLimit, k.value, ()))

def roster : Schema Roster :=
  (Schema.record "UnitTypeRegistry" <| .field "types" (.map kindId pieceKind) .done).via
    (fun (kinds, _) => ⟨kinds⟩) (fun r => (r.kinds, ()))

def piece : Schema Piece :=
  (Schema.record "Unit" <|
    .field "id" pieceId.toSchema <|
    .field "unit_type" kindId.toSchema <|
    .field "owner" playerId.toSchema <|
    .fieldOr "original_owner" (.optional playerId.toSchema) none <|
    .fieldOr "transported_by" (.optional pieceId.toSchema) none <|
    .fieldOr "damage" amount 0 .done).via
  (fun (id, kind, owner, firstOwner, carrier, damage, _) =>
    { id, kind, owner, firstOwner, carrier, damage })
  (fun p => (p.id, p.kind, p.owner, p.firstOwner, p.carrier, p.damage, ()))

def stack : Schema Stack :=
  (Schema.record "UnitCollection" <| .field "units" (.list piece) .done).via
    (fun (pieces, _) => ⟨pieces⟩) (fun s => (s.pieces, ()))

/-! ## Territories and players -/

def site : Schema Site :=
  (Schema.record "TerritoryAttachment" <|
    .fieldOr "production" amount 0 <|
    .fieldOr "original_factory" .bool false <|
    .fieldOr "original_owner" (.optional playerId.toSchema) none <|
    .fieldOr "victory_city" .bool false <|
    .fieldOr "impassable" .bool false .done).via
  (fun (production, originalFactory, originalOwner, victoryCity, impassable, _) =>
    { production, originalFactory, originalOwner, victoryCity, impassable })
  (fun s => (s.production, s.originalFactory, s.originalOwner, s.victoryCity, s.impassable, ()))

def territoryRecord : Schema TerritoryRecord :=
  (Schema.record "TerritoryRecord" <|
    .field "id" territoryId.toSchema <|
    .field "name" .text <|
    .field "is_water" .bool <|
    .fieldOr "owner" (.optional playerId.toSchema) none <|
    .fieldOr "neighbors" (.set territoryId.toSchema) .empty <|
    .fieldOr "conquered_this_turn" .bool false <|
    .fieldOr "attachment" (.optional site) none <|
    .fieldOr "units" stack .empty .done).via
  (fun (id, name, isWater, owner, neighbors, conqueredThisTurn, site, stack, _) =>
    { id, name, isWater, owner, neighbors, conqueredThisTurn, site, stack })
  (fun r => (r.id, r.name, r.isWater, r.owner, r.neighbors, r.conqueredThisTurn, r.site, r.stack,
    ()))

def territory : Schema Territory := territoryRecord.via .ofRecord Territory.toRecord

def productionRule : Schema ProductionRule :=
  (Schema.record "ProductionRule" <|
    .field "name" .text <|
    .field "costs" holdings <|
    .field "results" (.map kindId quantity) .done).via
  (fun (name, costs, results, _) => { name, costs, results })
  (fun r => (r.name, r.costs, r.results, ()))

def playerRules : Schema PlayerRules :=
  (Schema.record "RulesAttachment" <|
    .fieldOr "placement_any_territory" .bool false <|
    .fieldOr "max_place_per_territory" (.optional amount) none <|
    .fieldOr "placement_restrictions" (.set territoryId.toSchema) .empty <|
    .fieldOr "movement_restrictions" (.set territoryId.toSchema) .empty .done).via
  (fun (placesAnywhere, placementCap, placementBans, movementBans, _) =>
    { placesAnywhere, placementCap, placementBans, movementBans })
  (fun r => (r.placesAnywhere, r.placementCap, r.placementBans, r.movementBans, ()))

def techs : Schema Techs :=
  (Schema.record "TechAdvances" <|
    .fieldOr "increased_factory_production" .bool false .done).via
  (fun (increasedProduction, _) => { increasedProduction })
  (fun t => (t.increasedProduction, ()))

def player : Schema Player :=
  (Schema.record "Player" <|
    .field "id" playerId.toSchema <|
    .field "name" .text <|
    .fieldOr "is_ai" .bool false <|
    .fieldOr "resources" holdings .empty <|
    .fieldOr "production_frontier" (.list productionRule) [] <|
    .fieldOr "rules" (.optional playerRules) none <|
    .fieldOr "techs" techs {} .done).via
  (fun (id, name, isComputer, holdings, frontier, rules, techs, _) =>
    { id, name, isComputer, holdings, frontier, rules, techs })
  (fun p => (p.id, p.name, p.isComputer, p.holdings, p.frontier, p.rules, p.techs, ()))

def snapshot : Schema Snapshot :=
  (Schema.record "GameSnapshot" <|
    .fieldOr "round" quantity 0 <|
    .fieldOr "resource_names" (.map resourceId .text) .empty <|
    .fieldOr "unit_types" roster .empty <|
    .fieldOr "players" (.map playerId player) .empty <|
    .fieldOr "territories" (.map territoryId territory) .empty <|
    .fieldOr "alliances" (.list (.set playerId.toSchema)) [] .done).via
  (fun (round, resourceNames, roster, players, territories, alliances, _) =>
    { round, resourceNames, roster, players, territories, alliances })
  (fun s => (s.round, s.resourceNames, s.roster, s.players, s.territories, s.alliances, ()))

/-! ## Planning -/

def plannerConfig : Schema PlannerConfig :=
  (Schema.record "PlannerConfig" <|
    .fieldOr "seed" (.optional count) none <|
    .fieldOr "currency" resourceId.toSchema .productionUnits <|
    .fieldOr "randomize" .bool true <|
    .fieldOr "max_iterations" quantity 1000 .done).via
  (fun (seed, currency, randomize, maxRounds, _) => { seed, currency, randomize, maxRounds })
  (fun c => (c.seed, c.currency, c.randomize, c.maxRounds, ()))

def offer : Schema Offer :=
  (Schema.record "PurchaseOption" <|
    .field "rule_name" .text <|
    .field "unit_type" kindId.toSchema <|
    .field "quantity" quantity <|
    .field "costs" holdings <|
    .field "cost" amount <|
    .field "max_built_per_player" buildLimit <|
    .field "attack_efficiency" fixed <|
    .field "defense_efficiency" fixed <|
    .field "attack" amount <|
    .field "defense" amount <|
    .field "movement" amount <|
    .field "hit_points" amount <|
    .field "domain" domain <|
    .field "is_factory" .bool <|
    .field "transport_capacity" amount <|
    .field "can_bombard" .bool .done).via
  (fun (ruleName, kind, quantity, costs, cost, buildLimit, attackEfficiency, defenseEfficiency,
      attack, defense, movement, hitPoints, domain, isFactory, transportCapacity, canBombard, _) =>
    { ruleName, kind, quantity, costs, cost, buildLimit, attackEfficiency, defenseEfficiency,
      attack, defense, movement, hitPoints, domain, isFactory, transportCapacity, canBombard })
  (fun o => (o.ruleName, o.kind, o.quantity, o.costs, o.cost, o.buildLimit, o.attackEfficiency,
    o.defenseEfficiency, o.attack, o.defense, o.movement, o.hitPoints, o.domain, o.isFactory,
    o.transportCapacity, o.canBombard, ()))

def catalog : Schema Catalog :=
  (Schema.record "PurchaseOptionMap" <|
    .field "land" (.list offer) <|
    .field "air" (.list offer) <|
    .field "sea" (.list offer) <|
    .field "factory" (.list offer) .done).via
  (fun (land, air, sea, factory, _) => { land, air, sea, factory })
  (fun c => (c.land, c.air, c.sea, c.factory, ()))

def ledger : Schema Ledger :=
  (Schema.record "ResourceTracker" <|
    .field "resources" holdings <|
    .field "temp_purchases" holdings <|
    .field "spent" holdings .done).via
  (fun (holdings, reserved, spent, _) => { holdings, reserved, spent })
  (fun l => (l.holdings, l.reserved, l.spent, ()))

def census : Schema Census :=
  (Schema.record "BuildTally" <| .field "counts" (.map kindId count) .done).via
    (fun (counts, _) => ⟨counts⟩) (fun c => (c.counts, ()))

def place : Schema Place :=
  (Schema.record "PlaceTerritory" <|
    .field "territory" territoryId.toSchema <|
    .field "is_water" .bool <|
    .field "place_units" (.list piece) .done).via
  (fun (territory, isWater, queue, _) => { territory, isWater, queue })
  (fun p => (p.territory, p.isWater, p.queue, ()))

def yard : Schema Yard :=
  (Schema.record "PurchaseTerritory" <|
    .field "territory" territoryId.toSchema <|
    .field "capacity" capacity <|
    .field "remaining" capacity <|
    .field "place_territories" (.list place) .done).via
  (fun (territory, capacity, remaining, places, _) => { territory, capacity, remaining, places })
  (fun y => (y.territory, y.capacity, y.remaining, y.places, ()))

def yards : Schema Yards := .map territoryId yard

def transportOption : Schema TransportOption :=
  (Schema.record "TransportOption" <|
    .field "transport" pieceId.toSchema <|
    .field "sea_zone" territoryId.toSchema <|
    .field "load_from" (.set territoryId.toSchema) .done).via
  (fun (transport, seaZone, loadFrom, _) => { transport, seaZone, loadFrom })
  (fun t => (t.transport, t.seaZone, t.loadFrom, ()))

/-- Destinations by piece. -/
def destinations : Schema (SortedMap PieceId (SortedSet TerritoryId)) :=
  .map pieceId (.set territoryId.toSchema)

def moveOptions : Schema MoveOptions :=
  (Schema.record "MoveOptions" <|
    .field "territory_map" yards <|
    .field "unit_move_map" destinations <|
    .field "transport_move_map" destinations <|
    .field "bombard_map" destinations <|
    .field "transport_list" (.list transportOption) .done).via
  (fun (yards, moves, transportMoves, bombardments, transports, _) =>
    { yards, moves, transportMoves, bombardments, transports })
  (fun m => (m.yards, m.moves, m.transportMoves, m.bombardments, m.transports, ()))

def plan : Schema Plan :=
  (Schema.record "PurchasePlan" <|
    .field "player" playerId.toSchema <|
    .field "purchase_territories" yards <|
    .field "move_options" moveOptions <|
    .field "purchased" (.map kindId quantity) <|
    .field "spent" holdings .done).via
  (fun (player, yards, moveOptions, purchased, spent, _) =>
    { player, yards, moveOptions, purchased, spent })
  (fun p => (p.player, p.yards, p.moveOptions, p.purchased, p.spent, ()))

/-! ## By type -/

instance : Stored ResourceId := ⟨resourceId.toSchema⟩
instance : Stored KindId := ⟨kindId.toSchema⟩
instance : Stored PieceId := ⟨pieceId.toSchema⟩
instance : Stored TerritoryId := ⟨territoryId.toSchema⟩
instance : Stored PlayerId := ⟨playerId.toSchema⟩
instance : Stored Fixed := ⟨fixed⟩
instance : Stored Holdings := ⟨holdings⟩
instance : Stored Domain := ⟨domain⟩
instance : Stored BuildLimit := ⟨buildLimit⟩
instance : Stored Capacity := ⟨capacity⟩
instance : Stored PieceKind := ⟨pieceKind⟩
instance : Stored Roster := ⟨roster⟩
instance : Stored Piece := ⟨piece⟩
instance : Stored Stack := ⟨stack⟩
instance : Stored Site := ⟨site⟩
instance : Stored Territory := ⟨territory⟩
instance : Stored ProductionRule := ⟨productionRule⟩
instance : Stored PlayerRules := ⟨playerRules⟩
instance : Stored Techs := ⟨techs⟩
instance : Stored Player := ⟨player⟩
instance : Stored Snapshot := ⟨snapshot⟩
instance : Stored PlannerConfig := ⟨plannerConfig⟩
instance : Stored Offer := ⟨offer⟩
instance : Stored Catalog := ⟨catalog⟩
instance : Stored Ledger := ⟨ledger⟩
instance : Stored Census := ⟨census⟩
instance : Stored Place := ⟨place⟩
instance : Stored Yard := ⟨yard⟩
instance : Stored Yards := ⟨yards⟩
instance : Stored TransportOption := ⟨transportOption⟩
instance : Stored MoveOptions := ⟨moveOptions⟩
instance : Stored Plan := ⟨plan⟩

end Quartermaster.Archive
