import Quartermaster.Checked
import Quartermaster.Holdings

/-!
# Players

What a player holds, what it may buy, and the rules that apply to it alone.
-/

namespace Quartermaster

/-- One entry of a player's frontier: pieces for a price. -/
structure ProductionRule where
  name : String
  costs : Holdings
  /-- The pieces of each kind that one purchase makes. -/
  results : SortedMap KindId Nat
deriving DecidableEq

namespace ProductionRule

/-- The pieces of a kind that one purchase makes. -/
def quantityOf (r : ProductionRule) (kind : KindId) : Nat := (r.results.get? kind).getD 0

/-- The pieces of all kinds that one purchase makes, if a word can count them. -/
def totalResults (r : ProductionRule) : Except Fault Nat := Checked.sum r.results.values

/-- The lowest kind that the rule really makes. -/
def firstResult? (r : ProductionRule) : Option KindId :=
  (r.results.entries.find? fun e => decide (0 < e.2)).map Prod.fst

end ProductionRule

/-- Rules for one player that override the common ones. -/
structure PlayerRules where
  /-- Whether the player may place pieces in any territory it owns. -/
  placesAnywhere : Bool := false
  /-- A cap on the pieces placed in one territory. -/
  placementCap : Option Int := none
  /-- Where the player may not place pieces. -/
  placementBans : SortedSet TerritoryId := .empty
  /-- Where the player's pieces may not go. -/
  movementBans : SortedSet TerritoryId := .empty
deriving DecidableEq, Inhabited

/-- Technologies that bear on production. -/
structure Techs where
  /-- Factories in territories of some worth make two more pieces. -/
  increasedProduction : Bool := false
deriving DecidableEq, Repr, Inhabited

structure Player where
  id : PlayerId
  name : String
  isComputer : Bool := false
  holdings : Holdings := .empty
  /-- What the player may buy. -/
  frontier : List ProductionRule := []
  rules : Option PlayerRules := none
  techs : Techs := {}
deriving DecidableEq

namespace Player

def placesAnywhere (p : Player) : Bool := p.rules.any PlayerRules.placesAnywhere

def placementCap (p : Player) : Option Int := p.rules.bind PlayerRules.placementCap

def isPlacementBanned (p : Player) (t : TerritoryId) : Bool :=
  p.rules.any fun r => r.placementBans.contains t

def isMovementBanned (p : Player) (t : TerritoryId) : Bool :=
  p.rules.any fun r => r.movementBans.contains t

/-- The first rule of the frontier that makes a kind of piece. -/
def ruleFor? (p : Player) (kind : KindId) : Option ProductionRule :=
  p.frontier.find? fun r => decide (0 < r.quantityOf kind)

end Player

end Quartermaster
