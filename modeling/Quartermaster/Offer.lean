import Quartermaster.Snapshot

/-!
# Offers

An offer is one batch that a player can buy: so many pieces of one kind for a price. The catalog
sorts the offers of a frontier into four categories.

A batch is scored by its strength for each unit of the budget currency. Strength stays within
32 bits with sign; a batch without a price in that currency scores zero.
-/

namespace Quartermaster

/-- The parts of a catalog. -/
inductive Category where
  | land
  | air
  | sea
  | factory
deriving DecidableEq, Repr

structure Offer where
  /-- The production rule that the offer comes from. -/
  ruleName : String
  kind : KindId
  /-- The pieces in a batch. -/
  quantity : Nat
  /-- The price of a batch in every currency. -/
  costs : Holdings
  /-- The price of a batch in the budget currency. -/
  cost : Int
  buildLimit : BuildLimit
  attackEfficiency : Fixed
  defenseEfficiency : Fixed
  attack : Int
  defense : Int
  movement : Int
  hitPoints : Int
  domain : Domain
  isFactory : Bool
  transportCapacity : Int
  canBombard : Bool
deriving DecidableEq

/-- The greatest strength that is told apart. -/
def strengthLimit : Int := wordValues 31 - 1

/-- A strength cut to what 32 bits with sign hold. -/
def clampStrength (n : Int) : Int := max (-strengthLimit - 1) (min strengthLimit n)

/-- The strength of a batch in one of its statistics. -/
def batchStrength (stat hitPoints : Int) (quantity : Nat) : Int :=
  clampStrength (clampStrength (stat * hitPoints) * min (quantity : Int) strengthLimit)

namespace Offer

/-- The offer that a rule makes for a kind of piece, scored in a currency. -/
def ofRule (rule : ProductionRule) (kind : PieceKind) (currency : ResourceId) : Offer :=
  let quantity := rule.quantityOf kind.id
  let cost := rule.costs.get currency
  { ruleName := rule.name
    kind := kind.id
    quantity
    costs := rule.costs
    cost
    buildLimit := kind.buildLimit
    attackEfficiency := .ratio (batchStrength kind.attack kind.hitPoints quantity) cost
    defenseEfficiency := .ratio (batchStrength kind.defense kind.hitPoints quantity) cost
    attack := kind.attack
    defense := kind.defense
    movement := kind.movement
    hitPoints := kind.hitPoints
    domain := kind.domain
    isFactory := kind.isFactory
    transportCapacity := kind.transportCapacity
    canBombard := kind.canBombard }

/-- Factories are a category of their own, whatever their domain. -/
def category (o : Offer) : Category :=
  if o.isFactory then .factory
  else match o.domain with
    | .land => .land
    | .air => .air
    | .sea => .sea

/-- Makes the pieces of one batch. -/
def materialize (o : Offer) (source : PieceSource) (owner : PlayerId) :
    Except Fault (List Piece × PieceSource) :=
  source.make o.kind o.quantity owner

end Offer

/-- The offers of a player, sorted by category. -/
structure Catalog where
  land : List Offer := []
  air : List Offer := []
  sea : List Offer := []
  factory : List Offer := []
deriving DecidableEq

namespace Catalog

def empty : Catalog := {}

/-- Puts an offer at the end of its category. -/
def insert (c : Catalog) (o : Offer) : Catalog :=
  match o.category with
  | .land => { c with land := c.land ++ [o] }
  | .air => { c with air := c.air ++ [o] }
  | .sea => { c with sea := c.sea ++ [o] }
  | .factory => { c with factory := c.factory ++ [o] }

/-- The offers of one category. -/
def offers (c : Catalog) : Category → List Offer
  | .land => c.land
  | .air => c.air
  | .sea => c.sea
  | .factory => c.factory

/-- Every offer, land first. -/
def toList (c : Catalog) : List Offer := c.land ++ c.air ++ c.sea ++ c.factory

def size (c : Catalog) : Nat := c.toList.length

/-- The first offer of a kind of piece. -/
def find? (c : Catalog) (kind : KindId) : Option Offer :=
  c.toList.find? fun o => o.kind == kind

/-- Enters the offers of the rules in order. A rule that makes nothing is passed over; one that
makes several kinds is an offer of the lowest. -/
def insertRules (s : Snapshot) (currency : ResourceId) (c : Catalog) :
    List ProductionRule → Except Fault Catalog
  | [] => .ok c
  | r :: rs =>
    match r.firstResult? with
    | none => insertRules s currency c rs
    | some kind => do
      let k ← s.kind kind
      insertRules s currency (c.insert (.ofRule r k currency)) rs

/-- The catalog of a player's frontier. -/
def ofFrontier (s : Snapshot) (player : PlayerId) (currency : ResourceId) :
    Except Fault Catalog := do
  insertRules s currency empty (← s.player player).frontier

end Catalog

/-! ## Prices -/

namespace Snapshot

variable (s : Snapshot)

/-- The first rule of a player's frontier that makes a kind of piece. -/
def ruleFor? (kind : KindId) (player : PlayerId) : Except Fault (Option ProductionRule) := do
  let _ ← s.kind kind
  return (← s.player player).ruleFor? kind

/-- The price of one piece: that of the first rule that makes it, divided by all that the rule
makes, or else the value that the ruleset gives the kind. -/
def pieceCost (kind : KindId) (player : PlayerId) (currency : ResourceId) :
    Except Fault Fixed := do
  match ← s.ruleFor? kind player with
  | some rule =>
    let total ← rule.totalResults
    if strengthLimit < total then throw (.excessiveOutput rule.name)
    return .ratio (rule.costs.get currency) total
  | none => return .ofInt (← s.kind kind).value

/-- The price of a piece for its own owner. -/
def ownerCost (p : Piece) (currency : ResourceId) : Except Fault Fixed :=
  s.pieceCost p.kind p.owner currency

/-- The pieces in their order, each behind its price. -/
def pricePieces (ps : List Piece) (currency : ResourceId) : Except Fault (List (Fixed × Piece)) :=
  ps.mapM fun p => do return (← s.ownerCost p currency, p)

/-- Whether the first of two priced pieces costs no more than the second. -/
def noDearer (a b : Fixed × Piece) : Bool := decide (a.1 ≤ b.1)

/-- Writes pieces into slots one by one, as far as both go. -/
def refill : List Piece → List Piece → List Piece
  | _ :: slots, p :: ps => p :: refill slots ps
  | slots, _ => slots

/-- Sorts slots in place, the cheapest piece first, each at its owner's price. Pieces of one price
stay in their order. -/
def arrangeByCost (slots : List Piece) (currency : ResourceId) : Except Fault Unit × List Piece :=
  match s.pricePieces slots currency with
  | .error f => (.error f, slots)
  | .ok priced =>
    (.ok (), refill slots ((priced.mergeSort noDearer).map Prod.snd))

/-- The pieces sorted by price. -/
def sortByCost (ps : List Piece) (currency : ResourceId) : Except Fault (List Piece) :=
  match s.arrangeByCost ps currency with
  | (.ok (), sorted) => .ok sorted
  | (.error f, _) => .error f

end Snapshot

end Quartermaster
