import Quartermaster.Yard

/-!
# Move options

Where freshly bought pieces could go once they are placed: the place itself and the neighbours
that their domain can enter. Transports also have the land that they could load from, and
bombarding ships the land that they could shell.
-/

namespace Quartermaster

/-- A transport, the sea zone it will be in, and the friendly land beside it. -/
structure TransportOption where
  transport : PieceId
  seaZone : TerritoryId
  loadFrom : SortedSet TerritoryId
deriving DecidableEq

structure MoveOptions where
  yards : Yards := .empty
  /-- Destinations of each piece. -/
  moves : SortedMap PieceId (SortedSet TerritoryId) := .empty
  /-- Destinations of each transport. -/
  transportMoves : SortedMap PieceId (SortedSet TerritoryId) := .empty
  /-- Targets of each bombarding ship that has any. -/
  bombardments : SortedMap PieceId (SortedSet TerritoryId) := .empty
  transports : List TransportOption := []
deriving DecidableEq

/-- Whether a domain can enter a territory. -/
def Domain.canEnter (d : Domain) (t : Territory) : Bool :=
  match d with
  | .land => !t.isWater && !t.isImpassable
  | .sea => t.isWater
  | .air => !t.isImpassable

namespace MoveOptions

/-- The numbers of the territories that pass a test. -/
def idsWhere (around : List Territory) (test : Territory → Bool) : SortedSet TerritoryId :=
  .ofList ((around.filter test).map Territory.id)

/-- Enters one piece of a kind that waits in a place. -/
def addPiece (s : Snapshot) (player : PlayerId) (place : Place) (isWater : Bool)
    (around : List Territory) (p : Piece) (k : PieceKind) (m : MoveOptions) : MoveOptions :=
  let destinations := (idsWhere around k.domain.canEnter).insert place.territory ()
  let m :=
    if 0 < k.transportCapacity ∧ isWater then
      let friendly := idsWhere around fun t =>
        !t.isWater && t.owner.any fun owner => s.areAllied owner player
      { m with
        transportMoves := m.transportMoves.insert p.id destinations
        transports := m.transports ++ [⟨p.id, place.territory, friendly⟩] }
    else m
  let m :=
    if k.canBombard && isWater then
      let targets := idsWhere around fun t => !t.isWater && s.isEnemyTerritory t player
      if targets.isEmpty then m
      else { m with bombardments := m.bombardments.insert p.id targets }
    else m
  { m with moves := m.moves.insert p.id destinations }

/-- Enters the pieces that wait in a place. -/
def addPieces (s : Snapshot) (player : PlayerId) (place : Place) (isWater : Bool)
    (around : List Territory) : List Piece → MoveOptions → Except Fault MoveOptions
  | [], m => .ok m
  | p :: ps, m => do
    let k ← s.kind p.kind
    addPieces s player place isWater around ps (addPiece s player place isWater around p k m)

/-- Enters the pieces of several places. -/
def addPlaces (s : Snapshot) (player : PlayerId) :
    List Place → MoveOptions → Except Fault MoveOptions
  | [], m => .ok m
  | place :: places, m => do
    let t ← s.territory place.territory
    let around ← s.neighbors place.territory
    addPlaces s player places (← addPieces s player place t.isWater around place.queue m)

/-- The options of every piece that waits in a yard. -/
def ofYards (s : Snapshot) (player : PlayerId) (yards : Yards) : Except Fault MoveOptions :=
  addPlaces s player (yards.values.flatMap Yard.places) { yards }

def pieceCount (m : MoveOptions) : Nat := m.moves.size

end MoveOptions

end Quartermaster
