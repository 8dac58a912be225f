import Quartermaster.Production

/-!
# Placement

The rules of placing new pieces. A turn of placing is played in a layer over the snapshot: the
pieces placed in it exist only there, so a question can never change the game.

`PlaceTurn.check` asks the rules in a fixed order and answers with the first that is broken.
-/

namespace Quartermaster

/-- Why the rules refuse a placement. Every reason but `fault` is an ordinary no; `fault` means
that the question spoke of something that does not exist. -/
inductive Refusal where
  | noPieces
  | notOwned (kind : KindId) (player : PlayerId)
  /-- A land or air piece for a sea zone, or a sea piece for land. -/
  | wrongDomain (kind : KindId) (territory : TerritoryId)
  | territoryNotOwned (territory : TerritoryId) (player : PlayerId)
  /-- A sea zone beside no territory that could feed it. -/
  | noAdjacentProducer (territory : TerritoryId)
  | conqueredThisTurn (territory : TerritoryId)
  | banned (territory : TerritoryId)
  | capacityExceeded (territory : TerritoryId) (requested placed : Nat) (capacity : Capacity)
  | buildForbidden (kind : KindId)
  | buildLimitReached (kind : KindId) (limit existing requested : Nat)
  | fault (fault : Fault)
deriving DecidableEq, Repr

def Refusal.message : Refusal → String
  | .noPieces => "No units to place"
  | .notOwned kind player => "Unit " ++ kind.label ++ " is not owned by " ++ player.label
  | .wrongDomain kind territory =>
    "Unit " ++ kind.label ++ " cannot be placed in " ++ territory.label
  | .territoryNotOwned territory player =>
    territory.label ++ " is not owned by " ++ player.label
  | .noAdjacentProducer territory => "No producing territory adjacent to " ++ territory.label
  | .conqueredThisTurn territory => territory.label ++ " was conquered this turn"
  | .banned territory => "Placement in " ++ territory.label ++ " is restricted"
  | .capacityExceeded territory requested placed capacity =>
    "Cannot place " ++ toString requested ++ " units in " ++ territory.label ++ ": " ++
      toString placed ++ " placed of " ++ capacity.toText
  | .buildForbidden kind => "Unit " ++ kind.label ++ " cannot be built"
  | .buildLimitReached kind limit existing requested =>
    "Unit " ++ kind.label ++ " is limited to " ++ toString limit ++ ": " ++
      toString existing ++ " existing, " ++ toString requested ++ " requested"
  | .fault f => f.message

/-- A fault met while asking is an answer too. -/
instance : MonadLift (Except Fault) (Except Refusal) := ⟨Except.mapError .fault⟩

/-- A turn of placing: the pieces placed so far in each territory. -/
structure PlaceTurn where
  player : PlayerId
  placed : SortedMap TerritoryId (List Piece) := .empty
deriving DecidableEq

/-- The capacity that bounds a placement, and what is used up of it. -/
structure Room where
  capacity : Capacity
  used : Nat
deriving DecidableEq, Repr

namespace Room

/-- What a capacity without limit counts for when rooms are compared. -/
def boundless : Nat := wordValues 64 - 1

def left (r : Room) : Nat := r.capacity.limit?.getD boundless - r.used

/-- Whether so many more pieces fit. -/
def fits (r : Room) (quantity : Nat) : Bool :=
  r.capacity.limit?.all fun limit => decide (r.used + quantity ≤ limit)

/-- The first room among those with the most left. -/
def widest? : List Room → Option Room :=
  List.foldl (fun best r =>
    match best with
    | none => some r
    | some b => if b.left < r.left then some r else some b) none

end Room

/-! ## Where pieces may come from -/

namespace Snapshot

variable (s : Snapshot)

/-- Whether a territory is unconquered land of the player with one of the player's
factories. -/
def hasOwnedLandFactory (t : Territory) (player : PlayerId) : Except Fault Bool := do
  if t.isWater || t.conqueredThisTurn || !t.isOwnedBy player then return false
  return !(← s.factories t player).isEmpty

/-- Whether a territory is unconquered land of the player that can feed a sea zone beside
it. -/
def isProducer (t : Territory) (player : PlayerId) : Except Fault Bool := do
  if t.isWater || t.conqueredThisTurn || !t.isOwnedBy player then return false
  if (← s.player player).placesAnywhere then return true
  return !(← s.factories t player).isEmpty

/-- Whether a player's land pieces could move into a territory. -/
def canMoveLandPieces (territory : TerritoryId) (player : PlayerId) : Except Fault Bool := do
  let t ← s.territory territory
  if t.isWater || t.isImpassable then return false
  if (← s.player player).isMovementBanned territory then return false
  return t.owner.any fun owner => s.areAllied owner player

end Snapshot

namespace PlaceTurn

variable (s : Snapshot) (turn : PlaceTurn)

/-- The pieces placed in a territory so far. -/
def placedIn (territory : TerritoryId) : List Piece := (turn.placed.get? territory).getD []

/-- How many pieces of a kind have been placed anywhere. -/
def placedOfKind (kind : KindId) : Nat :=
  turn.placed.values.flatten.countP fun p => p.kind == kind

/-- Takes pieces as placed, without asking the rules. -/
def record (territory : TerritoryId) (ps : List Piece) : PlaceTurn :=
  { turn with placed := turn.placed.update territory fun old => old.getD [] ++ ps }

/-- Takes pieces as placed, if there are any. -/
def withPlaced (territory : TerritoryId) (ps : List Piece) : PlaceTurn :=
  if ps.isEmpty then turn else turn.record territory ps

/-! ## The rules -/

/-- Each piece must be the player's and of a domain that fits the territory. -/
def checkPieces (t : Territory) (territory : TerritoryId) : List Piece → Except Refusal Unit
  | [] => .ok ()
  | p :: ps => do
    if p.owner != turn.player then throw (.notOwned p.kind turn.player)
    let k ← s.kind p.kind
    if k.isSea != t.isWater then throw (.wrongDomain p.kind territory)
    checkPieces t territory ps

/-- What a territory has placed already, in itself and in the sea zones beside it. -/
def usedBy (t : Territory) : Nat :=
  (turn.placedIn t.id).length +
    ((t.neighbors.toList.filter fun id => (s.territories.get? id).any Territory.isWater).map
      fun id => (turn.placedIn id).length).foldr (· + ·) 0

/-- The room that one territory offers to a sea zone beside it. -/
def roomFrom? (t : Territory) : Except Fault (Option Room) := do
  if ← s.isProducer t turn.player then
    return some ⟨← s.capacity t.id turn.player, turn.usedBy s t⟩
  else return none

/-- The rooms that the neighbours of a sea zone offer to it. -/
def roomsAround (zone : TerritoryId) : Except Fault (List Room) := do
  return (← (← s.neighbors zone).mapM (turn.roomFrom? s)).filterMap id

/-- The room of a sea zone: that of the neighbour with the most left. Rooms are never pooled, so
a batch has to fit what one neighbour makes. -/
def seaRoom (zone : Territory) : Except Refusal Room := do
  match Room.widest? (← turn.roomsAround s zone.id) with
  | some room => return room
  | none => throw (.noAdjacentProducer zone.id)

/-- The room of a land territory, which the player has to own. -/
def landRoom (t : Territory) (territory : TerritoryId) : Except Refusal Room := do
  if !t.isOwnedBy turn.player then throw (.territoryNotOwned territory turn.player)
  return ⟨← s.capacity territory turn.player, (turn.placedIn territory).length⟩

/-- The ceiling of one kind leaves room for so many more. -/
def checkLimit (kind : KindId) (requested : Nat) : Except Refusal Unit := do
  match (← s.kind kind).buildLimit with
  | .unlimited => return ()
  | .forbidden => throw (.buildForbidden kind)
  | .atMost limit =>
    let existing := s.countOwned turn.player kind + turn.placedOfKind kind
    if limit < existing + requested then
      throw (.buildLimitReached kind limit existing requested)

/-- The ceilings of the listed kinds, with the count asked of each. -/
def checkLimits : List (KindId × Nat) → Except Refusal Unit
  | [] => .ok ()
  | e :: es => do
    turn.checkLimit s e.1 e.2
    checkLimits es

/-- Whether pieces may be placed in a territory now; the answer is the first rule broken. -/
def check (territory : TerritoryId) (ps : List Piece) : Except Refusal Unit := do
  if ps.isEmpty then throw .noPieces
  let t ← s.territory territory
  turn.checkPieces s t territory ps
  let player ← s.player turn.player
  if t.conqueredThisTurn then throw (.conqueredThisTurn territory)
  if player.isPlacementBanned territory then throw (.banned territory)
  let room ← if t.isWater then turn.seaRoom s t else turn.landRoom s t territory
  if !room.fits ps.length then
    throw (.capacityExceeded territory ps.length room.used room.capacity)
  turn.checkLimits s (Stack.countBy Piece.kind ps).entries

/-- Places pieces, if the rules allow it. -/
def place (territory : TerritoryId) (ps : List Piece) : Except Refusal PlaceTurn := do
  turn.check s territory ps
  return turn.record territory ps

end PlaceTurn

end Quartermaster
