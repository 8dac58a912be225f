import Quartermaster.Snapshot

/-!
# Yards

A yard is a territory that can make pieces this turn, with its capacity and the places that it
feeds: itself, and the sea zones beside it. Bought pieces wait in the queues of the places.
-/

namespace Quartermaster

/-- A territory that a yard feeds, and the pieces that wait to be placed in it. -/
structure Place where
  territory : TerritoryId
  isWater : Bool
  queue : List Piece := []
deriving DecidableEq, Repr

/-- How many pieces of a kind and an owner wait here. -/
def Place.countOfKind (p : Place) (kind : KindId) (owner : PlayerId) : Nat :=
  p.queue.countP fun q => q.kind == kind && q.owner == owner

structure Yard where
  territory : TerritoryId
  /-- The capacity at the start of the pass. -/
  capacity : Capacity
  /-- The capacity that no queued piece has used yet. -/
  remaining : Capacity
  /-- The territory itself, then the sea zones beside it in order. -/
  places : List Place
deriving DecidableEq, Repr

namespace Yard

/-- The yard of a territory, with nothing queued. Only land feeds the sea zones beside it. -/
def ofTerritory (s : Snapshot) (territory : TerritoryId) (capacity : Capacity) :
    Except Fault Yard := do
  let t ← s.territory territory
  let self : Place := { territory, isWater := t.isWater }
  let zones ←
    if t.isWater then pure []
    else do
      let around ← s.neighbors territory
      pure ((around.filter Territory.isWater).map fun n => { territory := n.id, isWater := true })
  return { territory, capacity, remaining := capacity, places := self :: zones }

/-- The place with this territory. -/
def place? (y : Yard) (territory : TerritoryId) : Option Place :=
  y.places.find? fun p => p.territory == territory

/-- One more than the greatest count of pieces. -/
def countBound : Nat := wordValues 32

/-- Adds pieces to the queue of the first place with a territory. -/
def enqueue (territory : TerritoryId) (ps : List Piece) : List Place → List Place
  | [] => []
  | p :: rest =>
    if p.territory = territory then { p with queue := p.queue ++ ps } :: rest
    else p :: enqueue territory ps rest

/-- Queues pieces for a place, if it is one of the yard's and the capacity has room. -/
def queue (y : Yard) (place : TerritoryId) (ps : List Piece) : Except Fault Yard :=
  if (y.place? place).isNone then .error (.notAPlace place y.territory)
  else if countBound ≤ ps.length then .error .tooManyPieces
  else match y.remaining.consume? ps.length with
    | none => .error (.exceedsCapacity ps.length y.remaining y.territory)
    | some left => .ok { y with remaining := left, places := enqueue place ps y.places }

/-- Every piece that waits in one of the places. -/
def queued (y : Yard) : List Piece := y.places.flatMap Place.queue

def queuedCount (y : Yard) : Nat := y.queued.length

end Yard

/-- The yards of a pass by territory. -/
abbrev Yards := SortedMap TerritoryId Yard

namespace Yards

/-- Every piece that waits, by yard and place. -/
def queued (ys : Yards) : List Piece := ys.values.flatMap Yard.queued

/-- The pieces that wait for a territory in any yard. -/
def queuedFor (ys : Yards) (territory : TerritoryId) : List Piece :=
  ((ys.values.flatMap Yard.places).filter fun p => p.territory == territory).flatMap Place.queue

end Yards

end Quartermaster
