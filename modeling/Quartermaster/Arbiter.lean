import Quartermaster.Offer
import Quartermaster.Placement

/-!
# Asking the rules

Planning asks about placements through an arbiter only: a function of the territory, the
pieces, the player and what is placed in the territory already. The arbiter of a snapshot
answers every question in a fresh turn, so that no question can bear on another.

Each offer that is tried is made into pieces first, and the numbers of those pieces are used up
whatever the answer.
-/

namespace Quartermaster

abbrev Arbiter := TerritoryId → List Piece → PlayerId → List Piece → Except Refusal Unit

/-- The arbiter that knows the rules of placement. -/
def Arbiter.ofRules (s : Snapshot) : Arbiter := fun territory ps player already =>
  let turn : PlaceTurn := { player }
  (turn.withPlaced territory already).check s territory ps

namespace Arbiter

variable (arbiter : Arbiter)

/-- Whether pieces may be placed; a refusal is a no, a fault is passed on. -/
def permits (territory : TerritoryId) (ps : List Piece) (player : PlayerId)
    (already : List Piece) : Except Fault Bool :=
  match arbiter territory ps player already with
  | .ok () => .ok true
  | .error (.fault f) => .error f
  | .error _ => .ok false

/-- Makes a batch of an offer and asks whether it may be placed. -/
def tryOffer (o : Offer) (territory : TerritoryId) (player : PlayerId) (already : List Piece)
    (source : PieceSource) : Except Fault (List Piece × Bool) × PieceSource :=
  match o.materialize source player with
  | .error f => (.error f, source)
  | .ok (ps, source) =>
    match arbiter.permits territory ps player already with
    | .error f => (.error f, source)
    | .ok allowed => (.ok (ps, allowed), source)

/-- Tries offers in order and keeps those whose batch may be placed, with the batch. -/
def permitted (territory : TerritoryId) (player : PlayerId) (already : List Piece) :
    List Offer → PieceSource → Except Fault (List (Offer × List Piece)) × PieceSource
  | [], source => (.ok [], source)
  | o :: os, source =>
    match arbiter.tryOffer o territory player already source with
    | (.error f, source) => (.error f, source)
    | (.ok (ps, allowed), source) =>
      match permitted territory player already os source with
      | (.error f, source) => (.error f, source)
      | (.ok rest, source) => (.ok (if allowed then (o, ps) :: rest else rest), source)

end Arbiter

end Quartermaster
