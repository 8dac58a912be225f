import Quartermaster.Ledger
import Quartermaster.Yard

/-!
# Censuses

A census counts the pieces of one player by kind, on the board and in the queues. It is taken
once at the start of a pass and kept up as batches are bought, so that the ceilings of kinds
need no new count of the board.
-/

namespace Quartermaster

structure Census where
  counts : SortedMap KindId Nat
deriving DecidableEq

namespace Census

def empty : Census := ⟨.empty⟩

/-- How many pieces of a kind have been counted. -/
def built (c : Census) (kind : KindId) : Nat := (c.counts.get? kind).getD 0

/-- Counts more pieces of a kind. -/
def record (c : Census) (kind : KindId) (quantity : Nat) : Census :=
  ⟨c.counts.update kind fun n => n.getD 0 + quantity⟩

/-- Counts a player's pieces on the board, by the registered kinds. -/
def ofBoard (s : Snapshot) (player : PlayerId) : Census :=
  s.roster.toList.foldl (fun c k =>
    let count := s.countOwned player k.id
    if 0 < count then ⟨c.counts.insert k.id count⟩ else c) empty

/-- Counts a player's pieces on the board, among those still to be placed, and in the
queues. -/
def ofSnapshot (s : Snapshot) (player : PlayerId) (toPlace : List Piece) (yards : Yards) :
    Census :=
  ((toPlace ++ yards.queued).filter fun p => p.owner == player).foldl
    (fun c p => c.record p.kind 1) (ofBoard s player)

/-- Whether the ceiling leaves room for the whole batch of an offer. -/
def allows (c : Census) (o : Offer) : Bool :=
  match o.buildLimit with
  | .unlimited => true
  | .forbidden => false
  | .atMost limit => decide (o.quantity ≤ limit - c.built o.kind)

end Census

/-- The offers that can be bought now: affordable, small enough for the capacity left, and
within the ceilings. Their order stays. -/
def buyable (offers : List Offer) (ledger : Ledger) (remaining : Capacity) (census : Census) :
    List Offer :=
  offers.filter fun o => ledger.affords o && remaining.fits o.quantity && census.allows o

end Quartermaster
