import Quartermaster.Stack

/-!
# Territories

A territory keeps a tally of its pieces by owner and kind beside the stack itself, so that a
count needs no scan. The tally is taken anew whenever the stack reports a change, and when a
territory is put together from its parts.
-/

namespace Quartermaster

/-- What the ruleset says of a territory. -/
structure Site where
  /-- Income, and the output of a factory. -/
  production : Int := 0
  /-- Whether the game began with a factory here. -/
  originalFactory : Bool := false
  originalOwner : Option PlayerId := none
  victoryCity : Bool := false
  /-- Whether no piece may enter. -/
  impassable : Bool := false
deriving DecidableEq, Repr, Inhabited

/-- How many pieces of each kind each owner has. -/
abbrev Tally := SortedMap (PlayerId × KindId) Nat

def Tally.ofPieces (ps : List Piece) : Tally := Stack.countBy (fun p => (p.owner, p.kind)) ps

structure Territory where
  id : TerritoryId
  name : String
  isWater : Bool
  owner : Option PlayerId := none
  neighbors : SortedSet TerritoryId := .empty
  conqueredThisTurn : Bool := false
  site : Option Site := none
  stack : Stack := .empty
  tally : Tally := .empty
deriving DecidableEq

/-- What is stored of a territory: all of it but the tally. -/
structure TerritoryRecord where
  id : TerritoryId
  name : String
  isWater : Bool
  owner : Option PlayerId := none
  neighbors : SortedSet TerritoryId := .empty
  conqueredThisTurn : Bool := false
  site : Option Site := none
  stack : Stack := .empty
deriving DecidableEq

namespace Territory

/-- A territory with a stack already in it. -/
def withStack (t : Territory) (s : Stack) : Territory :=
  { t with stack := s, tally := .ofPieces s.pieces }

/-- The territory that a record describes, with the tally that its stack has. -/
def ofRecord (r : TerritoryRecord) : Territory :=
  withStack
    { id := r.id, name := r.name, isWater := r.isWater, owner := r.owner,
      neighbors := r.neighbors, conqueredThisTurn := r.conqueredThisTurn, site := r.site } r.stack

def toRecord (t : Territory) : TerritoryRecord :=
  { id := t.id, name := t.name, isWater := t.isWater, owner := t.owner, neighbors := t.neighbors,
    conqueredThisTurn := t.conqueredThisTurn, site := t.site, stack := t.stack }

/-- Takes over a changed stack, with a new tally if anything came or went. -/
def restack (t : Territory) (change : Stack × StackChange) : Territory :=
  if change.2.isChanged then t.withStack change.1 else { t with stack := change.1 }

/-- Adds the pieces that are not here yet. -/
def addPieces (t : Territory) (ps : List Piece) : Territory := t.restack (t.stack.addAll ps)

def removePieces (t : Territory) (ids : List PieceId) : Territory :=
  t.restack (t.stack.removeAll ids)

def clearPieces (t : Territory) : Territory := t.restack t.stack.clear

/-- How many pieces of a kind a player has here, by the tally. -/
def countOwned (t : Territory) (owner : PlayerId) (kind : KindId) : Nat :=
  (t.tally.get? (owner, kind)).getD 0

def production (t : Territory) : Int := t.site.elim 0 Site.production

def isOriginalFactory (t : Territory) : Bool := t.site.any Site.originalFactory

def isImpassable (t : Territory) : Bool := t.site.any Site.impassable

def isOwnedBy (t : Territory) (player : PlayerId) : Bool := t.owner == some player

def isAdjacentTo (t : Territory) (other : TerritoryId) : Bool := t.neighbors.contains other

end Territory

end Quartermaster
