import Quartermaster.Fault

/-!
# Pieces

The individual pieces of the game, and the source that makes new ones with fresh numbers.
-/

namespace Quartermaster

structure Piece where
  id : PieceId
  kind : KindId
  owner : PlayerId
  /-- Who owned the piece first, where that is not its present owner. -/
  firstOwner : Option PlayerId := none
  /-- The transport that carries the piece. -/
  carrier : Option PieceId := none
  /-- Bombing damage, which lowers a factory's output. -/
  damage : Int := 0
deriving DecidableEq, Repr

namespace Piece

/-- Who owned the piece first, whoever holds it now. -/
def originalOwner (p : Piece) : PlayerId := p.firstOwner.getD p.owner

def isTransported (p : Piece) : Bool := p.carrier.isSome

end Piece

/-- Numbers the pieces it makes, one after the other. -/
structure PieceSource where
  next : Nat
deriving DecidableEq, Repr

namespace PieceSource

/-- A source of pieces for the board. -/
def board : PieceSource := ⟨1⟩

/-- A source of temporary pieces, whose numbers no piece on the board has. -/
def temporary : PieceSource := ⟨PieceId.temporaryBase⟩

/-- The next `quantity` pieces, and the source after them. An empty batch is refused. -/
def make (s : PieceSource) (kind : KindId) (quantity : Nat) (owner : PlayerId) :
    Except Fault (List Piece × PieceSource) :=
  if quantity = 0 then .error (.emptyBatch kind)
  else .ok ((List.range' s.next quantity).map fun n => { id := ⟨n⟩, kind, owner },
    ⟨s.next + quantity⟩)

end PieceSource

end Quartermaster
