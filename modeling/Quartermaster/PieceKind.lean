import Quartermaster.Fault
import Quartermaster.SortedMap

/-!
# Kinds of piece

The ruleset defines kinds of piece; the roster holds them by number.
-/

namespace Quartermaster

/-- Where a kind of piece moves and fights. -/
inductive Domain where
  | land
  | sea
  | air
deriving DecidableEq, Repr, Inhabited

/-- The ceiling on how many pieces of a kind one player may own. -/
inductive BuildLimit where
  | unlimited
  | forbidden
  | atMost (count : Nat)
deriving DecidableEq, Repr, Inhabited

/-- The ruleset writes a negative number for no ceiling and zero for a kind that is never
built. -/
def BuildLimit.ofInt (n : Int) : BuildLimit :=
  if n = 0 then .forbidden else if n < 0 then .unlimited else .atMost n.toNat

structure PieceKind where
  id : KindId
  name : String
  domain : Domain := .land
  attack : Int := 0
  defense : Int := 0
  movement : Int := 1
  hitPoints : Int := 1
  /-- Whether pieces of the kind are factories. -/
  isFactory : Bool := false
  /-- A factory's output where it does not depend on the territory. -/
  fixedOutput : Option Int := none
  transportCapacity : Int := 0
  canBombard : Bool := false
  buildLimit : BuildLimit := .unlimited
  /-- The price where no production rule gives one. -/
  value : Int := 0
deriving DecidableEq, Repr

namespace PieceKind

def isLand (k : PieceKind) : Bool := decide (k.domain = .land)
def isSea (k : PieceKind) : Bool := decide (k.domain = .sea)
def isAir (k : PieceKind) : Bool := decide (k.domain = .air)

end PieceKind

/-- Every kind of piece in the ruleset. -/
structure Roster where
  kinds : SortedMap KindId PieceKind
deriving DecidableEq

namespace Roster

def empty : Roster := ⟨.empty⟩

instance : Inhabited Roster := ⟨empty⟩

/-- Enters a kind under its own number, in place of an earlier one. -/
def register (r : Roster) (k : PieceKind) : Roster := ⟨r.kinds.insert k.id k⟩

def ofList (ks : List PieceKind) : Roster := ks.foldl register empty

def kind (r : Roster) (id : KindId) : Except Fault PieceKind :=
  match r.kinds.get? id with
  | some k => .ok k
  | none => .error (.unknownKind id)

def contains (r : Roster) (id : KindId) : Bool := r.kinds.contains id

/-- The kinds in the order of their numbers. -/
def toList (r : Roster) : List PieceKind := r.kinds.values

def size (r : Roster) : Nat := r.kinds.size

end Roster

end Quartermaster
