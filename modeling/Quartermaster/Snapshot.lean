import Quartermaster.PieceKind
import Quartermaster.Player
import Quartermaster.Territory

/-!
# Snapshots

The whole state of the game at one point of a turn, which planning only reads. Look-ups go by
the key under which a record is entered; whatever reads a number off a record found so reads
the one inside it.
-/

namespace Quartermaster

structure Snapshot where
  round : Nat := 0
  resourceNames : SortedMap ResourceId String := .empty
  roster : Roster := .empty
  players : SortedMap PlayerId Player := .empty
  territories : SortedMap TerritoryId Territory := .empty
  /-- Groups of players who are allies of each other. -/
  alliances : List (SortedSet PlayerId) := []
deriving DecidableEq, Inhabited

namespace Snapshot

variable (s : Snapshot)

/-! ## Changes -/

def registerKind (k : PieceKind) : Snapshot := { s with roster := s.roster.register k }

def addPlayer (p : Player) : Snapshot := { s with players := s.players.insert p.id p }

def addTerritory (t : Territory) : Snapshot :=
  { s with territories := s.territories.insert t.id t }

def addAlliance (members : List PlayerId) : Snapshot :=
  { s with alliances := s.alliances ++ [.ofList members] }

/-! ## Look-ups -/

def territory (id : TerritoryId) : Except Fault Territory :=
  match s.territories.get? id with
  | some t => .ok t
  | none => .error (.unknownTerritory id)

def player (id : PlayerId) : Except Fault Player :=
  match s.players.get? id with
  | some p => .ok p
  | none => .error (.unknownPlayer id)

def kind (id : KindId) : Except Fault PieceKind := s.roster.kind id

/-- Changes the territory entered under a number. -/
def modifyTerritory (id : TerritoryId) (f : Territory → Territory) : Except Fault Snapshot := do
  let t ← s.territory id
  return { s with territories := s.territories.insert id (f t) }

/-- The territories that a player owns, in the order of their keys. -/
def territoriesOwnedBy (player : PlayerId) : List Territory :=
  s.territories.values.filter (·.isOwnedBy player)

/-- Those of the listed territories that exist. -/
def known (ids : List TerritoryId) : List Territory := ids.filterMap s.territories.get?

/-- The existing neighbours of a territory, in order. -/
def neighbors (id : TerritoryId) : Except Fault (List Territory) := do
  return s.known (← s.territory id).neighbors.toList

/-- How many pieces of a kind a player has on the whole board. -/
def countOwned (player : PlayerId) (kind : KindId) : Nat :=
  (s.territories.values.map fun t => t.countOwned player kind).foldr (· + ·) 0

/-- Whether two players are one or share an alliance. -/
def areAllied (a b : PlayerId) : Bool :=
  a == b || s.alliances.any fun group => group.contains a && group.contains b

/-- Whether someone hostile to a player holds a territory. -/
def isEnemyTerritory (t : Territory) (player : PlayerId) : Bool :=
  t.owner.any fun owner => !s.areAllied owner player

/-! ## Consistency -/

/-- Follows every reference in a list; the first that leads nowhere is the fault. -/
def resolveAll {α β : Type} (lookUp : α → Except Fault β) : List α → Except Fault Unit
  | [] => .ok ()
  | x :: xs => do
    let _ ← lookUp x
    resolveAll lookUp xs

/-- Follows the references of a piece: its owner, then its kind. -/
def resolvePiece (p : Piece) : Except Fault Unit := do
  let _ ← s.player p.owner
  let _ ← s.kind p.kind

/-- Follows the references of a territory: its owner, its neighbours, its pieces. -/
def resolveTerritory (t : Territory) : Except Fault Unit := do
  resolveAll s.player t.owner.toList
  resolveAll s.territory t.neighbors.toList
  resolveAll s.resolvePiece t.stack.pieces

/-- Follows the references of a player: the kinds that the frontier makes. -/
def resolvePlayer (p : Player) : Except Fault Unit :=
  resolveAll (fun r => resolveAll s.kind r.results.keys) p.frontier

/-- Whether every reference in the snapshot leads somewhere, territories first. -/
def validate : Except Fault Unit := do
  resolveAll s.resolveTerritory s.territories.values
  resolveAll s.resolvePlayer s.players.values

end Snapshot

end Quartermaster
