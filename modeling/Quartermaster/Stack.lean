import Quartermaster.Piece
import Quartermaster.SortedMap
import Std.Data.HashSet

/-!
# Stacks

A stack holds the pieces of one territory in the order of their arrival. Every change reports
what it did, so that the holder can bring its own records up to date.

Whole lists are added, removed and tested with a hash set of numbers; `add`, `remove` and
`contains` are the same operations on one piece.
-/

namespace Quartermaster

/-- What a change did to a stack. -/
inductive StackChange where
  | unchanged
  | added (count : Nat)
  | removed (count : Nat)
deriving DecidableEq, Repr

/-- Whether pieces came or went. -/
def StackChange.isChanged : StackChange → Bool
  | .unchanged => false
  | .added n => n != 0
  | .removed n => n != 0

structure Stack where
  pieces : List Piece
deriving DecidableEq, Repr

namespace Stack

def empty : Stack := ⟨[]⟩

instance : Inhabited Stack := ⟨empty⟩

def size (s : Stack) : Nat := s.pieces.length

def ids (s : Stack) : List PieceId := s.pieces.map Piece.id

/-- Whether a piece with this number is held. -/
def contains (s : Stack) (id : PieceId) : Bool := s.pieces.any fun p => p.id == id

/-! ## Changes -/

/-- Adds a piece unless one with its number is held. -/
def add (s : Stack) (p : Piece) : Stack × StackChange :=
  if s.contains p.id then (s, .unchanged) else (⟨s.pieces ++ [p]⟩, .added 1)

/-- The pieces of a list whose numbers are not among those seen, each number once. -/
def newcomers (seen : Std.HashSet PieceId) : List Piece → List Piece
  | [] => []
  | p :: ps =>
    if seen.contains p.id then newcomers seen ps
    else p :: newcomers (seen.insert p.id) ps

/-- Adds every piece whose number is not held yet. -/
def addAll (s : Stack) (ps : List Piece) : Stack × StackChange :=
  let new := newcomers (.ofList s.ids) ps
  (⟨s.pieces ++ new⟩, .added new.length)

/-- Removes the first piece with this number and hands it out. -/
def remove (s : Stack) (id : PieceId) : Stack × StackChange × Option Piece :=
  match s.pieces.find? fun p => p.id == id with
  | some p => (⟨s.pieces.eraseP fun p => p.id == id⟩, .removed 1, some p)
  | none => (s, .unchanged, none)

/-- Removes every piece whose number is listed. -/
def removeAll (s : Stack) (ids : List PieceId) : Stack × StackChange :=
  let doomed : Std.HashSet PieceId := .ofList ids
  let kept := s.pieces.filter fun p => !doomed.contains p.id
  (⟨kept⟩, .removed (s.size - kept.length))

def clear (s : Stack) : Stack × StackChange := (empty, .removed s.size)

/-! ## Questions -/

/-- The size from which a set of numbers is quicker than scanning the stack. -/
def scanLimit : Nat := 500

/-- Whether every listed number is held. -/
def containsAll (s : Stack) (ids : List PieceId) : Bool :=
  if scanLimit < s.size ∧ scanLimit < ids.length then
    let held : Std.HashSet PieceId := .ofList s.ids
    ids.all held.contains
  else ids.all s.contains

def countOfKind (s : Stack) (kind : KindId) : Nat := s.pieces.countP fun p => p.kind == kind

def countOfKindOwnedBy (s : Stack) (kind : KindId) (owner : PlayerId) : Nat :=
  s.pieces.countP fun p => p.kind == kind && p.owner == owner

def countOwnedBy (s : Stack) (owner : PlayerId) : Nat := s.pieces.countP fun p => p.owner == owner

/-- The first pieces of a kind, at most so many. -/
def ofKind (s : Stack) (kind : KindId) (most : Nat) : List Piece :=
  (s.pieces.filter fun p => p.kind == kind).take most

/-- For each kind in order, the first pieces of it, at most as many as asked. -/
def ofQuantities (s : Stack) (quantities : SortedMap KindId Nat) : List Piece :=
  quantities.entries.flatMap fun q => s.ofKind q.1 q.2

/-- Counts the members of a list by a key. -/
def countBy {κ : Type} [Key κ] (key : Piece → κ) (ps : List Piece) : SortedMap κ Nat :=
  ps.foldl (fun m p => m.update (key p) fun n => n.getD 0 + 1) .empty

/-- How many pieces of each kind are present. -/
def kindCounts (s : Stack) : SortedMap KindId Nat := countBy Piece.kind s.pieces

def kindCountsOwnedBy (s : Stack) (owner : PlayerId) : SortedMap KindId Nat :=
  countBy Piece.kind (s.pieces.filter fun p => p.owner == owner)

/-- How many pieces each player has here. -/
def playerCounts (s : Stack) : SortedMap PlayerId Nat := countBy Piece.owner s.pieces

/-- The players with a piece here, in order. -/
def players (s : Stack) : SortedSet PlayerId := .ofList (s.pieces.map Piece.owner)

def hasSeveralPlayers (s : Stack) : Bool := decide (1 < s.players.size)

/-- The stack in one line: the count of each kind. -/
def toText (s : Stack) : String :=
  s.kindCounts.entries.foldl
    (fun text e => text ++ " <" ++ e.1.label ++ "," ++ toString e.2 ++ ">") "units:"

end Stack

end Quartermaster
