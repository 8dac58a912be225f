import Quartermaster.Key
import Quartermaster.Word

/-!
# Identifiers

Resources, kinds of piece, pieces, territories and players are numbered, each on its own. The
sort of thing that is numbered is part of an identifier's type, so that a player's number is
never looked up among the territories.
-/

namespace Quartermaster

/-- The sorts of thing that carry a number. -/
inductive Noun where
  | resource
  | pieceKind
  | piece
  | territory
  | player
deriving DecidableEq, Repr

/-- The word that stands before the number in a message. -/
def Noun.word : Noun → String
  | .resource => "resource"
  | .pieceKind => "unit-type"
  | .piece => "unit"
  | .territory => "territory"
  | .player => "player"

/-- The number of one thing of a sort. -/
structure Ident (noun : Noun) where
  number : Nat
deriving DecidableEq, Repr, Hashable, Inhabited

abbrev ResourceId := Ident .resource
abbrev KindId := Ident .pieceKind
abbrev PieceId := Ident .piece
abbrev TerritoryId := Ident .territory
abbrev PlayerId := Ident .player

namespace Ident

variable {noun : Noun}

instance : Key (Ident noun) where
  lt a b := Key.lt a.number b.number
  lt_irrefl _ := Key.lt_irrefl _
  lt_trans := Key.lt_trans
  eq_of_not_lt h₁ h₂ := congrArg mk (Key.eq_of_not_lt h₁ h₂)

/-- An identifier as a message names it: `territory#7`. -/
def label (i : Ident noun) : String := noun.word ++ "#" ++ toString i.number

end Ident

/-- Production units, the currency of most prices. -/
def ResourceId.productionUnits : ResourceId := ⟨0⟩

/-- The number from which temporary pieces count; pieces on the board have smaller ones. -/
def PieceId.temporaryBase : Nat := wordValues 48

def PieceId.isTemporary (i : PieceId) : Bool := decide (PieceId.temporaryBase ≤ i.number)

end Quartermaster
