import Quartermaster.Capacity
import Quartermaster.Fixed
import Quartermaster.Ident

/-!
# Faults

A fault is a breach of an operation's terms or an inconsistency of the snapshot. A placement
that the rules refuse is no fault; see `Refusal`.

An overflow is a fault that nobody is meant to handle. Where a number leaves its word the program
stops, and with it all that waits for the number: a batch keeps no account of such a pass, and no
scenario is called invalid for it.
-/

namespace Quartermaster

/-- A step of arithmetic with a result that its word cannot hold. -/
inductive Overflow where
  | addition
  | subtraction
deriving DecidableEq, Repr

def Overflow.message : Overflow → String
  | .addition => "attempt to add with overflow"
  | .subtraction => "attempt to subtract with overflow"

inductive Fault where
  | unknownTerritory (territory : TerritoryId)
  | unknownPlayer (player : PlayerId)
  | unknownKind (kind : KindId)
  /-- A batch of no pieces was asked for. -/
  | emptyBatch (kind : KindId)
  /-- The place is none of those that the yard feeds. -/
  | notAPlace (place yard : TerritoryId)
  /-- More pieces at once than can be counted. -/
  | tooManyPieces
  | exceedsCapacity (quantity : Nat) (remaining : Capacity) (yard : TerritoryId)
  | noFactory (territory : TerritoryId)
  | insufficientResources (resource : ResourceId) (required available : Int)
  /-- A choice among no entries. -/
  | emptySelection
  | negativeWeight (index : Nat) (weight : Fixed)
  | weightsOverflow
  | weightsAllZero
  /-- A rule makes more pieces than a price can be divided by. -/
  | excessiveOutput (rule : String)
  /-- Bytes that are no snapshot. -/
  | undecodable
  /-- Text that is no value of what it should hold. -/
  | malformedText (source : String)
  | overflow (step : Overflow)
deriving DecidableEq, Repr

def Fault.message : Fault → String
  | .unknownTerritory territory => "Unknown territory: " ++ territory.label
  | .unknownPlayer player => "Unknown player: " ++ player.label
  | .unknownKind kind => "Unknown unit type: " ++ kind.label
  | .emptyBatch kind => "Invalid argument: cannot create zero units of " ++ kind.label
  | .notAPlace place yard =>
    "Invalid argument: " ++ place.label ++ " is not a place territory of " ++ yard.label
  | .tooManyPieces => "Invalid argument: too many units"
  | .exceedsCapacity quantity remaining yard =>
    "Invalid argument: " ++ toString quantity ++ " units exceed remaining capacity " ++
      remaining.toText ++ " of " ++ yard.label
  | .noFactory territory => "No factory in territory " ++ territory.label
  | .insufficientResources resource required available =>
    "Insufficient resources: need " ++ toString required ++ " of " ++ resource.label ++
      ", have " ++ toString available
  | .emptySelection => "Cannot select from an empty option table"
  | .negativeWeight index weight =>
    "Invalid selection weights: weight " ++ toString index ++ " is negative (" ++
      weight.toText ++ ")"
  | .weightsOverflow => "Invalid selection weights: weights overflow"
  | .weightsAllZero => "Invalid selection weights: all weights are zero"
  | .excessiveOutput rule => "Invalid game state: rule " ++ rule ++ " produces too many units"
  | .undecodable => "Invalid game state: Failed to deserialize snapshot"
  | .malformedText source => "Failed to parse data '" ++ source ++ "'"
  | .overflow step => step.message

end Quartermaster
