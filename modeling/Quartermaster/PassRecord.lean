import Quartermaster.Scenario

/-!
# Records of passes

What one pass bought, by the names of the kinds, and what all passes of a player come to: sums,
frequencies and means.
-/

namespace Quartermaster

/-- What one pass bought. -/
structure PassRecord where
  player : PlayerId
  seed : Nat
  /-- The pieces bought under each name. -/
  pieces : SortedMap String Nat
  /-- The production units spent. -/
  spent : Int
  /-- The yards in which anything was queued. -/
  territoriesUsed : Nat
deriving DecidableEq

namespace PassRecord

/-- The name of a kind, or its label where the ruleset does not know it. -/
def kindName (s : Snapshot) (kind : KindId) : String :=
  match s.kind kind with
  | .ok k => k.name
  | .error _ => kind.label

/-- The record of a plan. Of two kinds with one name the later stands. -/
def ofPlan (s : Snapshot) (plan : Plan) (seed : Nat) : PassRecord where
  player := plan.player
  seed
  pieces := .ofList (plan.purchased.entries.map fun e => (kindName s e.1, e.2))
  spent := plan.spent.get .productionUnits
  territoriesUsed := plan.yards.values.countP fun y => decide (0 < y.queuedCount)

/-- All pieces on record, counted exactly. -/
def totalPieces (r : PassRecord) : Nat := r.pieces.values.foldr (· + ·) 0

end PassRecord

/-- What the passes of a player come to. -/
structure PlayerSummary where
  plans : Nat
  pieces : SortedMap String Nat
  /-- The share of each name in all pieces; none where nothing was bought. -/
  frequencies : SortedMap String Binary64
  meanSpent : Binary64
  meanPieces : Binary64
deriving DecidableEq

namespace PlayerSummary

/-- Adds the counts of a record to sums by name. -/
def addPieces (sums : SortedMap String Nat) (r : PassRecord) : SortedMap String Nat :=
  r.pieces.entries.foldl (fun m e => m.update e.1 fun n => n.getD 0 + e.2) sums

/-- The mean of a sum over so many passes; none makes zero. -/
def mean (sum : Int) (plans : Nat) : Binary64 :=
  if plans = 0 then .zero else (Binary64.ofInt sum).div (.ofInt plans)

def ofRecords (rs : List PassRecord) : PlayerSummary :=
  let pieces := rs.foldl addPieces .empty
  let total : Nat := pieces.values.foldr (· + ·) 0
  { plans := rs.length
    pieces
    frequencies :=
      if total = 0 then .empty
      else pieces.map fun n : Nat => (Binary64.ofInt (n : Int)).div (.ofInt (total : Int))
    meanSpent := mean ((rs.map PassRecord.spent).foldr (· + ·) 0) rs.length
    meanPieces := mean total rs.length }

/-- The summary of each player that has a record. -/
def ofAll (rs : List PassRecord) : SortedMap PlayerId PlayerSummary :=
  let players : SortedSet PlayerId := .ofList (rs.map PassRecord.player)
  .ofList (players.toList.map fun p => (p, ofRecords (rs.filter fun r => r.player == p)))

end PlayerSummary

end Quartermaster
