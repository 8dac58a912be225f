import Quartermaster.Scenario

/-!
# Agreement of runs

Planning has to give the same plan for the same snapshot, player and seed. Runs are compared by
the fingerprints of their plans.
-/

namespace Quartermaster

/-- Fingerprints of several runs, and whether they were found equal. -/
structure Agreement where
  agrees : Bool
  hashes : List UInt64
deriving DecidableEq

/-- How a check of agreement ends without an answer. -/
inductive Breakdown where
  | planFailed (player : PlayerId) (fault : Fault)
  /-- A run on another thread came to nothing. -/
  | threadFailed
  | disagreement (hashes : List UInt64)
  | overflow (step : Overflow)
deriving DecidableEq, Repr

/-- What a fault met while planning for a player ends in. -/
def Breakdown.ofFault (player : PlayerId) : Fault → Breakdown
  | .overflow step => .overflow step
  | fault => .planFailed player fault

namespace Agreement

/-- Whether each hash equals the one before it. -/
def allEqual : List UInt64 → Bool
  | a :: b :: rest => a == b && allEqual (b :: rest)
  | _ => true

def ofHashes (hashes : List UInt64) : Agreement := { agrees := allEqual hashes, hashes }

/-- The hashes that occur: sorted, and of equal neighbours only the first. -/
def unique (a : Agreement) : List Nat :=
  (a.hashes.map UInt64.toNat).mergeSort.eraseReps

/-- Insists on agreement. -/
def require (a : Agreement) : Except Breakdown Unit :=
  if a.agrees then .ok () else .error (.disagreement a.hashes)

/-- One plan for a seed, chosen at random. -/
def planFor (s : Snapshot) (player : PlayerId) (seed : Nat) : Except Breakdown Plan :=
  let planner := Planner.ofConfig (.seeded seed) 0
  (planner.plan s (.ofRules s) player).1.mapError (.ofFault player)

/-- Plans so many times with one seed. -/
def ofRuns (s : Snapshot) (player : PlayerId) (seed runs : Nat) : Except Breakdown Agreement := do
  let plans ← (List.replicate runs ()).mapM fun _ => planFor s player seed
  return .ofHashes (plans.map Plan.fingerprint)

/-- Plans so many times on as many threads; a run that fails takes its thread with it. -/
def ofThreads (s : Snapshot) (player : PlayerId) (seed runs : Nat) :
    Except Breakdown Agreement :=
  (ofRuns s player seed runs).mapError fun _ => .threadFailed

/-- Whether a pass leaves the bytes of the snapshot as they were. -/
def leavesUntouched (s : Snapshot) (player : PlayerId) (seed : Nat) : Except Breakdown Bool := do
  let before := s.toBytes
  let _ ← planFor s player seed
  return s.toBytes == before

/-- Whether a snapshot keeps its fingerprint when it is stored and read. -/
def survivesStorage (s : Snapshot) : Bool :=
  match Snapshot.ofBytes s.toBytes with
  | .ok restored => restored.fingerprint == s.fingerprint
  | .error _ => false

end Agreement

def Breakdown.message : Breakdown → String
  | .planFailed player fault =>
    "planning pass for " ++ player.label ++ " failed: " ++ fault.message
  | .threadFailed => "planning thread panicked"
  | .overflow step => step.message
  | .disagreement hashes =>
    "Planning is non-deterministic!\nRuns: " ++ toString hashes.length ++
      "\nUnique hashes: " ++ toString (Agreement.unique ⟨false, hashes⟩).length ++
      " (expected 1)\nAll hashes: [" ++
      String.intercalate ", " (hashes.map fun h => toString h.toNat) ++ "]"

end Quartermaster
