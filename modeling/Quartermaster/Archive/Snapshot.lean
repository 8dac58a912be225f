import Quartermaster.Archive.Board
import Quartermaster.Archive.Text.Reader
import Quartermaster.SipHash

/-!
# Storing snapshots

A snapshot as bytes, its fingerprint, and the texts that hold a snapshot or a planner's settings.
-/

namespace Quartermaster

/-- What a text holds, by a schema of the text form. -/
def Archive.Schema.ofText? {α : Type} (s : Archive.Schema α) (text : String) : Option α := do
  let (dialect, node) ← Archive.Text.parse? text
  s.ofNode dialect node

/-- The fingerprint of a value: that of its bytes behind their count. -/
def Archive.Schema.fingerprint {α : Type} (s : Archive.Schema α) (a : α) : UInt64 :=
  let bytes := s.toBytes a
  SipHash.hash (Archive.writeNat Archive.wordWidth bytes.length ++ bytes)

namespace Snapshot

def toBytes (s : Snapshot) : List UInt8 := Archive.snapshot.toBytes s

/-- The snapshot at the start of some bytes. -/
def ofBytes (bytes : List UInt8) : Except Fault Snapshot :=
  match Archive.snapshot.ofBytes bytes with
  | some (s, _) => .ok s
  | none => .error .undecodable

/-- Tells a snapshot from one that was changed. -/
def fingerprint (s : Snapshot) : UInt64 := Archive.snapshot.fingerprint s

def ofText (text : String) : Except Fault Snapshot :=
  match Archive.snapshot.ofText? text with
  | some s => .ok s
  | none => .error (.malformedText "snapshot")

end Snapshot

def PlannerConfig.ofText (text : String) : Except Fault PlannerConfig :=
  match Archive.plannerConfig.ofText? text with
  | some c => .ok c
  | none => .error (.malformedText "planner config")

/-- Tells a plan from a different one. -/
def Plan.fingerprint (p : Plan) : UInt64 := Archive.plan.fingerprint p

end Quartermaster
