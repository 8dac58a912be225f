/-!
# Production capacity

How many more pieces a territory can take this turn.
-/

namespace Quartermaster

inductive Capacity where
  | limited (count : Nat)
  | unlimited
deriving DecidableEq, Repr, Inhabited

namespace Capacity

/-- The capacity for a count that may be negative, which leaves no room. -/
def ofInt (count : Int) : Capacity := .limited count.toNat

/-- Whether so many more pieces fit. -/
def fits : Capacity → Nat → Bool
  | .limited n, quantity => decide (quantity ≤ n)
  | .unlimited, _ => true

/-- What is left after so many pieces, if they fit. -/
def consume? : Capacity → Nat → Option Capacity
  | .limited n, quantity => if quantity ≤ n then some (.limited (n - quantity)) else none
  | .unlimited, _ => some .unlimited

/-- The finite limit, if there is one. -/
def limit? : Capacity → Option Nat
  | .limited n => some n
  | .unlimited => none

def isExhausted (c : Capacity) : Bool := decide (c = .limited 0)

def toText : Capacity → String
  | .limited n => toString n
  | .unlimited => "unlimited"

end Capacity

end Quartermaster
