import Quartermaster.Fault
import Quartermaster.Generator

/-!
# Choosing from a table

A table lists keys with weights. `best` takes the first key of the greatest weight; `weighted`
gives each key a slice of the hundred in proportion to its weight and takes the one whose slice
a draw falls into. Both refuse a table that is empty, that has a negative weight, whose weights
are all zero, or whose weights sum beyond the range of fixed-point numbers.
-/

namespace Quartermaster.Selection

variable {κ : Type}

abbrev Table (κ : Type) := List (κ × Fixed)

/-- Adds up weights from an index on. -/
def sumFrom (index : Nat) (sum : Fixed) : Table κ → Except Fault Fixed
  | [] => .ok sum
  | e :: es =>
    if e.2 < .zero then .error (.negativeWeight index e.2)
    else match sum.add? e.2 with
      | none => .error .weightsOverflow
      | some sum => sumFrom (index + 1) sum es

/-- The sum of the weights of a table that can be chosen from. -/
def totalWeight (table : Table κ) : Except Fault Fixed := do
  if table.isEmpty then throw .emptySelection
  let total ← sumFrom 0 .zero table
  if total = .zero then throw .weightsAllZero
  return total

/-- The first key with a positive weight whose slice ends at the draw or after it; the slices
begin at `share`. -/
def reach? (total draw share : Fixed) : Table κ → Option κ
  | [] => none
  | e :: es =>
    let share := share.saturatingAdd (.percentage e.2 total)
    if .zero < e.2 ∧ draw ≤ share then some e.1 else reach? total draw share es

/-- The key that a draw falls on. Rounding can leave the last slice short of the draw; the last
key then has it. -/
def atDraw (table : Table κ) (total draw : Fixed) : Except Fault κ :=
  match (reach? total draw .zero table).or (table.getLast?.map Prod.fst) with
  | some key => .ok key
  | none => .error .emptySelection

/-- A key at random, in proportion to the weights. A table that is refused draws nothing. -/
def weighted (table : Table κ) (g : Generator) : Except Fault κ × Generator :=
  match totalWeight table with
  | .error f => (.error f, g)
  | .ok total =>
    let (draw, g) := g.below Fixed.hundred.bits.toNat
    (atDraw table total ⟨draw⟩, g)

/-- The entry with the greatest weight; of equal ones the first. -/
def heaviest? : Table κ → Option (κ × Fixed) :=
  List.foldl (fun best e =>
    match best with
    | none => some e
    | some b => if b.2 < e.2 then some e else some b) none

/-- The key of the greatest weight. -/
def best (table : Table κ) : Except Fault κ := do
  let _ ← totalWeight table
  match heaviest? table with
  | some e => return e.1
  | none => throw .emptySelection

end Quartermaster.Selection
