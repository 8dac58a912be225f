import Quartermaster.Fault

/-!
# Checked arithmetic

Sums and differences of numbers that stand in words. The result is the exact one where a word holds
it, and else an overflow. `Checked.sum` adds up a list from its start; as counts are never negative,
it overflows exactly when the whole sum does.
-/

namespace Quartermaster

/-- Whether a number is one of 32 bits with sign. -/
def FitsSigned (n : Int) : Prop := -(wordValues 31 : Int) ≤ n ∧ n < wordValues 31

instance : DecidablePred FitsSigned := fun n =>
  inferInstanceAs (Decidable (-(wordValues 31 : Int) ≤ n ∧ n < wordValues 31))

namespace Checked

/-- A sum of numbers with sign. -/
def add (a b : Int) : Except Fault Int :=
  if FitsSigned (a + b) then .ok (a + b) else .error (.overflow .addition)

/-- A difference of numbers with sign. -/
def subtract (a b : Int) : Except Fault Int :=
  if FitsSigned (a - b) then .ok (a - b) else .error (.overflow .subtraction)

/-- A sum of counts, which have no sign. -/
def addCounts (a b : Nat) : Except Fault Nat :=
  if a + b < wordValues 32 then .ok (a + b) else .error (.overflow .addition)

/-- The sum of a list of counts. -/
def sum (counts : List Nat) : Except Fault Nat := counts.foldlM addCounts 0

theorem add_eq_ok_iff {a b n : Int} : add a b = .ok n ↔ FitsSigned (a + b) ∧ n = a + b := by
  unfold add
  split <;> simp_all [eq_comm]

theorem subtract_eq_ok_iff {a b n : Int} :
    subtract a b = .ok n ↔ FitsSigned (a - b) ∧ n = a - b := by
  unfold subtract
  split <;> simp_all [eq_comm]

theorem foldlM_addCounts (counts : List Nat) {total : Nat} (h : total < wordValues 32) :
    counts.foldlM addCounts total =
      if total + counts.foldr (· + ·) 0 < wordValues 32 then
        .ok (total + counts.foldr (· + ·) 0)
      else .error (.overflow .addition) := by
  induction counts generalizing total with
  | nil => exact (if_pos h).symm
  | cons n counts ih =>
    rw [List.foldlM_cons, List.foldr_cons, ← Nat.add_assoc, addCounts]
    by_cases hn : total + n < wordValues 32
    · rw [if_pos hn]
      exact ih hn
    · rw [if_neg hn, if_neg (by omega)]
      rfl

/-- The sum of a list is the exact one, or there is none. -/
theorem sum_eq (counts : List Nat) :
    sum counts =
      if counts.foldr (· + ·) 0 < wordValues 32 then .ok (counts.foldr (· + ·) 0)
      else .error (.overflow .addition) := by
  rw [sum, foldlM_addCounts counts (wordValues_pos 32), Nat.zero_add]

end Checked

end Quartermaster
