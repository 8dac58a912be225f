import Mathlib.Data.Finset.Card
import Mathlib.Data.List.Destutter
import Mathlib.Data.List.Sort
import Quartermaster.Agreement

/-!
# The verdict on several runs

The verdict compares each run with the one before it, while the report sorts the hashes of all runs
and drops what repeats its neighbour. `Agreement.ofHashes_exact` says that the two never contradict
each other: the runs are found to agree exactly if no two hashes differ anywhere in the list, which
is when the report has one entry at most.

The report is taken apart by two laws. It is strictly ascending (`unique_ascending`), since a sorted
list can repeat a number only among neighbours; and its members are the hashes that occur
(`mem_unique_iff`), since what is dropped stays in front of its repetition.
-/

namespace Quartermaster

/-! ## Lists without repeated neighbours -/

section Neighbours

variable {α : Type} [DecidableEq α] {x : α} {xs : List α}

theorem eraseReps_eq_destutter (xs : List α) : xs.eraseReps = xs.destutter (· ≠ ·) := by
  -- the loop gathers backwards what is kept, and carries the last of it apart
  have hloop : ∀ (last : α) (xs kept : List α),
      List.eraseRepsBy.loop (· == ·) last xs kept =
        kept.reverse ++ xs.destutter' (· ≠ ·) last := by
    intro last xs
    induction xs generalizing last with
    | nil => simp [List.eraseRepsBy.loop]
    | cons y xs ih =>
      intro kept
      by_cases hy : last = y
      · subst hy
        rw [List.eraseRepsBy.loop, beq_self_eq_true, List.destutter'_cons_neg _ (not_not_intro rfl)]
        exact ih last kept
      · rw [List.eraseRepsBy.loop, beq_false_of_ne hy, List.destutter'_cons_pos _ hy]
        simpa using ih y (last :: kept)
  cases xs with
  | nil => rfl
  | cons y xs => exact hloop y xs []

theorem mem_eraseReps_iff : x ∈ xs.eraseReps ↔ x ∈ xs := by
  rw [eraseReps_eq_destutter]
  cases xs with
  | nil => rfl
  | cons y xs =>
    rw [List.destutter_cons']
    induction xs generalizing y with
    | nil => rw [List.destutter'_nil]
    | cons z xs ih =>
      by_cases hz : y = z
      · subst hz
        rw [List.destutter'_cons_neg _ (not_not_intro rfl), ih]
        simp
      · rw [List.destutter'_cons_pos _ hz, List.mem_cons, ih, ← List.mem_cons]

end Neighbours

/-- Neighbours that neither fall nor stay equal rise, and then all that follows is above. -/
theorem eraseReps_ascending {ns : List Nat} (h : ns.Pairwise (· ≤ ·)) :
    ns.eraseReps.Pairwise (· < ·) := by
  rw [eraseReps_eq_destutter]
  have hle : (ns.destutter (· ≠ ·)).IsChain (· ≤ ·) :=
    (h.sublist (ns.destutter_sublist (· ≠ ·))).isChain
  have hne : (ns.destutter (· ≠ ·)).IsChain (· ≠ ·) := ns.isChain_destutter (· ≠ ·)
  have hlt : (ns.destutter (· ≠ ·)).IsChain (· < ·) :=
    List.isChain_iff_getElem.mpr fun i hi =>
      Nat.lt_of_le_of_ne (hle.getElem i hi) (hne.getElem i hi)
  exact hlt.pairwise

namespace Agreement

variable {hashes : List UInt64} {n : Nat}

/-! ## The report -/

theorem unique_ascending (a : Agreement) : a.unique.Pairwise (· < ·) :=
  eraseReps_ascending List.sortedLE_mergeSort.pairwise

theorem mem_unique_iff (a : Agreement) : n ∈ a.unique ↔ ∃ h ∈ a.hashes, h.toNat = n := by
  rw [unique, mem_eraseReps_iff, List.mem_mergeSort, List.mem_map]

/-- An ascending list repeats nothing, so it has one entry at most exactly if no two of its members
differ. -/
theorem length_unique_le_one_iff (a : Agreement) :
    a.unique.length ≤ 1 ↔ ∀ h ∈ a.hashes, ∀ h' ∈ a.hashes, h = h' := by
  have hnodup : a.unique.Nodup := a.unique_ascending.imp Nat.ne_of_lt
  rw [← List.toFinset_card_of_nodup hnodup, Finset.card_le_one]
  simp only [List.mem_toFinset, mem_unique_iff]
  constructor
  · intro h x hx y hy
    exact UInt64.toNat_inj.mp (h _ ⟨x, hx, rfl⟩ _ ⟨y, hy, rfl⟩)
  · rintro h _ ⟨x, hx, rfl⟩ _ ⟨y, hy, rfl⟩
    rw [h x hx y hy]

/-! ## The verdict -/

theorem allEqual_iff_isChain : allEqual hashes = true ↔ hashes.IsChain (· = ·) := by
  induction hashes with
  | nil => simp [allEqual]
  | cons a rest ih =>
    cases rest with
    | nil => simp [allEqual]
    | cons b rest => rw [allEqual, Bool.and_eq_true, beq_iff_eq, ih, List.isChain_cons_cons]

/-- Equality passes from neighbour to neighbour through the whole list. -/
theorem allEqual_iff : allEqual hashes = true ↔ ∀ h ∈ hashes, ∀ h' ∈ hashes, h = h' := by
  rw [allEqual_iff_isChain, List.isChain_iff_pairwise]
  constructor
  · intro hpairs h hh h' hh'
    exact hpairs.forall_of_forall (fun _ _ => rfl) hh hh'
  · exact List.pairwise_of_forall_mem_list

theorem require_eq_ok_iff (a : Agreement) : a.require = .ok () ↔ a.agrees = true := by
  unfold require
  split <;> simp [*]

theorem require_eq_error_iff (a : Agreement) :
    a.require = .error (.disagreement a.hashes) ↔ a.agrees ≠ true := by
  unfold require
  split <;> simp [*]

/-- Runs are found to agree exactly if all their hashes are equal, and exactly if the report names
one hash at most. The report names the hashes that occur and no others, each once and in ascending
order. Insisting on agreement fails exactly if two hashes differ. -/
theorem ofHashes_exact (hashes : List UInt64) :
    ((ofHashes hashes).agrees = true ↔ ∀ h ∈ hashes, ∀ h' ∈ hashes, h = h') ∧
      ((ofHashes hashes).agrees = true ↔ (ofHashes hashes).unique.length ≤ 1) ∧
      (ofHashes hashes).unique.Pairwise (· < ·) ∧
      (∀ n, n ∈ (ofHashes hashes).unique ↔ ∃ h ∈ hashes, h.toNat = n) ∧
      ((ofHashes hashes).require = .error (.disagreement hashes) ↔
        ∃ h ∈ hashes, ∃ h' ∈ hashes, h ≠ h') ∧
      ((ofHashes hashes).require = .ok () ↔ ∀ h ∈ hashes, ∀ h' ∈ hashes, h = h') := by
  have hagrees : (ofHashes hashes).agrees = true ↔ ∀ h ∈ hashes, ∀ h' ∈ hashes, h = h' :=
    allEqual_iff
  have hfails : (ofHashes hashes).require = .error (.disagreement hashes) ↔
      ∃ h ∈ hashes, ∃ h' ∈ hashes, h ≠ h' := by
    refine ((ofHashes hashes).require_eq_error_iff.trans hagrees.not).trans ?_
    push Not
    rfl
  exact ⟨hagrees, hagrees.trans (ofHashes hashes).length_unique_le_one_iff.symm,
    unique_ascending _, fun n => mem_unique_iff _, hfails,
    (ofHashes hashes).require_eq_ok_iff.trans hagrees⟩

/-- The middle run differs from both others, which agree. -/
example : (ofHashes [1, 2, 1]).agrees = false ∧ (ofHashes [1, 2, 1]).unique = [1, 2] := by cbv

end Agreement

end Quartermaster
