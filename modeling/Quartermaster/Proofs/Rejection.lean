import Mathlib.Algebra.BigOperators.Group.List.Basic
import Quartermaster.Proofs.Choice

/-!
# Tables that are refused

Both ways of choosing look through a table once. They add up the weights and stop at the first entry
that spoils the sum: one with a negative weight, or one that takes the sum beyond the range. So what
is reported hangs on the order of the entries: a sum that leaves the range early hides a negative
weight behind it (`Unfit` says what is reported when). Whether anything is reported does not
(`exists_unfit_iff`), and the two ways of choosing never differ in it (`refusals_agree`).
-/

namespace Quartermaster.Selection

variable {κ : Type} {table before after : Table κ} {e : κ × Fixed} {f : Fault}

/-! ## Weights that can be added up -/

/-- No weight is negative, and together they stay within the range. -/
structure Addable (table : Table κ) : Prop where
  nonneg : ∀ e ∈ table, .zero ≤ e.2
  fits : totalSteps table ≤ Fixed.greatest

theorem addable_nil : Addable ([] : Table κ) :=
  ⟨fun _ he => absurd he List.not_mem_nil, show (0 : Int) ≤ Fixed.greatest by decide⟩

theorem Addable.sumFrom_eq (h : Addable table) :
    sumFrom 0 .zero table = .ok ⟨totalSteps table⟩ := by
  have hsteps : Fixed.zero.bits + totalSteps table = totalSteps table := Int.zero_add _
  have hleast : 0 ≤ Fixed.zero.bits := Int.le_refl 0
  rw [sumFrom_of_nonneg h.nonneg 0 hleast (by decide), hsteps, if_pos h.fits]

/-- Where the last entry spoils the sum, it is by a negative weight or by going too far. -/
theorem Addable.snoc_or (h : Addable before) (hnot : ¬Addable (before ++ [e])) :
    e.2 < .zero ∨ .zero ≤ e.2 ∧ Fixed.greatest < totalSteps (before ++ [e]) := by
  by_cases hneg : e.2 < .zero
  · exact .inl hneg
  · have hzero : .zero ≤ e.2 := Int.not_lt.mp hneg
    refine .inr ⟨hzero, Int.not_le.mp fun hfits => hnot ⟨?_, hfits⟩⟩
    intro e' he'
    rcases List.mem_append.mp he' with hold | hnew
    · exact h.nonneg e' hold
    · exact List.mem_singleton.mp hnew ▸ hzero

/-- What cannot be added up has a first entry that spoils it. -/
theorem exists_break (h : ¬Addable table) :
    ∃ before e after, table = before ++ e :: after ∧ Addable before ∧
      ¬Addable (before ++ [e]) := by
  induction table using List.reverseRecOn with
  | nil => exact absurd addable_nil h
  | append_singleton table new ih =>
    by_cases htable : Addable table
    · exact ⟨table, new, [], rfl, htable, h⟩
    · obtain ⟨before, e, after, hsplit, hbefore, hbreak⟩ := ih htable
      exact ⟨before, e, after ++ [new], by rw [hsplit]; simp, hbefore, hbreak⟩

/-! ## The pass over the weights -/

theorem sumFrom_append (index : Nat) (sum : Fixed) (before after : Table κ) :
    sumFrom index sum (before ++ after) =
      sumFrom index sum before >>= fun sum => sumFrom (index + before.length) sum after := by
  induction before generalizing index sum with
  | nil => rfl
  | cons e before ih =>
    rw [List.cons_append, sumFrom, sumFrom, List.length_cons, ← Nat.add_assoc,
      Nat.add_right_comm]
    split
    · rfl
    · cases sum.add? e.2 with
      | none => rfl
      | some sum => exact ih (index + 1) sum

/-- What is found wrong at an entry, after the ones before it were added up. -/
theorem Addable.sumFrom_break (h : Addable before) :
    sumFrom 0 .zero (before ++ e :: after) =
      if e.2 < .zero then .error (.negativeWeight before.length e.2)
      else match (⟨totalSteps before⟩ : Fixed).add? e.2 with
        | none => .error .weightsOverflow
        | some sum => sumFrom (before.length + 1) sum after := by
  rw [sumFrom_append, h.sumFrom_eq, Nat.zero_add]
  rfl

/-- Why a table cannot be chosen from. Of the entries that spoil the sum the first is reported. -/
inductive Unfit : Table κ → Fault → Prop
  | empty : Unfit [] .emptySelection
  | negative {before after : Table κ} {e : κ × Fixed} (hbefore : Addable before)
    (hneg : e.2 < .zero) : Unfit (before ++ e :: after) (.negativeWeight before.length e.2)
  | overflow {before after : Table κ} {e : κ × Fixed} (hbefore : Addable before)
    (hzero : .zero ≤ e.2) (hbeyond : Fixed.greatest < totalSteps (before ++ [e])) :
    Unfit (before ++ e :: after) .weightsOverflow
  | allZero {table : Table κ} (hsome : table ≠ []) (hzero : ∀ e ∈ table, e.2 = .zero) :
    Unfit table .weightsAllZero

theorem totalWeight_of_ne_nil (h : table ≠ []) :
    totalWeight table = sumFrom 0 .zero table >>= fun total =>
      if total = .zero then .error .weightsAllZero else .ok total := by
  unfold totalWeight
  rw [List.isEmpty_eq_false_iff.mpr h]
  rfl

theorem totalSteps_of_zeros (h : ∀ e ∈ table, e.2 = .zero) : totalSteps table = 0 := by
  unfold totalSteps
  refine List.sum_eq_zero fun n hn => ?_
  obtain ⟨e, he, rfl⟩ := List.mem_map.mp hn
  rw [h e he]
  rfl

theorem zeros_of_totalSteps (h : ∀ e ∈ table, .zero ≤ e.2) (htotal : totalSteps table = 0) :
    ∀ e ∈ table, e.2 = .zero := by
  induction table with
  | nil => exact fun _ he => absurd he List.not_mem_nil
  | cons e rest ih =>
    obtain ⟨he, hrest⟩ := List.forall_mem_cons.mp h
    have hsteps : 0 ≤ e.2.bits := he
    have hsum := totalSteps_nonneg hrest
    have hsplit : totalSteps (e :: rest) = e.2.bits + totalSteps rest := List.sum_cons
    have hbits : e.2.bits = 0 := by omega
    exact List.forall_mem_cons.mpr ⟨congrArg Fixed.mk hbits, ih hrest (by omega)⟩

theorem Unfit.totalWeight_eq (h : Unfit table f) : totalWeight table = .error f := by
  cases h with
  | empty => rfl
  | negative hbefore hneg =>
    rw [totalWeight_of_ne_nil (by simp), hbefore.sumFrom_break, if_pos hneg]
    rfl
  | @overflow before after e hbefore hzero hbeyond =>
    have hnot : ¬Fixed.Fits (totalSteps before + e.2.bits) := fun hfits =>
      Int.not_le.mpr (totalSteps_snoc before e ▸ hbeyond) hfits.2
    have hnone : (⟨totalSteps before⟩ : Fixed).add? e.2 = none := if_neg hnot
    have hpos : ¬e.2 < .zero := Int.not_lt.mpr hzero
    rw [totalWeight_of_ne_nil (by simp), hbefore.sumFrom_break, if_neg hpos, hnone]
    rfl
  | allZero hsome hzero =>
    have haddable : Addable table := by
      refine ⟨fun e he => ?_, ?_⟩
      · rw [hzero e he]
        exact Int.le_refl 0
      · rw [totalSteps_of_zeros hzero]
        decide
    rw [totalWeight_of_ne_nil hsome, haddable.sumFrom_eq, totalSteps_of_zeros hzero]
    rfl

/-- Weights that cannot be added up are reported. -/
theorem exists_unfit_of_not_addable (h : ¬Addable table) : ∃ f, Unfit table f := by
  obtain ⟨before, e, after, rfl, hbefore, hbreak⟩ := exists_break h
  rcases hbefore.snoc_or hbreak with hneg | ⟨hzero, hbeyond⟩
  · exact ⟨_, .negative hbefore hneg⟩
  · exact ⟨_, .overflow hbefore hzero hbeyond⟩

theorem totalWeight_eq_error_iff : totalWeight table = .error f ↔ Unfit table f := by
  refine ⟨fun h => ?_, Unfit.totalWeight_eq⟩
  -- any reason there is must be the one reported
  have hreason : (∃ f', Unfit table f') → Unfit table f := by
    rintro ⟨f', hf'⟩
    obtain rfl : f' = f := Except.error.inj (hf'.totalWeight_eq.symm.trans h)
    exact hf'
  by_cases hsome : table = []
  · subst hsome
    exact hreason ⟨_, .empty⟩
  by_cases haddable : Addable table
  · rw [totalWeight_of_ne_nil hsome, haddable.sumFrom_eq] at h
    by_cases htotal : totalSteps table = 0
    · exact hreason ⟨_, .allZero hsome (zeros_of_totalSteps haddable.nonneg htotal)⟩
    · have hne : (⟨totalSteps table⟩ : Fixed) ≠ .zero := fun hzero =>
        htotal (congrArg Fixed.bits hzero)
      simp [bind, Except.bind, hne] at h
  · exact hreason (exists_unfit_of_not_addable haddable)

/-- Whether a table can be chosen from hangs on its weights only, not on their order. -/
theorem exists_unfit_iff : (∃ f, Unfit table f) ↔
    table = [] ∨ (∃ e ∈ table, e.2 < .zero) ∨ (∀ e ∈ table, e.2 = .zero) ∨
      ¬Fixed.Fits (totalSteps table) := by
  constructor
  · rintro ⟨f, h⟩
    cases h with
    | empty => exact .inl rfl
    | @negative before after e hbefore hneg => exact .inr (.inl ⟨e, by simp, hneg⟩)
    | @overflow before after e hbefore hzero hbeyond =>
      by_cases hneg : ∃ e' ∈ before ++ e :: after, e'.2 < .zero
      · exact .inr (.inl hneg)
      · -- what comes after the overflow cannot take it back
        have hafter : ∀ e' ∈ after, .zero ≤ e'.2 := fun e' he' =>
          Int.not_lt.mp fun hlt => hneg ⟨e', by simp [he'], hlt⟩
        have hsum := totalSteps_nonneg hafter
        have hsplit : totalSteps (before ++ e :: after) =
            totalSteps (before ++ [e]) + totalSteps after := by
          rw [← totalSteps_append, List.append_assoc, List.singleton_append]
        exact .inr (.inr (.inr fun hfits => by have := hfits.2; omega))
    | allZero hsome hzero => exact .inr (.inr (.inl hzero))
  · rintro (rfl | ⟨e, he, hneg⟩ | hzero | hrange)
    · exact ⟨_, .empty⟩
    · exact exists_unfit_of_not_addable fun h => absurd (h.nonneg e he) (Int.not_le.mpr hneg)
    · by_cases hsome : table = []
      · subst hsome
        exact ⟨_, .empty⟩
      · exact ⟨_, .allZero hsome hzero⟩
    · refine exists_unfit_of_not_addable fun h => hrange ⟨?_, h.fits⟩
      have hleast : Fixed.least ≤ 0 := by decide
      exact Int.le_trans hleast (totalSteps_nonneg h.nonneg)

/-! ## The two ways of choosing -/

theorem ne_nil_of_totalWeight {total : Fixed} (h : totalWeight table = .ok total) :
    table ≠ [] := by
  rintro rfl
  cases h

theorem exists_best {total : Fixed} (h : totalWeight table = .ok total) :
    ∃ key, best table = .ok key := by
  unfold best
  rw [h]
  cases hheaviest : heaviest? table with
  | none => exact absurd hheaviest (heaviest?_ne_none (ne_nil_of_totalWeight h))
  | some e => exact ⟨e.1, rfl⟩

theorem best_eq_error_iff : best table = .error f ↔ totalWeight table = .error f := by
  cases htotal : totalWeight table with
  | error f' =>
    unfold best
    rw [htotal]
    simp [bind, Except.bind]
  | ok total =>
    obtain ⟨key, hkey⟩ := exists_best htotal
    rw [hkey]
    exact iff_of_false nofun nofun

/-- A weighted choice is made, or the table is refused and nothing is drawn. -/
theorem weighted_cases (table : Table κ) (g : Generator) :
    (∃ f, totalWeight table = .error f ∧ weighted table g = (.error f, g)) ∨
      ∃ total key g', totalWeight table = .ok total ∧ weighted table g = (.ok key, g') := by
  unfold weighted
  -- with the draw left as it is, comparing types would run the generator
  generalize g.below Fixed.hundred.bits.toNat = drawn
  obtain ⟨draw, g'⟩ := drawn
  cases htotal : totalWeight table with
  | error f => exact .inl ⟨f, rfl, rfl⟩
  | ok total =>
    obtain ⟨key, hkey⟩ := exists_atDraw (ne_nil_of_totalWeight htotal) total ⟨draw⟩
    exact .inr ⟨total, key, g', rfl, by simp only [hkey]⟩

theorem weighted_eq_error_iff {g : Generator} :
    (weighted table g).1 = .error f ↔ totalWeight table = .error f := by
  rcases weighted_cases table g with ⟨f', htotal, hchosen⟩ | ⟨total, key, g', htotal, hchosen⟩
  · rw [htotal, hchosen]
    simp
  · rw [htotal, hchosen]
    exact iff_of_false nofun nofun

/-- The weighted choice and the best one refuse the same tables, for the same reason: those that are
empty, that have a negative weight, whose weights are all zero, or whose weights add up beyond the
range. So the order of a table has no part in it. A refused table draws nothing. From any other one
the best choice is the first key of the greatest weight, and the weighted one finds a key on any
draw. -/
theorem refusals_agree (table : Table κ) (g : Generator) :
    (∀ f, (weighted table g).1 = .error f ↔ best table = .error f) ∧
    (∀ f, best table = .error f ↔ Unfit table f) ∧
    ((∃ f, best table = .error f) ↔
      table = [] ∨ (∃ e ∈ table, e.2 < .zero) ∨ (∀ e ∈ table, e.2 = .zero) ∨
        ¬Fixed.Fits (totalSteps table)) ∧
    (∀ other : Table κ, other.Perm table →
      ((∃ f, best other = .error f) ↔ ∃ f, best table = .error f)) ∧
    (∀ f, (weighted table g).1 = .error f → (weighted table g).2 = g) ∧
    ((¬∃ f, best table = .error f) →
      (∃ key weight, best table = .ok key ∧
        Foremost Prod.snd (fun _ => True) table (key, weight)) ∧
      ∃ total, totalWeight table = .ok total ∧
        ∀ draw, ∃ key, atDraw table total draw = .ok key) := by
  have hbest : ∀ {table : Table κ} {f}, best table = .error f ↔ Unfit table f :=
    best_eq_error_iff.trans totalWeight_eq_error_iff
  refine ⟨fun f => weighted_eq_error_iff.trans best_eq_error_iff.symm, fun f => hbest, ?_, ?_, ?_,
    ?_⟩
  · simp only [hbest]
    exact exists_unfit_iff
  · intro other hperm
    have hsteps : totalSteps other = totalSteps table := (hperm.map _).sum_eq
    have hempty : other = [] ↔ table = [] := by
      rw [← List.length_eq_zero_iff, ← List.length_eq_zero_iff, hperm.length_eq]
    simp only [hbest, exists_unfit_iff, hperm.mem_iff, hsteps, hempty]
  · intro f hrefused
    rcases weighted_cases table g with ⟨f', -, hchosen⟩ | ⟨total, key, g', -, hchosen⟩
    · rw [hchosen]
    · rw [hchosen] at hrefused
      cases hrefused
  · intro hfit
    cases htotal : totalWeight table with
    | error f => exact absurd ⟨f, best_eq_error_iff.mpr htotal⟩ hfit
    | ok total =>
      obtain ⟨key, hkey⟩ := exists_best htotal
      obtain ⟨weight, hfirst⟩ := best_foremost hkey
      exact ⟨⟨key, weight, hkey, hfirst⟩, total, rfl,
        exists_atDraw (ne_nil_of_totalWeight htotal) total⟩

/-- The order of the same three entries decides what is reported. -/
example :
    let table : Table Nat := [(0, ⟨Fixed.greatest⟩), (1, ⟨1⟩), (2, ⟨-1⟩)]
    best table = .error .weightsOverflow ∧
      best table.reverse = .error (.negativeWeight 0 ⟨-1⟩) := by
  decide +kernel

end Quartermaster.Selection
