import Mathlib.Algebra.Ring.Int.Defs
import Mathlib.Data.List.Induction
import Quartermaster.Proofs.Outcome
import Quartermaster.Planner

/-!
# What a choice returns

However a table is chosen from, the answer is one of its keys; the best one is the first of those of
the greatest weight (`heaviest?_foremost`). And a table of positive weights, if it has an entry at
all, is refused for one reason only: the weights add up beyond the range (`totalWeight_of_pos`).
-/

namespace Quartermaster

namespace Selection

/-! ## The first of the best -/

section

variable {α β : Type}

/-- Of the members of a list that satisfy a condition, the first of the greatest score. -/
def Foremost (score : α → Fixed) (P : α → Prop) (l : List α) (a : α) : Prop :=
  ∃ before after, l = before ++ a :: after ∧ P a ∧
    (∀ b ∈ before, P b → score b < score a) ∧ ∀ b ∈ after, P b → score b ≤ score a

namespace Foremost

variable {score : α → Fixed} {P Q : α → Prop} {l : List α} {a b : α}

theorem mem (h : Foremost score P l a) : a ∈ l := by
  obtain ⟨before, after, rfl, -⟩ := h
  exact List.mem_append_right _ (List.mem_cons_self ..)

theorem holds (h : Foremost score P l a) : P a := by
  obtain ⟨before, after, -, hP, -⟩ := h
  exact hP

theorem score_le (h : Foremost score P l a) (hb : b ∈ l) (hP : P b) : score b ≤ score a := by
  obtain ⟨before, after, rfl, -, hbefore, hafter⟩ := h
  rcases List.mem_append.mp hb with hb | hb
  · exact Int.le_of_lt (hbefore b hb hP)
  · rcases List.mem_cons.mp hb with rfl | hb
    · exact Int.le_refl _
    · exact hafter b hb hP

/-- Where each satisfies the condition of the other, the first is one and the same. -/
theorem eq (ha : Foremost score P l a) (hb : Foremost score Q l b) (hPb : P b) (hQa : Q a) :
    a = b := by
  have hab : score a ≤ score b := hb.score_le ha.mem hQa
  have hba : score b ≤ score a := ha.score_le hb.mem hPb
  obtain ⟨before, after, hl, -, hbefore, -⟩ := ha
  obtain ⟨before', after', hl', -, hbefore', -⟩ := hb
  -- as long as one stands before the other, it would have to score less
  have hfresh : b ∉ before := fun h => absurd hab (Int.not_le.mpr (hbefore b h hPb))
  have hfresh' : a ∉ before' := fun h => absurd hba (Int.not_le.mpr (hbefore' a h hQa))
  rcases List.append_eq_append_iff.mp (hl.symm.trans hl') with ⟨c, rfl, hc⟩ | ⟨c, rfl, hc⟩
  · cases c with
    | nil => exact (List.cons.inj hc).1
    | cons d c =>
      obtain ⟨rfl, -⟩ := List.cons.inj hc
      exact absurd (List.mem_append_right _ (List.mem_cons_self ..)) hfresh'
  · cases c with
    | nil => exact (List.cons.inj hc).1.symm
    | cons d c =>
      obtain ⟨rfl, -⟩ := List.cons.inj hc
      exact absurd (List.mem_append_right _ (List.mem_cons_self ..)) hfresh

theorem congr (h : Foremost score P l a) (hPQ : ∀ b ∈ l, P b ↔ Q b) : Foremost score Q l a := by
  have hmem := h.mem
  obtain ⟨before, after, rfl, hP, hbefore, hafter⟩ := h
  refine ⟨before, after, rfl, (hPQ a hmem).mp hP, ?_, ?_⟩
  · intro b hb hQ
    exact hbefore b hb ((hPQ b (List.mem_append_left _ hb)).mpr hQ)
  · intro b hb hQ
    exact hafter b hb ((hPQ b (List.mem_append_right _ (List.mem_cons_of_mem _ hb))).mpr hQ)

/-- What does not score at all cannot stand in the way of what does. -/
theorem of_pos (h : Foremost score (fun b => P b ∧ .zero < score b) l a) :
    Foremost score P l a := by
  obtain ⟨before, after, hl, ⟨hP, hpos⟩, hbefore, hafter⟩ := h
  refine ⟨before, after, hl, hP, ?_, ?_⟩
  · intro b hb hPb
    by_cases hscore : .zero < score b
    · exact hbefore b hb ⟨hPb, hscore⟩
    · exact Int.lt_of_le_of_lt (Int.not_lt.mp hscore) hpos
  · intro b hb hPb
    by_cases hscore : .zero < score b
    · exact hafter b hb ⟨hPb, hscore⟩
    · exact Int.le_trans (Int.not_lt.mp hscore) (Int.le_of_lt hpos)

/-- What a filter drops has failed another condition. -/
theorem of_filter {test : α → Bool} (h : Foremost score P (l.filter test) a) :
    Foremost score (fun b => test b = true ∧ P b) l a := by
  obtain ⟨before, after, hl, hP, hbefore, hafter⟩ := h
  obtain ⟨l₁, l₂, rfl, rfl, hrest⟩ := List.filter_eq_append_iff.mp hl
  obtain ⟨l₃, l₄, rfl, hdropped, htest, rfl⟩ := List.filter_eq_cons_iff.mp hrest
  refine ⟨l₁ ++ l₃, l₄, (List.append_assoc ..).symm, ⟨htest, hP⟩, ?_, ?_⟩
  · rintro b hb ⟨hkept, hPb⟩
    rcases List.mem_append.mp hb with hb | hb
    · exact hbefore b (List.mem_filter.mpr ⟨hb, hkept⟩) hPb
    · exact absurd hkept (hdropped b hb)
  · rintro b hb ⟨hkept, hPb⟩
    exact hafter b (List.mem_filter.mpr ⟨hb, hkept⟩) hPb

theorem map {score : β → Fixed} {P : β → Prop} (f : α → β)
    (h : Foremost (fun c => score (f c)) (fun c => P (f c)) l a) :
    Foremost score P (l.map f) (f a) := by
  obtain ⟨before, after, rfl, hP, hbefore, hafter⟩ := h
  refine ⟨before.map f, after.map f, by rw [List.map_append, List.map_cons], hP, ?_, ?_⟩
  · exact List.forall_mem_map.mpr hbefore
  · exact List.forall_mem_map.mpr hafter

/-- What stands first among images stands first itself. -/
theorem of_map {score : β → Fixed} {P : β → Prop} {f : α → β} {b : β}
    (h : Foremost score P (l.map f) b) :
    ∃ a, f a = b ∧ Foremost (fun c => score (f c)) (fun c => P (f c)) l a := by
  obtain ⟨before, after, hl, hP, hbefore, hafter⟩ := h
  obtain ⟨l₁, l₂, rfl, rfl, hrest⟩ := List.map_eq_append_iff.mp hl
  obtain ⟨a, l₃, rfl, rfl, rfl⟩ := List.map_eq_cons_iff.mp hrest
  exact ⟨a, rfl, l₁, l₃, rfl, hP, List.forall_mem_map.mp hbefore, List.forall_mem_map.mp hafter⟩

/-! Two cases of one more member at the end. -/

theorem snoc_le (h : Foremost score P l a) (hb : P b → score b ≤ score a) :
    Foremost score P (l ++ [b]) a := by
  obtain ⟨before, after, rfl, hP, hbefore, hafter⟩ := h
  refine ⟨before, after ++ [b], by simp, hP, hbefore, ?_⟩
  intro c hc hPc
  rcases List.mem_append.mp hc with hc | hc
  · exact hafter c hc hPc
  · obtain rfl := List.mem_singleton.mp hc
    exact hb hPc

theorem snoc_lt (hP : P b) (hb : ∀ c ∈ l, P c → score c < score b) :
    Foremost score P (l ++ [b]) b :=
  ⟨l, [], rfl, hP, hb, fun _ hc => absurd hc List.not_mem_nil⟩

end Foremost

end

variable {κ : Type} {table : Table κ} {key : κ}

/-! ## Keys -/

theorem reach?_mem {total draw share : Fixed} (h : reach? total draw share table = some key) :
    key ∈ table.map Prod.fst := by
  induction table generalizing share with
  | nil => cases h
  | cons e rest ih =>
    rw [List.map_cons, List.mem_cons]
    rw [reach?] at h
    split at h
    · exact .inl (Option.some.inj h).symm
    · exact .inr (ih h)

theorem atDraw_mem {total draw : Fixed} (h : atDraw table total draw = .ok key) :
    key ∈ table.map Prod.fst := by
  unfold atDraw at h
  cases hreach : reach? total draw .zero table with
  | some k =>
    rw [hreach] at h
    obtain rfl : k = key := by simpa using h
    exact reach?_mem hreach
  | none =>
    rw [hreach, Option.none_or] at h
    cases hlast : table.getLast? with
    | none => simp [hlast] at h
    | some e =>
      obtain rfl : e.1 = key := by simpa [hlast] using h
      exact List.mem_map_of_mem (List.mem_of_getLast? hlast)

theorem weighted_mem {g : Generator} (h : (weighted table g).1 = .ok key) :
    key ∈ table.map Prod.fst := by
  unfold weighted at h
  -- with the draw left as it is, comparing types would run the generator
  generalize g.below Fixed.hundred.bits.toNat = drawn at h
  obtain ⟨draw, g'⟩ := drawn
  cases htotal : totalWeight table with
  | error f =>
    rw [htotal] at h
    cases h
  | ok total =>
    rw [htotal] at h
    exact atDraw_mem h

theorem heaviest?_snoc (table : Table κ) (e : κ × Fixed) :
    heaviest? (table ++ [e]) =
      match heaviest? table with
      | none => some e
      | some b => if b.2 < e.2 then some e else some b := by
  unfold heaviest?
  rw [List.foldl_append]
  rfl

theorem heaviest?_ne_none (hsome : table ≠ []) : heaviest? table ≠ none := by
  induction table using List.reverseRecOn with
  | nil => exact absurd rfl hsome
  | append_singleton table new _ =>
    rw [heaviest?_snoc]
    cases heaviest? table with
    | none => exact Option.some_ne_none new
    | some b =>
      simp only
      split
      · exact Option.some_ne_none new
      · exact Option.some_ne_none b

theorem heaviest?_foremost {e : κ × Fixed} (h : heaviest? table = some e) :
    Foremost Prod.snd (fun _ => True) table e := by
  induction table using List.reverseRecOn generalizing e with
  | nil => cases h
  | append_singleton table new ih =>
    rw [heaviest?_snoc] at h
    cases hbest : heaviest? table with
    | none =>
      rw [hbest] at h
      obtain rfl : new = e := Option.some.inj h
      have hempty : table = [] := Classical.byContradiction fun hsome =>
        heaviest?_ne_none hsome hbest
      rw [hempty]
      exact .snoc_lt trivial fun _ hc => absurd hc List.not_mem_nil
    | some b =>
      have hb := ih hbest
      simp only [hbest] at h
      split at h
      · rename_i hmore
        obtain rfl : new = e := Option.some.inj h
        exact .snoc_lt trivial fun c hc _ => Int.lt_of_le_of_lt (hb.score_le hc trivial) hmore
      · rename_i hnot
        obtain rfl : b = e := Option.some.inj h
        exact hb.snoc_le fun _ => Int.not_lt.mp hnot

theorem best_foremost (h : best table = .ok key) :
    ∃ weight, Foremost Prod.snd (fun _ => True) table (key, weight) := by
  obtain ⟨total, -, h⟩ := Outcome.bind_eq_ok_iff.mp h
  cases hheaviest : heaviest? table with
  | none => simp [hheaviest] at h
  | some e =>
    rw [hheaviest] at h
    obtain rfl : e.1 = key := by simpa [Outcome.pure_eq_ok_iff] using h
    exact ⟨e.2, heaviest?_foremost hheaviest⟩

theorem best_mem (h : best table = .ok key) : key ∈ table.map Prod.fst := by
  obtain ⟨weight, hfirst⟩ := best_foremost h
  exact List.mem_map_of_mem (f := Prod.fst) hfirst.mem

/-! ## Sums of weights -/

/-- The weights of a table, in steps, added up without bound. -/
def totalSteps (table : Table κ) : Int := (table.map fun e => e.2.bits).sum

theorem totalSteps_append (before after : Table κ) :
    totalSteps (before ++ after) = totalSteps before + totalSteps after := by
  unfold totalSteps
  rw [List.map_append, List.sum_append]

theorem totalSteps_snoc (table : Table κ) (e : κ × Fixed) :
    totalSteps (table ++ [e]) = totalSteps table + e.2.bits := by
  rw [totalSteps_append]
  simp [totalSteps]

theorem totalSteps_nonneg (h : ∀ e ∈ table, .zero ≤ e.2) : 0 ≤ totalSteps table := by
  induction table with
  | nil => exact Int.le_refl 0
  | cons e rest ih =>
    obtain ⟨he, hrest⟩ := List.forall_mem_cons.mp h
    have hsteps : 0 ≤ e.2.bits := he
    have hsum := ih hrest
    unfold totalSteps at hsum ⊢
    rw [List.map_cons, List.sum_cons]
    omega

/-- Partial sums only grow, so one of them leaves the range exactly when the last one does. -/
theorem sumFrom_of_nonneg (h : ∀ e ∈ table, .zero ≤ e.2) (index : Nat) {sum : Fixed}
    (hleast : 0 ≤ sum.bits) (hgreatest : sum.bits ≤ Fixed.greatest) :
    sumFrom index sum table =
      if sum.bits + totalSteps table ≤ Fixed.greatest then .ok ⟨sum.bits + totalSteps table⟩
      else .error .weightsOverflow := by
  induction table generalizing index sum with
  | nil =>
    have hsum : sum.bits + totalSteps ([] : Table κ) = sum.bits := Int.add_zero _
    rw [hsum, if_pos hgreatest]
    rfl
  | cons e rest ih =>
    obtain ⟨he, hrest⟩ := List.forall_mem_cons.mp h
    have hsteps : 0 ≤ e.2.bits := he
    have hnonneg := totalSteps_nonneg hrest
    have htotal : sum.bits + totalSteps (e :: rest) = sum.bits + e.2.bits + totalSteps rest := by
      unfold totalSteps
      rw [List.map_cons, List.sum_cons, Int.add_assoc]
    have hnot : ¬e.2 < .zero := Int.not_lt.mpr hsteps
    have hleast' : Fixed.least ≤ sum.bits + e.2.bits := by
      have : Fixed.least ≤ 0 := by decide
      omega
    rw [sumFrom, if_neg hnot, htotal]
    unfold Fixed.add? Fixed.ofBits?
    by_cases hfits : sum.bits + e.2.bits ≤ Fixed.greatest
    · have hFits : Fixed.Fits (sum.bits + e.2.bits) := ⟨hleast', hfits⟩
      rw [if_pos hFits]
      exact ih hrest (index + 1) (by show 0 ≤ sum.bits + e.2.bits; omega) hfits
    · have hFits : ¬Fixed.Fits (sum.bits + e.2.bits) := fun hf => hfits hf.2
      rw [if_neg hFits, if_neg (by omega)]

theorem ne_nil_of_totalSteps_pos (h : 0 < totalSteps table) : table ≠ [] := by
  rintro rfl
  exact absurd h (Int.lt_irrefl 0)

/-- A table without negative weights is refused only if it is empty or all zero, or if its weights
add up beyond the range. -/
theorem totalWeight_of_nonneg (h : ∀ e ∈ table, .zero ≤ e.2) (hpos : 0 < totalSteps table) :
    totalWeight table =
      if totalSteps table ≤ Fixed.greatest then .ok ⟨totalSteps table⟩
      else .error .weightsOverflow := by
  have hzero : Fixed.zero.bits + totalSteps table = totalSteps table := Int.zero_add _
  have hleast : 0 ≤ Fixed.zero.bits := Int.le_refl 0
  have hsum := sumFrom_of_nonneg h 0 hleast (by decide)
  rw [hzero] at hsum
  unfold totalWeight
  rw [List.isEmpty_eq_false_iff.mpr (ne_nil_of_totalSteps_pos hpos), hsum]
  by_cases hfits : totalSteps table ≤ Fixed.greatest
  · have hne : (⟨totalSteps table⟩ : Fixed) ≠ .zero := by
      intro hzero
      have hbits : totalSteps table = 0 := congrArg Fixed.bits hzero
      omega
    simp [hfits, hne, bind, Except.bind, pure, Except.pure]
  · simp [hfits, bind, Except.bind]

theorem exists_atDraw (hsome : table ≠ []) (total draw : Fixed) :
    ∃ key, atDraw table total draw = .ok key := by
  unfold atDraw
  rw [List.getLast?_eq_some_getLast hsome]
  cases reach? total draw .zero table with
  | some key => exact ⟨key, rfl⟩
  | none => exact ⟨(table.getLast hsome).1, rfl⟩

end Selection

theorem Planner.choose_mem {κ : Type} {table : Selection.Table κ} {key : κ} {p p' : Planner}
    (h : choose table p = (.ok key, p')) : key ∈ table.map Prod.fst := by
  unfold choose at h
  split at h
  · exact Selection.weighted_mem (congrArg Prod.fst h)
  · exact Selection.best_mem (congrArg Prod.fst h)

end Quartermaster
