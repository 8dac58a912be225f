import Mathlib.Algebra.Order.Field.Rat
import Mathlib.Data.Int.Cast.Lemmas
import Mathlib.Order.Interval.Finset.Nat
import Mathlib.Tactic.Linarith
import Mathlib.Tactic.Positivity
import Mathlib.Tactic.Ring
import Quartermaster.Proofs.Choice

/-!
# Shares of the hundred

A weighted choice gives each entry a slice of the hundred. The quotient behind a slice is cut to
whole steps and then scaled by a hundred, so a slice falls short of its exact share by less than a
hundred steps; what all entries lose is left to the last one. `weighted_proportional` adds this up:
the draws that fall on an entry are as many as its weight asks for, up to a hundred for each entry
of the table and one for the draw of zero.
-/

namespace Quartermaster

/-! ## The draw -/

theorem Generator.next_lt (g : Generator) : g.next.1 < wordValues 64 := UInt64.toNat_lt _

/-- The second word can carry only where the high part is not the last number already. -/
theorem Generator.below_lt {bound : Nat} (hpos : 0 < bound) (g : Generator) :
    (g.below bound).1 < bound := by
  have hvalues := wordValues_pos 64
  have hx := g.next_lt
  unfold below
  generalize wordValues 64 = values at hvalues hx ⊢
  -- with the word left as it is, comparing types would run the generator
  generalize g.next = word at hx ⊢
  obtain ⟨x, g'⟩ := word
  simp only at hx ⊢
  have hsplit := Nat.div_add_mod (x * bound) values
  have hprod : x * bound + bound ≤ values * bound := by
    have := Nat.mul_le_mul_right bound (Nat.succ_le_of_lt hx)
    rwa [Nat.succ_mul] at this
  have hhigh : x * bound / values < bound :=
    Nat.div_lt_of_lt_mul (by omega)
  split
  case isTrue hlow =>
    have hroom : x * bound / values + 1 < bound := by
      by_contra hlast
      have hlast : bound = x * bound / values + 1 := by omega
      have hvaluesBound : values * bound = values * (x * bound / values) + values := by
        conv_lhs => rw [hlast]
        rw [Nat.mul_add, Nat.mul_one]
      omega
    split <;> omega
  case isFalse => exact hhigh

namespace Fixed

/-! ## One slice -/

/-- The steps of the slice of a part in a total. -/
def slice (part total : Int) : Int := part * scale / total * 100

theorem scale_pos : 0 < scale := by decide

theorem hundred_bits : hundred.bits = 100 * scale := rfl

theorem fits_of_nonneg {n : Int} (hnonneg : 0 ≤ n) (hle : n ≤ greatest) : Fits n := by
  have hleast : least ≤ 0 := by decide
  exact ⟨hleast.trans hnonneg, hle⟩

theorem fits_of_le_hundred {n : Int} (hnonneg : 0 ≤ n) (hle : n ≤ hundred.bits) : Fits n := by
  have hgreatest : hundred.bits ≤ greatest := by decide
  exact fits_of_nonneg hnonneg (hle.trans hgreatest)

/-- Quotients that are not negative are cut down. -/
theorem div?_of_fits {a b : Fixed} (ha : 0 ≤ a.bits) (hb : 0 < b.bits)
    (hfits : Fits (a.bits * scale / b.bits)) : div? a b = some ⟨a.bits * scale / b.bits⟩ := by
  unfold div? ofBits?
  rw [if_neg hb.ne', Int.tdiv_eq_ediv_of_nonneg (Int.mul_nonneg ha scale_pos.le)]
  exact if_pos hfits

theorem saturatingAdd_of_fits {a b : Fixed} (h : Fits (a.bits + b.bits)) :
    a.saturatingAdd b = ⟨a.bits + b.bits⟩ := by
  unfold saturatingAdd
  rw [min_eq_right h.2, max_eq_right h.1]

variable {part total : Int}

theorem slice_nonneg (hpart : 0 ≤ part) (htotal : 0 < total) : 0 ≤ slice part total := by
  have := Int.ediv_nonneg (Int.mul_nonneg hpart scale_pos.le) htotal.le
  unfold slice
  omega

theorem slice_zero (total : Int) : slice 0 total = 0 := by
  unfold slice
  rw [Int.zero_mul, Int.zero_ediv, Int.zero_mul]

/-- A slice is at most its exact share, and less than a hundred steps short of it. -/
theorem slice_bounds (htotal : 0 < total) (part : Int) :
    total * slice part total ≤ hundred.bits * part ∧
      hundred.bits * part < total * (slice part total + 100) := by
  have hfloor := Int.mul_ediv_self_le (x := part * scale) htotal.ne'
  have hshort := Int.lt_mul_ediv_self_add (x := part * scale) htotal
  rw [hundred_bits]
  unfold slice
  constructor <;> linarith

/-- Neither the quotient nor the product behind a percentage leaves the range. -/
theorem percentage_eq (hpart : 0 ≤ part) (hle : part ≤ total) (htotal : 0 < total) :
    ∃ share, div? ⟨part⟩ ⟨total⟩ = some share ∧ share.mul? hundred = some ⟨slice part total⟩ ∧
      percentage ⟨part⟩ ⟨total⟩ = ⟨slice part total⟩ := by
  have hscale := scale_pos
  have hnumerator : 0 ≤ part * scale := Int.mul_nonneg hpart hscale.le
  have hshare : 0 ≤ part * scale / total := Int.ediv_nonneg hnumerator htotal.le
  have hone : part * scale / total ≤ scale :=
    Int.ediv_le_of_le_mul htotal (by
      rw [Int.mul_comm scale]
      exact Int.mul_le_mul_of_nonneg_right hle hscale.le)
  have hcap : slice part total ≤ hundred.bits := by
    rw [hundred_bits]
    unfold slice
    omega
  have hfits : Fits (part * scale / total) :=
    fits_of_le_hundred hshare (by rw [hundred_bits]; omega)
  have hfits' := fits_of_le_hundred (slice_nonneg hpart htotal) hcap
  have hdiv : div? ⟨part⟩ ⟨total⟩ = some ⟨part * scale / total⟩ := div?_of_fits hpart htotal hfits
  have hmul : mul? ⟨part * scale / total⟩ hundred = some ⟨slice part total⟩ := by
    have hproduct : part * scale / total * hundred.bits = slice part total * scale := by
      rw [hundred_bits]
      unfold slice
      ring
    unfold mul? ofBits?
    rw [hproduct, Int.fdiv_eq_ediv_of_nonneg _ hscale.le, Int.mul_ediv_cancel _ hscale.ne']
    exact if_pos hfits'
  have hnot : ¬(⟨total⟩ : Fixed) ≤ zero := Int.not_le.mpr htotal
  refine ⟨_, hdiv, hmul, ?_⟩
  unfold percentage
  rw [if_neg hnot, hdiv, Option.bind_some, hmul, Option.getD_some]

end Fixed

namespace Selection

variable {κ κ' : Type} {table : Table κ}

/-! ## The cumulative share -/

/-- Where the slices of the listed entries end. -/
def shareAfter (total : Fixed) (table : Table κ) : Fixed :=
  table.foldl (fun share e => share.saturatingAdd (.percentage e.2 total)) .zero

theorem shareAfter_snoc (total : Fixed) (table : Table κ) (e : κ × Fixed) :
    shareAfter total (table ++ [e]) =
      (shareAfter total table).saturatingAdd (.percentage e.2 total) := by
  unfold shareAfter
  rw [List.foldl_append]
  rfl

/-- The slices of the listed entries, added up without bound. -/
def slices (total : Int) (table : Table κ) : Int :=
  (table.map fun e => Fixed.slice e.2.bits total).sum

theorem slices_append (total : Int) (before after : Table κ) :
    slices total (before ++ after) = slices total before + slices total after := by
  unfold slices
  rw [List.map_append, List.sum_append]

theorem slices_snoc (total : Int) (table : Table κ) (e : κ × Fixed) :
    slices total (table ++ [e]) = slices total table + Fixed.slice e.2.bits total := by
  rw [slices_append]
  simp [slices]

/-- Together the entries lose less than a hundred steps each. -/
theorem slices_bounds {total : Int} (htotal : 0 < total) (table : Table κ) :
    total * slices total table ≤ Fixed.hundred.bits * totalSteps table ∧
      Fixed.hundred.bits * totalSteps table + table.length ≤
        total * (slices total table + 100 * table.length) := by
  induction table using List.reverseRecOn with
  | nil => simp [slices, totalSteps]
  | append_singleton table e ih =>
    obtain ⟨hfloor, hshort⟩ := Fixed.slice_bounds htotal e.2.bits
    rw [slices_snoc, totalSteps_snoc, List.length_append, List.length_singleton, Nat.cast_add,
      Nat.cast_one]
    constructor <;> linarith

/-- A part of a table whose weights fit in the total has its slices inside the hundred. -/
theorem slices_le_hundred {total : Int} (htotal : 0 < total) (hle : totalSteps table ≤ total) :
    slices total table ≤ Fixed.hundred.bits := by
  have hhundred : 0 ≤ Fixed.hundred.bits := by decide
  have hfloor := (slices_bounds htotal table).1
  have hcap := Int.mul_le_mul_of_nonneg_left hle hhundred
  refine Int.le_of_mul_le_mul_left ?_ htotal
  linarith

section Shares

variable {total : Int} (htotal : 0 < total)

include htotal

/-- Sums of slices never leave the range, so the cumulative share is exact. -/
theorem shareAfter_eq (h : ∀ e ∈ table, .zero ≤ e.2) (hle : totalSteps table ≤ total) :
    shareAfter ⟨total⟩ table = ⟨slices total table⟩ ∧ 0 ≤ slices total table := by
  induction table using List.reverseRecOn with
  | nil => exact ⟨rfl, Int.le_refl 0⟩
  | append_singleton table e ih =>
    obtain ⟨hbefore, he⟩ := List.forall_mem_append.mp h
    have hweight : 0 ≤ e.2.bits := he e (List.mem_singleton_self e)
    have hrest := totalSteps_nonneg hbefore
    have hcap := slices_le_hundred htotal hle
    rw [totalSteps_snoc] at hle
    rw [slices_snoc] at hcap ⊢
    obtain ⟨hshare, hnonneg⟩ := ih hbefore (by omega)
    obtain ⟨-, -, -, hpercentage⟩ := Fixed.percentage_eq hweight (by omega) htotal
    have hslice := Fixed.slice_nonneg hweight htotal
    have hfits := Fixed.fits_of_le_hundred (Int.add_nonneg hnonneg hslice) hcap
    rw [shareAfter_snoc, hshare, hpercentage]
    exact ⟨Fixed.saturatingAdd_of_fits hfits, Int.add_nonneg hnonneg hslice⟩

theorem shareAfter_le_hundred (h : ∀ e ∈ table, .zero ≤ e.2) (hle : totalSteps table ≤ total) :
    shareAfter ⟨total⟩ table ≤ .hundred := by
  rw [(shareAfter_eq htotal h hle).1]
  exact slices_le_hundred htotal hle

/-- An entry moves the cumulative share on by its percentage, and nothing leaves the range. -/
theorem shareAfter_step {before : Table κ} {e : κ × Fixed}
    (h : ∀ e' ∈ before ++ [e], .zero ≤ e'.2) (hle : totalSteps (before ++ [e]) ≤ total) :
    ∃ share slice, e.2.div? ⟨total⟩ = some share ∧ share.mul? .hundred = some slice ∧
      .percentage e.2 ⟨total⟩ = slice ∧
      (shareAfter ⟨total⟩ before).add? slice = some (shareAfter ⟨total⟩ (before ++ [e])) ∧
      shareAfter ⟨total⟩ before ≤ shareAfter ⟨total⟩ (before ++ [e]) := by
  obtain ⟨hbefore, he⟩ := List.forall_mem_append.mp h
  have hweight : 0 ≤ e.2.bits := he e (List.mem_singleton_self e)
  obtain ⟨hshare, hnonneg⟩ := shareAfter_eq htotal h hle
  have hcap := slices_le_hundred htotal hle
  have hfits := Fixed.fits_of_le_hundred hnonneg hcap
  have hrest := totalSteps_nonneg hbefore
  rw [totalSteps_snoc] at hle
  obtain ⟨share, hdiv, hmul, hpercentage⟩ := Fixed.percentage_eq hweight (by omega) htotal
  have hshare' := (shareAfter_eq htotal hbefore (by omega)).1
  have hslice := Fixed.slice_nonneg hweight htotal
  rw [hshare, hshare']
  rw [slices_snoc] at hfits ⊢
  exact ⟨share, _, hdiv, hmul, hpercentage, if_pos hfits, Int.le_add_of_nonneg_right hslice⟩

end Shares

/-! ## The entry that a draw reaches -/

theorem reach?_append (total draw share : Fixed) (before after : Table κ) :
    reach? total draw share (before ++ after) =
      (reach? total draw share before).or
        (reach? total draw
          (before.foldl (fun share e => share.saturatingAdd (.percentage e.2 total)) share)
          after) := by
  induction before generalizing share with
  | nil => rfl
  | cons e before ih =>
    rw [List.cons_append, reach?, reach?]
    split
    · rfl
    · exact ih _

theorem reach?_snoc (total draw : Fixed) (table : Table κ) (e : κ × Fixed) :
    reach? total draw .zero (table ++ [e]) =
      (reach? total draw .zero table).or
        (if .zero < e.2 ∧ draw ≤ shareAfter total (table ++ [e]) then some e.1 else none) := by
  rw [reach?_append, shareAfter_snoc]
  rfl

/-- A draw passes by a table when all slices of it end before the draw. An entry without weight
adds nothing, so that it is skipped makes no difference. -/
theorem reach?_eq_none_iff {total : Int} (htotal : 0 < total) (h : ∀ e ∈ table, .zero ≤ e.2)
    (hle : totalSteps table ≤ total) {draw : Fixed} (hdraw : .zero < draw) :
    reach? ⟨total⟩ draw .zero table = none ↔ shareAfter ⟨total⟩ table < draw := by
  induction table using List.reverseRecOn with
  | nil => exact iff_of_true rfl hdraw
  | append_singleton table e ih =>
    obtain ⟨hbefore, he⟩ := List.forall_mem_append.mp h
    have hweight : 0 ≤ e.2.bits := he e (List.mem_singleton_self e)
    have hslice := Fixed.slice_nonneg hweight htotal
    have hshare := (shareAfter_eq htotal h hle).1
    rw [totalSteps_snoc] at hle
    have hshare' := (shareAfter_eq htotal hbefore (by omega)).1
    rw [reach?_snoc, Option.or_eq_none_iff, ih hbefore (by omega), ite_eq_right_iff, hshare,
      hshare', slices_snoc]
    show slices total table < draw.bits ∧ _ ↔
      slices total table + Fixed.slice e.2.bits total < draw.bits
    constructor
    · rintro ⟨hpassed, hskipped⟩
      rcases hweight.eq_or_lt with hzero | hpos
      · rwa [← hzero, Fixed.slice_zero, Int.add_zero]
      · exact Int.not_le.mp fun hreached => nomatch hskipped ⟨hpos, hreached⟩
    · intro hpassed
      refine ⟨by omega, fun hreached => ?_⟩
      exact absurd hreached.2 (Int.not_le.mpr hpassed)

/-- Where a key stands once, it is reached after all entries before it were passed by. -/
theorem reach?_eq_some_iff {total draw : Fixed} {before after : Table κ} {key : κ} {w : Fixed}
    (hbefore : key ∉ before.map Prod.fst) (hafter : key ∉ after.map Prod.fst) :
    reach? total draw .zero (before ++ (key, w) :: after) = some key ↔
      reach? total draw .zero before = none ∧ .zero < w ∧
        draw ≤ shareAfter total (before ++ [(key, w)]) := by
  rw [List.append_cons, reach?_append, reach?_snoc]
  cases hearly : reach? total draw .zero before with
  | some k =>
    have hne : k ≠ key := fun heq => hbefore (heq ▸ reach?_mem hearly)
    simp [hne]
  | none =>
    have hlate : ∀ share, reach? total draw share after ≠ some key :=
      fun share h => hafter (reach?_mem h)
    simp [hlate]

section Entry

variable {total : Int} (htotal : 0 < total) {before after : Table κ} {key : κ} {w : Fixed}
  (hbefore : key ∉ before.map Prod.fst) (hafter : key ∉ after.map Prod.fst)
  (h : ∀ e ∈ before ++ (key, w) :: after, .zero ≤ e.2)
  (hle : totalSteps (before ++ (key, w) :: after) ≤ total) {draw : Fixed} (hdraw : .zero < draw)

include htotal hbefore hafter h hle hdraw

/-- A draw above zero reaches the entry in whose slice it is. -/
theorem reach?_eq_some_iff_slice :
    reach? ⟨total⟩ draw .zero (before ++ (key, w) :: after) = some key ↔
      slices total before < draw.bits ∧
        draw.bits ≤ slices total before + Fixed.slice w.bits total := by
  obtain ⟨hpart, hrest⟩ := List.forall_mem_append.mp (List.append_cons .. ▸ h)
  obtain ⟨hstart, hself⟩ := List.forall_mem_append.mp hpart
  have hweight : 0 ≤ w.bits := hself _ (List.mem_singleton_self _)
  have hpartSteps : totalSteps (before ++ [(key, w)]) = totalSteps before + w.bits :=
    totalSteps_snoc ..
  have hsteps := totalSteps_nonneg hrest
  rw [List.append_cons, totalSteps_append] at hle
  rw [reach?_eq_some_iff hbefore hafter,
    reach?_eq_none_iff htotal hstart (by omega) hdraw, (shareAfter_eq htotal hstart (by omega)).1,
    (shareAfter_eq htotal hpart (by omega)).1, slices_snoc]
  show slices total before < draw.bits ∧ 0 < w.bits ∧
    draw.bits ≤ slices total before + Fixed.slice w.bits total ↔ _
  refine and_congr_right fun hpassed => and_iff_right_of_imp fun hends => ?_
  rcases hweight.eq_or_lt with hzero | hpos
  · rw [← hzero, Fixed.slice_zero] at hends
    omega
  · exact hpos

/-- A draw above zero falls on a key if it is in the slice of the key. -/
theorem atDraw_of_slice (hpassed : slices total before < draw.bits)
    (hends : draw.bits ≤ slices total before + Fixed.slice w.bits total) :
    atDraw (before ++ (key, w) :: after) ⟨total⟩ draw = .ok key := by
  have hreach :=
    (reach?_eq_some_iff_slice htotal hbefore hafter h hle hdraw).mpr ⟨hpassed, hends⟩
  unfold atDraw
  rw [hreach]
  rfl

/-- A draw above zero that falls on a key is in the slice of the key, or beyond all slices. -/
theorem slice_of_atDraw (hok : atDraw (before ++ (key, w) :: after) ⟨total⟩ draw = .ok key) :
    (slices total before < draw.bits ∧
        draw.bits ≤ slices total before + Fixed.slice w.bits total) ∨
      slices total (before ++ (key, w) :: after) < draw.bits := by
  cases hreach : reach? ⟨total⟩ draw .zero (before ++ (key, w) :: after) with
  | none =>
    rw [reach?_eq_none_iff htotal h hle hdraw, (shareAfter_eq htotal h hle).1] at hreach
    exact .inr hreach
  | some k =>
    unfold atDraw at hok
    rw [hreach] at hok
    obtain rfl : k = key := Except.ok.inj hok
    exact .inl ((reach?_eq_some_iff_slice htotal hbefore hafter h hle hdraw).mp hreach)

end Entry

/-! ## Counting draws -/

/-- The draws that fall on a key. -/
def drawsOn [DecidableEq κ] (table : Table κ) (key : κ) : Finset Nat :=
  (Finset.range Fixed.hundred.bits.toNat).filter fun draw =>
    atDraw table ⟨totalSteps table⟩ ⟨draw⟩ = .ok key

theorem mem_drawsOn [DecidableEq κ] {key : κ} {draw : Nat} :
    draw ∈ drawsOn table key ↔
      (draw : Int) < Fixed.hundred.bits ∧ atDraw table ⟨totalSteps table⟩ ⟨draw⟩ = .ok key := by
  unfold drawsOn
  rw [Finset.mem_filter, Finset.mem_range, Int.lt_toNat]

/-- Rounding leaves less than a hundred steps for each entry beyond the last slice. -/
theorem hundred_lt_slices (hpos : 0 < totalSteps table) :
    Fixed.hundred.bits < slices (totalSteps table) table + 100 * table.length := by
  have hshort := (slices_bounds hpos table).2
  have hsome := List.length_pos_of_ne_nil (ne_nil_of_totalSteps_pos hpos)
  refine Int.lt_of_mul_lt_mul_left ?_ hpos.le
  rw [Int.mul_comm]
  omega

/-- The slice of an entry, among all slices. -/
theorem slices_of_entry {before after : Table κ} {key : κ} {w : Fixed}
    (htable : table = before ++ (key, w) :: after) (h : ∀ e ∈ table, .zero ≤ e.2)
    (hpos : 0 < totalSteps table) :
    0 ≤ slices (totalSteps table) before ∧ 0 ≤ Fixed.slice w.bits (totalSteps table) ∧
      slices (totalSteps table) before + Fixed.slice w.bits (totalSteps table) ≤
        slices (totalSteps table) table := by
  obtain ⟨hstart, hself⟩ := List.forall_mem_append.mp (htable ▸ h)
  obtain ⟨hweight, hrest⟩ := List.forall_mem_cons.mp hself
  have hbefore := totalSteps_nonneg hstart
  have hafter := totalSteps_nonneg hrest
  have hw : 0 ≤ w.bits := hweight
  have hsteps : totalSteps table = totalSteps before + (w.bits + totalSteps after) := by
    rw [htable, totalSteps_append]
    rfl
  have hslices : slices (totalSteps table) table = slices (totalSteps table) before +
      (Fixed.slice w.bits (totalSteps table) + slices (totalSteps table) after) := by
    generalize totalSteps table = total
    rw [htable, slices_append]
    rfl
  have hfirst := (shareAfter_eq hpos hstart (by omega)).2
  have hlast := (shareAfter_eq hpos hrest (by omega)).2
  have hslice := Fixed.slice_nonneg hw hpos
  omega

section Entry

variable [DecidableEq κ] {before after : Table κ} {key : κ} {w : Fixed}
  (hbefore : key ∉ before.map Prod.fst) (hafter : key ∉ after.map Prod.fst)
  (htable : table = before ++ (key, w) :: after) (h : ∀ e ∈ table, .zero ≤ e.2)
  (hpos : 0 < totalSteps table)

include hbefore hafter htable h hpos

theorem mem_drawsOn_of_slice {draw : Nat} (hdraw : (draw : Int) < Fixed.hundred.bits)
    (hpassed : slices (totalSteps table) before < draw)
    (hends : draw ≤ slices (totalSteps table) before + Fixed.slice w.bits (totalSteps table)) :
    draw ∈ drawsOn table key := by
  have hstart := (slices_of_entry htable h hpos).1
  have hdraw' : .zero < (⟨draw⟩ : Fixed) := hstart.trans_lt hpassed
  have hle := (congrArg totalSteps htable).ge
  refine mem_drawsOn.mpr ⟨hdraw, ?_⟩
  -- the total is that of the whole table and stays when the table is taken apart
  generalize totalSteps table = total at hpos hpassed hends hle ⊢
  subst htable
  exact atDraw_of_slice hpos hbefore hafter h hle hdraw' hpassed hends

theorem slice_of_mem_drawsOn {draw : Nat} (hmem : draw ∈ drawsOn table key) :
    draw = 0 ∨
      (slices (totalSteps table) before < draw ∧
        draw ≤ slices (totalSteps table) before + Fixed.slice w.bits (totalSteps table)) ∨
      slices (totalSteps table) table < draw := by
  rcases Nat.eq_zero_or_pos draw with hzero | hdraw
  · exact .inl hzero
  · have hdraw' : .zero < (⟨draw⟩ : Fixed) := Int.natCast_pos.mpr hdraw
    have hok := (mem_drawsOn.mp hmem).2
    have hle := (congrArg totalSteps htable).ge
    generalize totalSteps table = total at hpos hok hle ⊢
    subst htable
    exact .inr (slice_of_atDraw hpos hbefore hafter h hle hdraw' hok)

/-- A key that stands once has as many draws as its slice has steps: one less, if the slice ends
with the hundred; one more, for the draw of zero; and those that rounding leaves beyond the last
slice. -/
theorem card_drawsOn :
    Fixed.slice w.bits (totalSteps table) - 1 ≤ (drawsOn table key).card ∧
      ((drawsOn table key).card : Int) <
        Fixed.slice w.bits (totalSteps table) + 100 * table.length := by
  obtain ⟨hstart, hslice, hends⟩ := slices_of_entry htable h hpos
  have hlost := hundred_lt_slices hpos
  have hall := slices_le_hundred hpos (Int.le_refl (totalSteps table))
  obtain ⟨a, ha⟩ := Int.eq_ofNat_of_zero_le hstart
  obtain ⟨b, hb⟩ := Int.eq_ofNat_of_zero_le hslice
  obtain ⟨c, hc⟩ := Int.eq_ofNat_of_zero_le ((Int.add_nonneg hstart hslice).trans hends)
  obtain ⟨r, hr⟩ : ∃ r : Nat, Fixed.hundred.bits = r := ⟨_, rfl⟩
  have hinside : Finset.Ioc a (min (a + b) (r - 1)) ⊆ drawsOn table key := by
    intro draw hdraw
    obtain ⟨hpassed, hends⟩ := Finset.mem_Ioc.mp hdraw
    exact mem_drawsOn_of_slice hbefore hafter htable h hpos (by omega) (by omega) (by omega)
  have hwithin : drawsOn table key ⊆ insert 0 (Finset.Ioc a (a + b) ∪ Finset.Ioo c r) := by
    intro draw hdraw
    obtain ⟨hrange, -⟩ := mem_drawsOn.mp hdraw
    have hcases := slice_of_mem_drawsOn hbefore hafter htable h hpos hdraw
    rw [Finset.mem_insert, Finset.mem_union, Finset.mem_Ioc, Finset.mem_Ioo]
    omega
  have hfew := Finset.card_le_card hinside
  have hmany := (Finset.card_le_card hwithin).trans (Finset.card_insert_le ..)
  have hunion := Finset.card_union_le (Finset.Ioc a (a + b)) (Finset.Ioo c r)
  rw [Nat.card_Ioc] at hfew hunion
  rw [Nat.card_Ioo] at hunion
  omega

end Entry

/-! ## Tables by position -/

def relabel (f : κ → κ') (table : Table κ) : Table κ' := table.map fun e => (f e.1, e.2)

theorem reach?_relabel (f : κ → κ') (total draw share : Fixed) (table : Table κ) :
    reach? total draw share (relabel f table) = (reach? total draw share table).map f := by
  induction table generalizing share with
  | nil => rfl
  | cons e rest ih =>
    unfold relabel at ih ⊢
    rw [List.map_cons, reach?, reach?]
    split
    · rfl
    · exact ih _

/-- A draw falls on an entry by its place and the weights alone. -/
theorem atDraw_relabel (f : κ → κ') (total draw : Fixed) (table : Table κ) :
    atDraw (relabel f table) total draw = (atDraw table total draw).map f := by
  have hlast : (relabel f table).getLast?.map Prod.fst = (table.getLast?.map Prod.fst).map f := by
    unfold relabel
    rw [List.getLast?_map, Option.map_map, Option.map_map]
    rfl
  unfold atDraw
  rw [reach?_relabel, hlast, ← Option.map_or]
  cases (reach? total draw .zero table).or (table.getLast?.map Prod.fst) <;> rfl

/-- The table with each key beside its position. -/
def numbered (table : Table κ) : Table (Nat × κ) :=
  table.zipIdx.map fun e => ((e.2, e.1.1), e.1.2)

/-- The table with its positions for keys. -/
def positions (table : Table κ) : Table Nat := relabel Prod.fst (numbered table)

theorem relabel_snd_numbered (table : Table κ) : relabel Prod.snd (numbered table) = table := by
  unfold relabel numbered
  rw [List.map_map]
  exact List.zipIdx_map_fst ..

theorem atDraw_eq_map_numbered (table : Table κ) (total draw : Fixed) :
    atDraw table total draw = (atDraw (numbered table) total draw).map Prod.snd := by
  rw [← atDraw_relabel, relabel_snd_numbered]

theorem mem_numbered {i : Nat} {key : κ} (h : (i, key) ∈ (numbered table).map Prod.fst) :
    ∃ e, table[i]? = some e ∧ e.1 = key := by
  unfold numbered at h
  rw [List.map_map, List.mem_map] at h
  obtain ⟨⟨e, j⟩, hmem, heq⟩ := h
  obtain ⟨rfl, rfl⟩ := Prod.mk.inj heq
  exact ⟨e, List.mk_mem_zipIdx_iff_getElem?.mp hmem, rfl⟩

theorem positions_eq_zipIdx (table : Table κ) :
    positions table = table.zipIdx.map fun e => (e.2, e.1.2) := List.map_map ..

theorem length_positions (table : Table κ) : (positions table).length = table.length := by
  rw [positions_eq_zipIdx, List.length_map, List.length_zipIdx]

theorem totalSteps_relabel (f : κ → κ') (table : Table κ) :
    totalSteps (relabel f table) = totalSteps table :=
  congrArg List.sum (List.map_map ..)

theorem totalSteps_positions (table : Table κ) : totalSteps (positions table) = totalSteps table := by
  conv_rhs => rw [← relabel_snd_numbered table]
  unfold positions
  rw [totalSteps_relabel, totalSteps_relabel]

theorem positions_nonneg (h : ∀ e ∈ table, .zero ≤ e.2) : ∀ e ∈ positions table, .zero ≤ e.2 := by
  rw [positions_eq_zipIdx]
  intro e he
  obtain ⟨x, hx, rfl⟩ := List.mem_map.mp he
  exact h x.1 (List.fst_mem_of_mem_zipIdx hx)

/-- Each position stands once. -/
theorem positions_split {i : Nat} {e : κ × Fixed} (h : table[i]? = some e) :
    ∃ before after, positions table = before ++ (i, e.2) :: after ∧
      i ∉ before.map Prod.fst ∧ i ∉ after.map Prod.fst := by
  have hmem : (i, e.2) ∈ positions table := by
    rw [positions_eq_zipIdx]
    exact List.mem_map.mpr ⟨(e, i), List.mk_mem_zipIdx_iff_getElem?.mpr h, rfl⟩
  have hkeys : ((positions table).map Prod.fst).Nodup := by
    have hrange : (positions table).map Prod.fst = table.zipIdx.map Prod.snd := by
      rw [positions_eq_zipIdx, List.map_map]
      rfl
    rw [hrange, List.zipIdx_map_snd]
    exact List.nodup_range'
  obtain ⟨before, after, hsplit⟩ := List.append_of_mem hmem
  rw [hsplit, List.map_append, List.map_cons, List.nodup_middle, List.nodup_cons,
    List.mem_append, not_or] at hkeys
  exact ⟨before, after, hsplit, hkeys.1⟩

/-! ## Choices -/

/-- A choice from weights that add up is decided by where its one draw falls. -/
theorem weighted_eq_atDraw (h : ∀ e ∈ table, .zero ≤ e.2) (hpos : 0 < totalSteps table)
    (hfits : totalSteps table ≤ Fixed.greatest) (g : Generator) :
    ∃ draw g' i e, g.below Fixed.hundred.bits.toNat = (draw, g') ∧
      draw ∈ drawsOn (positions table) i ∧ table[i]? = some e ∧
      weighted table g = (.ok e.1, g') := by
  have hbound : 0 < Fixed.hundred.bits.toNat := by decide
  have hdraw := g.below_lt hbound
  have htotal := totalWeight_of_nonneg h hpos
  rw [if_pos hfits] at htotal
  unfold weighted
  rw [htotal]
  generalize g.below Fixed.hundred.bits.toNat = drawn at hdraw ⊢
  obtain ⟨draw, g'⟩ := drawn
  have hsome : numbered table ≠ [] := by
    intro hnil
    have hempty := relabel_snd_numbered table
    rw [hnil] at hempty
    exact ne_nil_of_totalSteps_pos hpos hempty.symm
  obtain ⟨⟨i, key⟩, hfalls⟩ := exists_atDraw hsome ⟨totalSteps table⟩ ⟨draw⟩
  obtain ⟨e, he, hkey⟩ := mem_numbered (atDraw_mem hfalls)
  have hposition : atDraw (positions table) ⟨totalSteps table⟩ ⟨draw⟩ = .ok i := by
    unfold positions
    rw [atDraw_relabel, hfalls]
    rfl
  have hchosen : atDraw table ⟨totalSteps table⟩ ⟨draw⟩ = .ok e.1 := by
    rw [atDraw_eq_map_numbered, hfalls, hkey]
    rfl
  refine ⟨draw, g', i, e, rfl, mem_drawsOn.mpr ⟨Int.lt_toNat.mp hdraw, ?_⟩, he, ?_⟩
  · rw [totalSteps_positions]
    exact hposition
  · simp only [hchosen]

/-- The draws that fall on an entry are as many as its weight asks for, but for rounding. -/
theorem card_drawsOn_positions (h : ∀ e ∈ table, .zero ≤ e.2) (hpos : 0 < totalSteps table)
    {i : Nat} {e : κ × Fixed} (he : table[i]? = some e) :
    |((drawsOn (positions table) i).card : ℚ) -
      Fixed.hundred.bits * e.2.bits / totalSteps table| ≤ 100 * table.length + 1 := by
  obtain ⟨before, after, hsplit, hbefore, hafter⟩ := positions_split he
  have hsteps := totalSteps_positions table
  have hcard := card_drawsOn hbefore hafter hsplit (positions_nonneg h) (hsteps ▸ hpos)
  rw [hsteps, length_positions] at hcard
  obtain ⟨hleast, hmost⟩ := hcard
  obtain ⟨hfloor, hshort⟩ := Fixed.slice_bounds hpos e.2.bits
  have hsome := List.length_pos_of_ne_nil (ne_nil_of_totalSteps_pos hpos)
  generalize (drawsOn (positions table) i).card = count at *
  generalize Fixed.slice e.2.bits (totalSteps table) = slice at *
  generalize totalSteps table = total at *
  generalize Fixed.hundred.bits = hundred at *
  generalize table.length = n at *
  have htotal : (0 : ℚ) < total := Int.cast_pos.mpr hpos
  have hover : (slice : ℚ) ≤ hundred * e.2.bits / total := by
    rw [le_div_iff₀ htotal, mul_comm]
    exact_mod_cast hfloor
  have hunder : (hundred * e.2.bits / total : ℚ) < slice + 100 := by
    rw [div_lt_iff₀ htotal, mul_comm _ (total : ℚ)]
    exact_mod_cast hshort
  have hleast : (slice : ℚ) - 1 ≤ count := by exact_mod_cast hleast
  have hmost : (count : ℚ) < slice + 100 * n := by exact_mod_cast hmost
  have hone : (1 : ℚ) ≤ n := by exact_mod_cast hsome
  rw [abs_le]
  constructor <;> linarith

/-- A weighted choice is in proportion to the weights, up to rounding. Some entry is chosen on
every draw, and of all draws each entry has its share, up to a hundred for each entry of the table
and one more. On the way no quotient or product leaves the range, the cumulative share is exact,
grows and stays within the hundred, and in the end it is less than a hundred steps for each entry
short of it. -/
theorem weighted_proportional (h : ∀ e ∈ table, .zero ≤ e.2) (hpos : 0 < totalSteps table)
    (hfits : totalSteps table ≤ Fixed.greatest) :
    (∀ g : Generator, ∃ draw g' i e, g.below Fixed.hundred.bits.toNat = (draw, g') ∧
      draw ∈ drawsOn (positions table) i ∧ table[i]? = some e ∧
      weighted table g = (.ok e.1, g')) ∧
    (∀ i e, table[i]? = some e →
      |((drawsOn (positions table) i).card : ℚ) -
        Fixed.hundred.bits * e.2.bits / totalSteps table| ≤ 100 * table.length + 1) ∧
    (∀ before e after, table = before ++ e :: after →
      ∃ share slice, e.2.div? ⟨totalSteps table⟩ = some share ∧
        share.mul? .hundred = some slice ∧
        .percentage e.2 ⟨totalSteps table⟩ = slice ∧
        (shareAfter ⟨totalSteps table⟩ before).add? slice =
          some (shareAfter ⟨totalSteps table⟩ (before ++ [e])) ∧
        shareAfter ⟨totalSteps table⟩ before ≤ shareAfter ⟨totalSteps table⟩ (before ++ [e]) ∧
        shareAfter ⟨totalSteps table⟩ (before ++ [e]) ≤ .hundred) ∧
    Fixed.hundred.bits - 100 * table.length < (shareAfter ⟨totalSteps table⟩ table).bits := by
  refine ⟨weighted_eq_atDraw h hpos hfits, fun i e he => card_drawsOn_positions h hpos he, ?_, ?_⟩
  · intro before e after htable
    have hparts : table = (before ++ [e]) ++ after := htable.trans (List.append_cons ..)
    obtain ⟨hstart, hrest⟩ := List.forall_mem_append.mp (hparts ▸ h)
    have hsteps : totalSteps table = totalSteps (before ++ [e]) + totalSteps after := by
      rw [hparts, totalSteps_append]
    have hafter := totalSteps_nonneg hrest
    have hle : totalSteps (before ++ [e]) ≤ totalSteps table := by omega
    obtain ⟨share, slice, hdiv, hmul, hpercentage, hadd, hgrows⟩ := shareAfter_step hpos hstart hle
    exact ⟨share, slice, hdiv, hmul, hpercentage, hadd, hgrows,
      shareAfter_le_hundred hpos hstart hle⟩
  · have hlost := hundred_lt_slices hpos
    rw [(shareAfter_eq hpos h (Int.le_refl _)).1]
    show _ < slices _ table
    omega

/-- Thirds are no whole number of steps, and the last entry has no weight at all. -/
def thirds : Table Nat := [(0, .ofInt 1), (1, .ofInt 2), (2, .zero)]

theorem weighted_proportional_thirds :
    (∀ e ∈ thirds, .zero ≤ e.2) ∧ 0 < totalSteps thirds ∧ totalSteps thirds ≤ Fixed.greatest ∧
      |((drawsOn (positions thirds) 1).card : ℚ) -
        Fixed.hundred.bits * (Fixed.ofInt 2).bits / totalSteps thirds| ≤
          100 * thirds.length + 1 := by
  have hnonneg : ∀ e ∈ thirds, .zero ≤ e.2 := by decide
  have hpos : 0 < totalSteps thirds := by decide
  have hfits : totalSteps thirds ≤ Fixed.greatest := by decide
  obtain ⟨-, hcard, -⟩ := weighted_proportional hnonneg hpos hfits
  exact ⟨hnonneg, hpos, hfits, hcard 1 (1, .ofInt 2) rfl⟩

end Selection

end Quartermaster
