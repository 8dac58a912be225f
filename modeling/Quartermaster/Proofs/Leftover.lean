import Quartermaster.Proofs.Proportion

/-!
# Draws beyond the last slice

A weighted choice skips entries without weight while it looks for the slice that a draw falls into.
But rounding can leave the last slice short of the draw, and then the last entry is taken, whatever
its weight. So an entry without weight can be chosen after all (`weighted_takes_zero_thirds`): the
last one, on a draw beyond all slices, and no other (`weighted_spares_zeros`).
-/

namespace Quartermaster.Selection

variable {κ κ' : Type} {table : Table κ}

/-! ## Keys that are reached -/

/-- A key that is reached stands beside a positive weight. -/
theorem exists_pos_of_reach? {total draw share : Fixed} {key : κ}
    (h : reach? total draw share table = some key) : ∃ w, (key, w) ∈ table ∧ .zero < w := by
  induction table generalizing share with
  | nil => cases h
  | cons e rest ih =>
    rw [reach?] at h
    split at h
    case isTrue hreached =>
      obtain rfl : e.1 = key := Option.some.inj h
      exact ⟨e.2, List.mem_cons_self, hreached.1⟩
    case isFalse =>
      obtain ⟨w, hmem, hw⟩ := ih h
      exact ⟨w, List.mem_cons_of_mem e hmem, hw⟩

/-- A draw falls on a key because it reaches the key, or because it reaches none and the key is the
last. -/
theorem atDraw_eq_ok_iff {total draw : Fixed} {key : κ} :
    atDraw table total draw = .ok key ↔ reach? total draw .zero table = some key ∨
      reach? total draw .zero table = none ∧ table.getLast?.map Prod.fst = some key := by
  unfold atDraw
  cases reach? total draw .zero table with
  | some k => simp
  | none => cases table.getLast?.map Prod.fst <;> simp

/-- The draw of zero passes by entries without weight only. -/
theorem totalSteps_of_reach?_zero {total : Int} (htotal : 0 < total) (h : ∀ e ∈ table, .zero ≤ e.2)
    (hle : totalSteps table ≤ total) (hnone : reach? ⟨total⟩ .zero .zero table = none) :
    totalSteps table = 0 := by
  induction table using List.reverseRecOn with
  | nil => rfl
  | append_singleton table e ih =>
    obtain ⟨hbefore, he⟩ := List.forall_mem_append.mp h
    have hweight : 0 ≤ e.2.bits := he e (List.mem_singleton_self e)
    obtain ⟨hshare, hnonneg⟩ := shareAfter_eq htotal h hle
    rw [reach?_snoc, Option.or_eq_none_iff, ite_eq_right_iff, hshare] at hnone
    rw [totalSteps_snoc] at hle ⊢
    have hrest := ih hbefore (by omega) hnone.1
    have hzero : ¬0 < e.2.bits := fun hpos => nomatch hnone.2 ⟨hpos, hnonneg⟩
    omega

/-! ## Positions that are reached -/

theorem shareAfter_relabel (f : κ → κ') (total : Fixed) (table : Table κ) :
    shareAfter total (relabel f table) = shareAfter total table := List.foldl_map ..

theorem shareAfter_positions (total : Fixed) (table : Table κ) :
    shareAfter total (positions table) = shareAfter total table := by
  conv_rhs => rw [← relabel_snd_numbered table]
  unfold positions
  rw [shareAfter_relabel, shareAfter_relabel]

/-- The weight beside a position is that of the entry there. -/
theorem weight_of_mem_positions {i : Nat} {w : Fixed} {e : κ × Fixed}
    (hmem : (i, w) ∈ positions table) (he : table[i]? = some e) : e.2 = w := by
  rw [positions_eq_zipIdx] at hmem
  obtain ⟨⟨e', j⟩, hj, heq⟩ := List.mem_map.mp hmem
  obtain ⟨rfl, rfl⟩ := Prod.mk.inj heq
  have he' : table[j]? = some e' := List.mk_mem_zipIdx_iff_getElem?.mp hj
  obtain rfl : e = e' := Option.some.inj (he.symm.trans he')
  rfl

theorem getLast?_positions (hsome : table ≠ []) :
    (positions table).getLast?.map Prod.fst = some (table.length - 1) := by
  have hlength := List.length_pos_of_ne_nil hsome
  have hlast : table.length - 1 < table.length := by omega
  rw [positions_eq_zipIdx, List.getLast?_map, List.getLast?_eq_getElem?, List.length_zipIdx,
    List.getElem?_zipIdx, List.getElem?_eq_getElem hlast]
  simp

section Zeros

variable (h : ∀ e ∈ table, .zero ≤ e.2) (hpos : 0 < totalSteps table)

include h hpos

/-- A draw reaches no position exactly if it is beyond all slices. -/
theorem reach?_positions_eq_none_iff {draw : Fixed} (hdraw : .zero ≤ draw) :
    reach? ⟨totalSteps table⟩ draw .zero (positions table) = none ↔
      shareAfter ⟨totalSteps table⟩ table < draw := by
  have hsteps := totalSteps_positions table
  have hnonneg := positions_nonneg h
  have hbits : 0 ≤ draw.bits := hdraw
  rcases hbits.eq_or_lt with hzero | hdraw
  · obtain rfl : .zero = draw := congrArg Fixed.mk hzero
    obtain ⟨hshare, hstart⟩ := shareAfter_eq hpos h le_rfl
    rw [hshare]
    refine iff_of_false (fun hnone => ?_) (Int.not_lt.mpr hstart)
    have hnothing := totalSteps_of_reach?_zero hpos hnonneg hsteps.le hnone
    omega
  · rw [reach?_eq_none_iff hpos hnonneg hsteps.le hdraw, shareAfter_positions]

/-- The position that a draw falls on is one with weight, except beyond all slices. -/
theorem pos_or_last_of_mem_drawsOn {draw i : Nat} {e : κ × Fixed}
    (hmem : draw ∈ drawsOn (positions table) i) (he : table[i]? = some e) :
    .zero < e.2 ∨ i + 1 = table.length ∧ shareAfter ⟨totalSteps table⟩ table < ⟨draw⟩ := by
  obtain ⟨-, hok⟩ := mem_drawsOn.mp hmem
  rw [totalSteps_positions, atDraw_eq_ok_iff] at hok
  rcases hok with hreach | ⟨hnone, hlast⟩
  · obtain ⟨w, hw, hweight⟩ := exists_pos_of_reach? hreach
    exact .inl (weight_of_mem_positions hw he ▸ hweight)
  · have hsome := ne_nil_of_totalSteps_pos hpos
    have hlength := List.length_pos_of_ne_nil hsome
    rw [getLast?_positions hsome] at hlast
    obtain rfl : table.length - 1 = i := Option.some.inj hlast
    rw [reach?_positions_eq_none_iff h hpos (Int.natCast_nonneg draw)] at hnone
    exact .inr ⟨by omega, hnone⟩

/-- Beyond all slices every draw falls on the last position. -/
theorem mem_drawsOn_last {draw : Nat} (hdraw : (draw : Int) < Fixed.hundred.bits)
    (hbeyond : shareAfter ⟨totalSteps table⟩ table < ⟨draw⟩) :
    draw ∈ drawsOn (positions table) (table.length - 1) := by
  have hsome := ne_nil_of_totalSteps_pos hpos
  rw [mem_drawsOn, totalSteps_positions, atDraw_eq_ok_iff]
  refine ⟨hdraw, .inr ⟨?_, getLast?_positions hsome⟩⟩
  exact (reach?_positions_eq_none_iff h hpos (Int.natCast_nonneg draw)).mpr hbeyond

end Zeros

/-! ## Entries without weight -/

/-- Three entries of which the first two share the hundred, by a third and by two thirds. The steps
that rounding cuts off are left to the last, which has no weight: a generator with this seed draws
one of them. -/
theorem weighted_takes_zero_thirds :
    (∀ e ∈ thirds, .zero ≤ e.2) ∧ 0 < totalSteps thirds ∧ totalSteps thirds ≤ Fixed.greatest ∧
      thirds[2]? = some (2, .zero) ∧
      (weighted thirds (.ofSeed 3350934628)).1.toOption = some 2 := by
  decide +kernel

/-- A weighted choice takes an entry without weight only if it is the last, and only on a draw
beyond all slices; there are less than a hundred such draws for each entry of the table, and the
last entry has all of them. So where the last entry has a weight, so has every entry that is ever
chosen. -/
theorem weighted_spares_zeros (h : ∀ e ∈ table, .zero ≤ e.2) (hpos : 0 < totalSteps table)
    (hfits : totalSteps table ≤ Fixed.greatest) :
    (∀ (draw i : Nat) e, draw ∈ drawsOn (positions table) i → table[i]? = some e →
      .zero < e.2 ∨ i + 1 = table.length ∧ shareAfter ⟨totalSteps table⟩ table < ⟨draw⟩) ∧
    (∀ draw : Nat, (draw : Int) < Fixed.hundred.bits →
      shareAfter ⟨totalSteps table⟩ table < ⟨draw⟩ →
      draw ∈ drawsOn (positions table) (table.length - 1)) ∧
    Fixed.hundred.bits - 100 * table.length < (shareAfter ⟨totalSteps table⟩ table).bits ∧
    ∀ g : Generator, ∃ i e g', table[i]? = some e ∧ weighted table g = (.ok e.1, g') ∧
      (.zero < e.2 ∨ i + 1 = table.length) := by
  refine ⟨fun draw i e => pos_or_last_of_mem_drawsOn h hpos,
    fun draw => mem_drawsOn_last h hpos, ?_, ?_⟩
  · have hlost := hundred_lt_slices hpos
    rw [(shareAfter_eq hpos h le_rfl).1]
    show _ < slices _ table
    omega
  · intro g
    obtain ⟨draw, g', i, e, -, hmem, he, hchosen⟩ := weighted_eq_atDraw h hpos hfits g
    exact ⟨i, e, g', he, hchosen, (pos_or_last_of_mem_drawsOn h hpos hmem he).imp_right And.left⟩

/-- The last of the draws goes to the entry without weight, and the one before the end of the
slices does not. -/
theorem weighted_spares_zeros_thirds :
    (∀ e ∈ thirds, .zero ≤ e.2) ∧ 0 < totalSteps thirds ∧ totalSteps thirds ≤ Fixed.greatest ∧
      429496729599 ∈ drawsOn (positions thirds) 2 ∧
      ∀ i, 429496729500 ∈ drawsOn (positions thirds) i → i ≠ 2 := by
  have hnonneg : ∀ e ∈ thirds, .zero ≤ e.2 := by decide
  have hpos : 0 < totalSteps thirds := by decide
  have hfits : totalSteps thirds ≤ Fixed.greatest := by decide
  obtain ⟨hspared, hlast, -, -⟩ := weighted_spares_zeros hnonneg hpos hfits
  refine ⟨hnonneg, hpos, hfits, hlast 429496729599 (by decide) (by decide), ?_⟩
  rintro i hmem rfl
  rcases hspared 429496729500 2 (2, .zero) hmem rfl with hweight | ⟨-, hbeyond⟩
  · exact absurd hweight (by decide)
  · exact absurd hbeyond (by decide)

end Quartermaster.Selection
