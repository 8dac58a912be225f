import Quartermaster.Proofs.Board
import Quartermaster.Proofs.Purchase

/-!
# What a frontier offers

Every offer of a catalog is made by one rule of the frontier for a kind that the roster knows, in
batches of at least one (`Catalog.mem_ofFrontier_iff`); and a batch of it consists of so many
fresh pieces of that kind (`Offer.materialize_eq_ok_iff`).
-/

namespace Quartermaster

theorem ProductionRule.quantityOf_pos {r : ProductionRule} {kind : KindId}
    (h : r.firstResult? = some kind) : 0 < r.quantityOf kind := by
  obtain ⟨e, he, rfl⟩ := Option.map_eq_some_iff.mp h
  have hpos := List.find?_some he
  have hget : r.results.get? e.1 = some e.2 :=
    SortedMap.get?_eq_some_iff.mpr (List.mem_of_find?_eq_some he)
  unfold quantityOf
  rw [hget]
  exact of_decide_eq_true hpos

/-! ## Catalogs -/

namespace Catalog

variable {s : Snapshot} {player : PlayerId} {currency : ResourceId} {c catalog : Catalog}
  {o o' : Offer}

theorem mem_toList_iff :
    o ∈ c.toList ↔ o ∈ c.land ++ c.air ∨ o ∈ c.sea ∨ o ∈ c.factory := by
  unfold toList
  simp only [List.mem_append, or_assoc]

theorem mem_insert_iff : o' ∈ (c.insert o).toList ↔ o' = o ∨ o' ∈ c.toList := by
  unfold insert
  cases o.category <;>
    simp only [toList, List.mem_append, List.mem_singleton, or_assoc, or_comm, or_left_comm]

theorem mem_insertRules_iff {rules : List ProductionRule}
    (h : insertRules s currency c rules = .ok catalog) :
    o ∈ catalog.toList ↔ o ∈ c.toList ∨ ∃ r ∈ rules, ∃ kind k,
      r.firstResult? = some kind ∧ s.kind kind = .ok k ∧ o = .ofRule r k currency := by
  induction rules generalizing c with
  | nil =>
    obtain rfl : c = catalog := by simpa [insertRules] using h
    simp
  | cons r rs ih =>
    rw [insertRules] at h
    cases hfirst : r.firstResult? with
    | none =>
      simp only [hfirst] at h
      rw [ih h]
      simp [hfirst]
    | some kind =>
      simp only [hfirst] at h
      obtain ⟨k, hk, h⟩ := Outcome.bind_eq_ok_iff.mp h
      -- the rule has one lowest kind, and the roster one record of it
      have hone : (∃ kind' k', r.firstResult? = some kind' ∧ s.kind kind' = .ok k' ∧
          o = .ofRule r k' currency) ↔ o = .ofRule r k currency := by
        constructor
        · rintro ⟨kind', k', hfirst', hk', rfl⟩
          obtain rfl : kind = kind' := Option.some.inj (hfirst.symm.trans hfirst')
          obtain rfl : k = k' := Except.ok.inj (hk.symm.trans hk')
          rfl
        · rintro rfl
          exact ⟨kind, k, hfirst, hk, rfl⟩
      rw [ih h, mem_insert_iff, List.exists_mem_cons_iff, hone, or_assoc, or_left_comm]

/-- The offers of a catalog are those of the rules that make something. -/
theorem mem_ofFrontier_iff (h : ofFrontier s player currency = .ok catalog) :
    o ∈ catalog.toList ↔ ∃ p, s.player player = .ok p ∧ ∃ r ∈ p.frontier, ∃ kind k,
      r.firstResult? = some kind ∧ s.kind kind = .ok k ∧ o = .ofRule r k currency := by
  obtain ⟨p, hp, h⟩ := Outcome.bind_eq_ok_iff.mp h
  rw [mem_insertRules_iff h, hp]
  have hempty : o ∉ empty.toList := List.not_mem_nil
  simp [hempty]

theorem offers_insert (c : Catalog) (o : Offer) (category : Category) :
    (c.insert o).offers category =
      c.offers category ++ if o.category = category then [o] else [] := by
  unfold insert
  cases o.category <;> cases category <;> simp [offers]

/-- Each part of the catalog holds offers of its own category only. -/
def Sorted (c : Catalog) : Prop :=
  ∀ category, ∀ o ∈ c.offers category, o.category = category

theorem Sorted.insert (h : c.Sorted) (o : Offer) : (c.insert o).Sorted := by
  intro category o' ho'
  rw [offers_insert, List.mem_append] at ho'
  rcases ho' with hold | hnew
  · exact h category o' hold
  · split at hnew
    · rename_i hcategory
      rw [List.mem_singleton.mp hnew]
      exact hcategory
    · cases hnew

theorem Sorted.insertRules (h : c.Sorted) {rules : List ProductionRule}
    (hinsert : Catalog.insertRules s currency c rules = .ok catalog) : catalog.Sorted := by
  induction rules generalizing c with
  | nil =>
    have hsame : c = catalog := by simpa [Catalog.insertRules] using hinsert
    exact hsame ▸ h
  | cons r rs ih =>
    rw [Catalog.insertRules] at hinsert
    cases hfirst : r.firstResult? with
    | none =>
      simp only [hfirst] at hinsert
      exact ih h hinsert
    | some kind =>
      simp only [hfirst] at hinsert
      obtain ⟨k, -, hrest⟩ := Outcome.bind_eq_ok_iff.mp hinsert
      exact ih (h.insert _) hrest

theorem sorted_ofFrontier (h : ofFrontier s player currency = .ok catalog) : catalog.Sorted := by
  obtain ⟨p, -, hinsert⟩ := Outcome.bind_eq_ok_iff.mp h
  have hempty : empty.Sorted := by
    intro category o ho
    cases category <;> cases ho
  exact hempty.insertRules hinsert

/-- An offer sells a known kind, in batches that are not empty and under the ceiling of the
kind. -/
theorem kind_of_mem (hs : s.Keyed) (h : ofFrontier s player currency = .ok catalog)
    (ho : o ∈ catalog.toList) :
    0 < o.quantity ∧ ∃ k, s.kind o.kind = .ok k ∧ o.buildLimit = k.buildLimit := by
  obtain ⟨p, -, r, -, kind, k, hfirst, hk, rfl⟩ := (mem_ofFrontier_iff h).mp ho
  have hid : k.id = kind := hs.kind_id hk
  subst hid
  exact ⟨ProductionRule.quantityOf_pos hfirst, k, hk, rfl⟩

/-- A batch has no more pieces than a word of 32 bits can count. -/
theorem quantity_lt (hsized : s.Sized) (h : ofFrontier s player currency = .ok catalog)
    (ho : o ∈ catalog.toList) : o.quantity < wordValues 32 := by
  obtain ⟨p, hp, r, hr, kind, k, -, -, rfl⟩ := (mem_ofFrontier_iff h).mp ho
  have hvalue : p ∈ s.players.values :=
    SortedMap.mem_values_iff.mpr ⟨player, Snapshot.player_eq_ok_iff.mp hp⟩
  show r.quantityOf k.id < wordValues 32
  unfold ProductionRule.quantityOf
  cases hget : r.results.get? k.id with
  | none => exact wordValues_pos 32
  | some n => exact hsized.counts p hvalue r hr (k.id, n) (SortedMap.get?_eq_some_iff.mp hget)

end Catalog

/-! ## Prices -/

/-- No rule of the player's frontier pays its buyer in any currency. -/
def Player.Priced (p : Player) : Prop := ∀ r ∈ p.frontier, ∀ e ∈ r.costs.entries, 0 ≤ e.2

instance (p : Player) : Decidable p.Priced :=
  inferInstanceAs (Decidable (∀ r ∈ p.frontier, ∀ e ∈ r.costs.entries, 0 ≤ e.2))

theorem Holdings.get_nonneg {h : Holdings} (hall : ∀ e ∈ h.entries, 0 ≤ e.2) (c : ResourceId) :
    0 ≤ h.get c := by
  unfold get
  cases hget : h.amounts.get? c with
  | none => exact Int.le_refl 0
  | some n => exact hall (c, n) (SortedMap.get?_eq_some_iff.mp hget)

theorem Fixed.ratio_zero (n : Int) : ratio n 0 = zero := by
  unfold ratio div? ofInt
  simp

/-- What has no price in the currency of the scores does not score. -/
theorem Offer.cost_ne_zero {r : ProductionRule} {k : PieceKind} {currency : ResourceId}
    {role : Role} (h : .zero < role.efficiency (ofRule r k currency)) :
    r.costs.get currency ≠ 0 := by
  intro hfree
  have hzero : role.efficiency (ofRule r k currency) = .zero := by
    cases role <;> simp [Role.efficiency, ofRule, hfree, Fixed.ratio_zero]
  rw [hzero] at h
  exact absurd h (Int.lt_irrefl _)

namespace Catalog

variable {s : Snapshot} {player : PlayerId} {owner : Player} {currency : ResourceId}
  {catalog : Catalog} {o : Offer}

theorem costs_nonneg (hplayer : s.player player = .ok owner) (hpriced : owner.Priced)
    (h : ofFrontier s player currency = .ok catalog) (ho : o ∈ catalog.toList) (c : ResourceId) :
    0 ≤ o.costs.get c := by
  obtain ⟨p, hp, r, hr, kind, k, -, -, rfl⟩ := (mem_ofFrontier_iff h).mp ho
  obtain rfl : owner = p := Except.ok.inj (hplayer.symm.trans hp)
  exact Holdings.get_nonneg (hpriced r hr) c

/-- What scores has a price in the currency of the scores. -/
theorem price_pos (hplayer : s.player player = .ok owner) (hpriced : owner.Priced)
    (h : ofFrontier s player currency = .ok catalog) (ho : o ∈ catalog.toList) {role : Role}
    (hscore : .zero < role.efficiency o) : 0 < o.costs.get currency := by
  have hnonneg := costs_nonneg hplayer hpriced h ho currency
  obtain ⟨p, -, r, -, kind, k, -, -, rfl⟩ := (mem_ofFrontier_iff h).mp ho
  have hne : r.costs.get currency ≠ 0 := Offer.cost_ne_zero hscore
  have hsame : (Offer.ofRule r k currency).costs.get currency = r.costs.get currency := rfl
  omega

end Catalog

/-! ## Batches -/

theorem Offer.materialize_eq_ok_iff {o : Offer} {source source' : PieceSource}
    {owner : PlayerId} {ps : List Piece} :
    o.materialize source owner = .ok (ps, source') ↔ o.quantity ≠ 0 ∧
      ps = (List.range' source.next o.quantity).map
        (fun n => { id := ⟨n⟩, kind := o.kind, owner }) ∧
      source' = ⟨source.next + o.quantity⟩ := by
  unfold materialize PieceSource.make
  by_cases h : o.quantity = 0
  · simp [h]
  · simp [h, eq_comm]

theorem Offer.exists_materialize {o : Offer} (h : 0 < o.quantity) (source : PieceSource)
    (owner : PlayerId) : ∃ ps source', o.materialize source owner = .ok (ps, source') :=
  ⟨_, _, materialize_eq_ok_iff.mpr ⟨Nat.ne_of_gt h, rfl, rfl⟩⟩

theorem Offer.length_of_materialize {o : Offer} {source source' : PieceSource} {owner : PlayerId}
    {ps : List Piece} (h : o.materialize source owner = .ok (ps, source')) :
    ps.length = o.quantity := by
  obtain ⟨-, hpieces, -⟩ := materialize_eq_ok_iff.mp h
  rw [hpieces, List.length_map, List.length_range']

theorem Offer.ne_nil_of_materialize {o : Offer} {source source' : PieceSource} {owner : PlayerId}
    {ps : List Piece} (h : o.materialize source owner = .ok (ps, source')) : ps ≠ [] := by
  obtain ⟨hquantity, -⟩ := materialize_eq_ok_iff.mp h
  rw [← List.length_pos_iff, length_of_materialize h]
  exact Nat.pos_of_ne_zero hquantity

theorem Offer.kind_owner_of_materialize {o : Offer} {source source' : PieceSource}
    {owner : PlayerId} {ps : List Piece} (h : o.materialize source owner = .ok (ps, source'))
    {q : Piece} (hq : q ∈ ps) : q.kind = o.kind ∧ q.owner = owner := by
  obtain ⟨-, hpieces, -⟩ := materialize_eq_ok_iff.mp h
  rw [hpieces] at hq
  obtain ⟨n, -, rfl⟩ := List.mem_map.mp hq
  exact ⟨rfl, rfl⟩

namespace Buys

variable {arbiter : Arbiter} {pass next : Pass} {b : Purchase}

theorem length_pieces (h : Buys arbiter pass b next) : b.pieces.length = b.offer.quantity := by
  obtain ⟨source, source', hmade⟩ := h.made
  exact Offer.length_of_materialize hmade

theorem quantity_pos (h : Buys arbiter pass b next) : 0 < b.offer.quantity := by
  obtain ⟨source, source', hmade⟩ := h.made
  exact Nat.pos_of_ne_zero (Offer.materialize_eq_ok_iff.mp hmade).1

theorem kind_owner_of_mem (h : Buys arbiter pass b next) {q : Piece} (hq : q ∈ b.pieces) :
    q.kind = b.offer.kind ∧ q.owner = pass.player := by
  obtain ⟨source, source', hmade⟩ := h.made
  exact Offer.kind_owner_of_materialize hmade hq

/-- A batch adds to the count of its own kind only. -/
theorem countP_pieces (h : Buys arbiter pass b next) (t : KindId) :
    (b.pieces.countP fun q => q.kind = t) = if t = b.offer.kind then b.pieces.length else 0 :=
  Stack.countP_of_forall (fun _ hq => (h.kind_owner_of_mem hq).1) t

end Buys

namespace Planner

variable {catalog : Catalog} {yard place : TerritoryId}

theorem mem_catalog_of_mem_offersFor {o : Offer} (h : o ∈ offersFor catalog yard place) :
    o ∈ catalog.toList := by
  rw [Catalog.mem_toList_iff]
  unfold offersFor at h
  split at h
  · exact .inl h
  · exact .inr (.inl h)

/-- What may be bought is on offer. -/
theorem Eligible.mem_catalog {s : Snapshot} {player : PlayerId} {b : Purchase}
    (h : Eligible s catalog player b) : b.offer ∈ catalog.toList :=
  mem_catalog_of_mem_offersFor (eligible_iff.mp h).1

end Planner

end Quartermaster
