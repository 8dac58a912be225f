import Mathlib.Algebra.Ring.Int.Defs
import Mathlib.Algebra.Ring.Nat
import Quartermaster.Proofs.Admission
import Quartermaster.Proofs.Budget
import Quartermaster.Proofs.Ceiling

/-!
# What a plan is made of

A plan is the sum of the batches that were bought for it. Four records tell of a purchase: the
queue of a place, the ledger, the census and, when the pass is over, the count of pieces by kind.
Here each of them is read off the one list of purchases (`Bought`): the queue of a place is the
batches for that place in the order of buying (`Bought.queueAt_eq`), what is spent is the sum of
the prices (`Bought.get_spent`), and what is counted of a kind is the sum of the quantities
(`Bought.countP_queued`). No batch is split, and none is charged twice.
-/

namespace Quartermaster

/-! ## The queue of a place -/

namespace Yard

variable {y y' : Yard} {place other : TerritoryId} {ps : List Piece}

/-- The pieces that wait in the first place with a territory. -/
def queueIn (y : Yard) (place : TerritoryId) : List Piece := (y.place? place).elim [] Place.queue

/-- Only the first place with the territory is touched, and a search finds that place first. -/
theorem find?_enqueue (place other : TerritoryId) (ps : List Piece) (places : List Place) :
    (enqueue place ps places).find? (fun p => p.territory == other) =
      (places.find? fun p => p.territory == other).map fun p =>
        if place = other then { p with queue := p.queue ++ ps } else p := by
  induction places with
  | nil => rfl
  | cons p rest ih =>
    rw [enqueue]
    by_cases hplace : p.territory = place
    · rw [if_pos hplace]
      by_cases hother : p.territory = other
      · have hsame : place = other := hplace.symm.trans hother
        simp [hother, hsame]
      · have hdiffer : place ≠ other := fun h => hother (hplace.trans h)
        simp [hother, hdiffer]
    · rw [if_neg hplace]
      by_cases hother : p.territory = other
      · have hdiffer : place ≠ other := fun h => hplace (hother.trans h.symm)
        simp [hother, hdiffer]
      · simpa [hother] using ih

/-- A queued batch goes to the end of the queue of its place, and no other queue changes. -/
theorem queueIn_of_queue (h : y.queue place ps = .ok y') (other : TerritoryId) :
    y'.queueIn other = y.queueIn other ++ if place = other then ps else [] := by
  obtain ⟨hplace, -, left, -, rfl⟩ := queue_eq_ok_iff.mp h
  unfold queueIn place?
  rw [find?_enqueue]
  by_cases hother : place = other
  · subst hother
    obtain ⟨p, hp⟩ := Option.isSome_iff_exists.mp (place?_isSome_iff.mpr hplace)
    unfold place? at hp
    simp [hp]
  · cases y.places.find? fun p => p.territory == other <;> simp [hother]

theorem queueIn_eq_of_mem (hnodup : (y.places.map Place.territory).Nodup) {q : Place}
    (hq : q ∈ y.places) : y.queueIn q.territory = q.queue := by
  unfold queueIn place?
  generalize y.places = places at hnodup hq
  induction places with
  | nil => cases hq
  | cons p rest ih =>
    obtain ⟨hfresh, hrest⟩ := List.nodup_cons.mp hnodup
    rcases List.mem_cons.mp hq with rfl | hmem
    · simp
    · have hdiffer : p.territory ≠ q.territory := by
        intro hsame
        exact hfresh (hsame ▸ List.mem_map_of_mem hmem)
      rw [List.find?_cons_of_neg (by simpa using hdiffer)]
      exact ih hrest hmem

theorem IsClear.queueIn_eq_nil (h : y.IsClear) (place : TerritoryId) : y.queueIn place = [] := by
  unfold queueIn
  cases hp : y.place? place with
  | none => rfl
  | some p => exact h.queue_eq_nil (List.mem_of_find?_eq_some hp)

end Yard

/-- Known territories keep the order of the numbers asked for. -/
theorem Snapshot.Keyed.map_id_known_sublist {s : Snapshot} (hs : s.Keyed)
    (ids : List TerritoryId) : ((s.known ids).map Territory.id).Sublist ids := by
  induction ids with
  | nil => exact .slnil
  | cons id ids ih =>
    unfold Snapshot.known at ih ⊢
    cases hget : s.territories.get? id with
    | none =>
      rw [List.filterMap_cons_none hget]
      exact ih.cons id
    | some t =>
      have hid : t.id = id := hs.territory_id (Snapshot.territory_eq_ok_iff.mpr hget)
      rw [List.filterMap_cons_some hget, List.map_cons, hid]
      exact ih.cons_cons id

/-- The places of a new yard on land are different territories. -/
theorem Yard.nodup_places_of_ofTerritory {s : Snapshot} (hs : s.Keyed) {territory : TerritoryId}
    {c : Capacity} {y : Yard} (h : Yard.ofTerritory s territory c = .ok y) {t : Territory}
    (ht : s.territory territory = .ok t) (hland : t.isWater = false) :
    (y.places.map Place.territory).Nodup := by
  rw [places_of_ofTerritory h ht hland, List.map_cons, List.map_map]
  refine List.nodup_cons.mpr ⟨?_, ?_⟩
  · -- the yard itself is land, and the other places are water
    intro hself
    obtain ⟨z, hz, hid⟩ := List.mem_map.mp hself
    obtain ⟨hknown, hwater⟩ := List.mem_filter.mp hz
    obtain ⟨-, hget⟩ := hs.mem_known.mp hknown
    have hzone : z.id = territory := hid
    rw [hzone, ht] at hget
    have hsame : t = z := Except.ok.inj hget
    rw [hsame, hwater] at hland
    cases hland
  · have hsub : (((s.known t.neighbors.toList).filter Territory.isWater).map Territory.id).Sublist
        t.neighbors.toList :=
      (List.filter_sublist.map Territory.id).trans (hs.map_id_known_sublist _)
    exact hsub.nodup t.neighbors.nodup_keys

/-- The pieces that wait in one place of one yard. -/
def Yards.queueAt (ys : Yards) (yard place : TerritoryId) : List Piece :=
  (ys.get? yard).elim [] fun y => y.queueIn place

/-! ## Records of one list of purchases -/

theorem Buys.queueAt_eq {arbiter : Arbiter} {pass next : Pass} {b : Purchase}
    (h : Buys arbiter pass b next) (yard place : TerritoryId) :
    next.yards.queueAt yard place = pass.yards.queueAt yard place ++
      if b.yard = yard ∧ b.place = place then b.pieces else [] := by
  obtain ⟨y, y', hy, hqueue, hnext⟩ := h.queued
  unfold Yards.queueAt
  rw [hnext]
  by_cases hyard : b.yard = yard
  · subst hyard
    rw [SortedMap.get?_insert_self, hy]
    simpa using Yard.queueIn_of_queue hqueue place
  · rw [SortedMap.get?_insert_of_ne _ _ (Ne.symm hyard)]
    simp [hyard]

namespace Bought

variable {arbiter : Arbiter} {eligible : Purchase → Prop} {pass last : Pass} {bs : List Purchase}

/-- The batches for a place stand in its queue in the order in which they were bought. -/
theorem queueAt_eq (h : Bought arbiter eligible pass bs last) (yard place : TerritoryId) :
    last.yards.queueAt yard place = pass.yards.queueAt yard place ++
      (bs.filter fun b => b.yard = yard ∧ b.place = place).flatMap Purchase.pieces := by
  induction h with
  | nil pass => simp
  | @cons pass next last b bs hbuys _ _ ih =>
    rw [ih, hbuys.queueAt_eq, List.append_assoc, List.filter_cons]
    by_cases hhere : b.yard = yard ∧ b.place = place
    · rw [if_pos hhere, if_pos (decide_eq_true hhere), List.flatMap_cons]
    · rw [if_neg hhere, if_neg (by simpa using hhere), List.nil_append]

/-- What is spent of a currency is the sum of the prices in it. -/
theorem get_spent (h : Bought arbiter eligible pass bs last) (c : ResourceId) :
    last.ledger.spent.get c =
      pass.ledger.spent.get c + (bs.map fun b => b.offer.costs.get c).sum := by
  induction h with
  | nil pass => simp
  | @cons pass next last b bs hbuys _ _ ih =>
    rw [ih, hbuys.get_spent, List.map_cons, List.sum_cons, Int.add_assoc]

/-- What waits of a kind is the sum of the quantities of it. -/
theorem countP_queued (h : Bought arbiter eligible pass bs last) (t : KindId) :
    (last.yards.queued.countP fun q => q.kind = t) =
      (pass.yards.queued.countP fun q => q.kind = t) +
        ((bs.filter fun b => b.offer.kind = t).map fun b => b.offer.quantity).sum := by
  induction h with
  | nil pass => simp
  | @cons pass next last b bs hbuys _ _ ih =>
    rw [ih, hbuys.countP_queued, hbuys.length_pieces, List.filter_cons]
    by_cases hkind : b.offer.kind = t
    · rw [if_pos hkind.symm, if_pos (decide_eq_true hkind), List.map_cons, List.sum_cons,
        Nat.add_assoc]
    · rw [if_neg (Ne.symm hkind), if_neg (by simpa using hkind), Nat.add_zero]

end Bought

/-! ## Batches of a plan -/

/-- What every batch of a plan is: on offer for the place that it went to, no factory, made of
so many fresh pieces of its kind, and of positive score for what the yard needs. -/
structure Purchase.Regular (s : Snapshot) (player : PlayerId) (catalog : Catalog)
    (b : Purchase) : Prop where
  offered : b.place = b.yard ∧ b.offer ∈ catalog.land ++ catalog.air ∨
    b.offer ∈ catalog.sea ∧ ∃ t z, s.territory b.yard = .ok t ∧ t.isAdjacentTo b.place = true ∧
      s.territory b.place = .ok z ∧ z.isWater = true
  notFactory : b.offer.isFactory = false
  fresh : ∃ n, b.pieces = (List.range' n b.offer.quantity).map
    fun i => { id := ⟨i⟩, kind := b.offer.kind, owner := player }
  worthwhile : ∃ around, s.neighbors b.yard = .ok around ∧
    .zero < if ∃ n ∈ around, n.isWater = false ∧ s.isEnemyTerritory n player = true then
      b.offer.defenseEfficiency else b.offer.attackEfficiency

namespace Planner

variable {s : Snapshot} {arbiter : Arbiter} {player : PlayerId} {p p' : Planner} {plan : Plan}

theorem Eligible.not_isFactory {catalog : Catalog} {b : Purchase} (hsorted : catalog.Sorted)
    (h : Eligible s catalog player b) : b.offer.isFactory = false := by
  have hcategory : b.offer.category ≠ .factory := by
    rcases h.offered with ⟨-, hland⟩ | ⟨-, hsea⟩
    · rcases List.mem_append.mp hland with hland | hair
      · rw [hsorted .land b.offer hland]
        decide
      · rw [hsorted .air b.offer hair]
        decide
    · rw [hsorted .sea b.offer hsea]
      decide
  unfold Offer.category at hcategory
  cases hfactory : b.offer.isFactory with
  | false => rfl
  | true => simp [hfactory] at hcategory

theorem Worthwhile.exists_neighbors {b : Purchase} (h : Worthwhile s player b) :
    ∃ around, s.neighbors b.yard = .ok around ∧
      .zero < if ∃ n ∈ around, n.isWater = false ∧ s.isEnemyTerritory n player = true then
        b.offer.defenseEfficiency else b.offer.attackEfficiency := by
  obtain ⟨role, hrole, hpos⟩ := h
  obtain ⟨around, haround, rfl⟩ := roleOf_eq_ok_iff.mp hrole
  refine ⟨around, haround, ?_⟩
  split at hpos
  · rename_i hfront
    rwa [if_pos hfront]
  · rename_i hfront
    rwa [if_neg hfront]

namespace Reached

variable {currency : ResourceId} {catalog : Catalog} {pass next last : Pass} {b : Purchase}

/-- The places of a yard are different territories. -/
theorem places_nodup (hs : s.Keyed) (h : Reached s arbiter catalog player pass)
    {id : TerritoryId} {y : Yard} (hy : pass.yards.get? id = some y) :
    (y.places.map Place.territory).Nodup := by
  obtain ⟨t, ht, hland, hnew⟩ := h.exists_land hy
  rw [← y.map_territory_cleared]
  exact Yard.nodup_places_of_ofTerritory hs hnew ht hland

/-- What a pass buys is regular. -/
theorem regular_of_buys (hs : s.Keyed)
    (hcatalog : Catalog.ofFrontier s player currency = .ok catalog)
    (h : Reached s arbiter catalog player pass) (hbuys : Buys arbiter pass b next)
    (heligible : Eligible s catalog player b) : b.Regular s player catalog := by
  constructor
  · obtain ⟨y, hy, hplace⟩ := hbuys.feeds
    obtain ⟨t, ht, -, hplaces⟩ := h.mem_places hs hy
    rcases heligible.offered with hself | ⟨hother, hsea⟩
    · exact .inl hself
    · rcases hplaces b.place hplace with hsame | ⟨z, hz, hwater, hbeside⟩
      · exact absurd hsame hother
      · exact .inr ⟨hsea, t, z, ht, hbeside, hz, hwater⟩
  · exact heligible.not_isFactory (Catalog.sorted_ofFrontier hcatalog)
  · obtain ⟨source, source', hmade⟩ := hbuys.made
    obtain ⟨-, hpieces, -⟩ := Offer.materialize_eq_ok_iff.mp hmade
    rw [h.player_eq] at hpieces
    exact ⟨source.next, hpieces⟩
  · exact heligible.worthwhile.exists_neighbors

/-- What is true of each purchase when it is made is true of all that were made. -/
theorem forall_bought {P : Purchase → Prop} {bs : List Purchase}
    (hstep : ∀ q b next, Reached s arbiter catalog player q → Buys arbiter q b next →
      Eligible s catalog player b → P b)
    (h : Reached s arbiter catalog player pass)
    (hbs : Bought arbiter (Eligible s catalog player) pass bs last) : ∀ b ∈ bs, P b := by
  induction hbs with
  | nil => exact fun b hb => absurd hb List.not_mem_nil
  | @cons pass next last b bs hbuys heligible _ ih =>
    have hnext := h.bought (.cons hbuys heligible (.nil next)) fun _ hb => hb
    exact List.forall_mem_cons.mpr ⟨hstep pass b next h hbuys heligible, ih hnext⟩

end Reached

/-- A plan is exactly the sum of the batches bought for it. Each batch is regular and went to a
place of a yard of the plan; the queue of each place is its batches in the order of buying; and
for every currency and every kind, what the plan reports as spent and as bought is what the
batches come to. -/
theorem plan_composed (hs : s.Keyed) (h : p.plan s arbiter player = (.ok plan, p')) :
    ∃ (catalog : Catalog) (bs : List Purchase),
      Catalog.ofFrontier s player p.config.currency = .ok catalog ∧
      (∀ b ∈ bs, b.Regular s player catalog ∧ plan.yards.Feeds b.yard b.place) ∧
      (∀ id y, plan.yards.get? id = some y → ∀ q ∈ y.places, q.queue =
        (bs.filter fun b => b.yard = id ∧ b.place = q.territory).flatMap Purchase.pieces) ∧
      (∀ c, plan.spent.get c = (bs.map fun b => b.offer.costs.get c).sum) ∧
      ∀ t, (plan.purchased.get? t).getD 0 =
        ((bs.filter fun b => b.offer.kind = t).map fun b => b.offer.quantity).sum := by
  obtain ⟨catalog, start, bs, last, hcatalog, hstart, hbs, hplan⟩ := plan_eq_ok h
  obtain ⟨owner, -, hfound, -, hledger, -⟩ := openPass_eq_ok hstart
  obtain ⟨-, hyards, hspent, hpurchased⟩ := toPlan_eq_ok hplan
  have hopened : Reached s arbiter catalog player start := .of_openPass hstart
  have hlast : Reached s arbiter catalog player last := ⟨start, bs, hstart, hbs⟩
  refine ⟨catalog, bs, hcatalog, ?_, ?_, ?_, ?_⟩
  · refine hopened.forall_bought ?_ hbs
    intro q b next hq hbuys heligible
    refine ⟨hq.regular_of_buys hs hcatalog hbuys heligible, ?_⟩
    -- no yard closes between the purchase and the end of the pass
    rw [hyards]
    exact hbuys.feeds.of_cleared
      ((hq.cleared_yards hstart).trans (hlast.cleared_yards hstart).symm)
  · intro id y hy q hq
    rw [hyards] at hy
    have hnodup := hlast.places_nodup hs hy
    have hempty : start.yards.queueAt id q.territory = [] := by
      unfold Yards.queueAt
      cases hget : start.yards.get? id with
      | none => rfl
      | some y₀ =>
        obtain ⟨-, -, -, hnew⟩ := findYards_get? hfound hget
        obtain ⟨-, -, hclear, -⟩ := Yard.ofTerritory_eq_ok hnew
        exact hclear.queueIn_eq_nil q.territory
    have hqueue := hbs.queueAt_eq id q.territory
    rw [hempty, List.nil_append] at hqueue
    rw [← hqueue, Yards.queueAt, hy]
    exact (Yard.queueIn_eq_of_mem hnodup hq).symm
  · intro c
    have hsum := hbs.get_spent c
    rw [hspent, hsum, hledger]
    exact Int.zero_add _
  · intro t
    rw [hpurchased, Stack.getD_countBy, hbs.countP_queued, queued_eq_nil_of_openPass hstart]
    exact Nat.zero_add _

/-- On the separate seas the plan is made of infantry for the one port and ships for the other. -/
theorem plan_composed_separateSeas :
    Samples.separateSeas.Keyed ∧
    ∃ plan p', Samples.planner.plan Samples.separateSeas (.ofRules Samples.separateSeas)
        Samples.red = (.ok plan, p') ∧
      plan.spent.get .productionUnits = 22 ∧
      ∃ (catalog : Catalog) (bs : List Purchase),
        Catalog.ofFrontier Samples.separateSeas Samples.red .productionUnits = .ok catalog ∧
        (∀ b ∈ bs, b.Regular Samples.separateSeas Samples.red catalog ∧
          plan.yards.Feeds b.yard b.place) ∧
        (∀ id y, plan.yards.get? id = some y → ∀ q ∈ y.places, q.queue =
          (bs.filter fun b => b.yard = id ∧ b.place = q.territory).flatMap Purchase.pieces) ∧
        22 = (bs.map fun b => b.offer.costs.get .productionUnits).sum ∧
        ∀ t, (plan.purchased.get? t).getD 0 =
          ((bs.filter fun b => b.offer.kind = t).map fun b => b.offer.quantity).sum := by
  have hkeyed : Samples.separateSeas.Keyed := by decide +kernel
  obtain ⟨plan, p', h, hspent⟩ := Outcome.exists_run_of_toOption
    (show (Samples.planner.plan Samples.separateSeas (.ofRules Samples.separateSeas)
      Samples.red).1.toOption.map (fun plan => plan.spent.get .productionUnits) = some 22 by
        decide +kernel)
  obtain ⟨catalog, bs, hcatalog, hregular, hqueues, hsum, hcount⟩ := plan_composed hkeyed h
  have hprice := hsum .productionUnits
  rw [hspent] at hprice
  exact ⟨hkeyed, plan, p', h, hspent, catalog, bs, hcatalog, hregular, hqueues, hprice, hcount⟩

end Planner

end Quartermaster
