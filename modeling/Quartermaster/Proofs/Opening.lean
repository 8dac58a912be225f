import Mathlib.Data.List.Flatten
import Quartermaster.Proofs.Board
import Quartermaster.Proofs.Purchase
import Quartermaster.Proofs.Queue

/-!
# Opening a pass

What a pass finds before it buys anything: a yard with nothing queued, and with the whole capacity
left, in each territory of the player that can make pieces; the money of the player; and the
census of the board.

Purchases move pieces into queues and touch nothing else of a yard, so what is said of a new yard
in terms of its `cleared` form is true of it in every later pass (`Bought.cleared_yards`).
-/

namespace Quartermaster

variable {s : Snapshot} {player : PlayerId}

/-! ## New yards -/

/-- A yard feeds its own territory and, if that is land, the sea zones beside it. -/
theorem Yard.ofTerritory_eq_ok {territory : TerritoryId} {c : Capacity} {y : Yard}
    (h : Yard.ofTerritory s territory c = .ok y) :
    ∃ t, s.territory territory = .ok t ∧ y.IsClear ∧ y.territory = territory ∧ y.capacity = c ∧
      (t.isWater = false → y.places = { territory, isWater := false } ::
        ((s.known t.neighbors.toList).filter Territory.isWater).map fun n =>
          { territory := n.id, isWater := true }) := by
  obtain ⟨t, ht, h⟩ := Outcome.bind_eq_ok_iff.mp h
  refine ⟨t, ht, ?_⟩
  cases hwater : t.isWater with
  | true =>
    simp only [hwater, if_true] at h
    obtain ⟨zones, hzones, h⟩ := Outcome.bind_eq_ok_iff.mp h
    rw [Outcome.pure_eq_ok_iff] at hzones h
    subst hzones h
    exact ⟨rfl, rfl, rfl, fun h => by cases h⟩
  | false =>
    simp only [hwater, Bool.false_eq_true, if_false] at h
    obtain ⟨around, haround, h⟩ := Outcome.bind_eq_ok_iff.mp h
    obtain ⟨zones, hzones, h⟩ := Outcome.bind_eq_ok_iff.mp h
    rw [Outcome.pure_eq_ok_iff] at hzones h
    subst hzones h
    obtain ⟨t', ht', rfl⟩ := Snapshot.neighbors_eq_ok_iff.mp haround
    obtain rfl : t = t' := by
      rw [ht] at ht'
      exact Except.ok.inj ht'
    refine ⟨?_, rfl, rfl, fun _ => rfl⟩
    unfold Yard.IsClear Yard.cleared
    simp

theorem Yard.places_of_ofTerritory {territory : TerritoryId} {c : Capacity} {y : Yard}
    (h : Yard.ofTerritory s territory c = .ok y) {t : Territory}
    (ht : s.territory territory = .ok t) (hland : t.isWater = false) :
    y.places = { territory, isWater := false } ::
      ((s.known t.neighbors.toList).filter Territory.isWater).map fun n =>
        { territory := n.id, isWater := true } := by
  obtain ⟨t', ht', -, -, -, hplaces⟩ := Yard.ofTerritory_eq_ok h
  have hsame : t = t' := Except.ok.inj (ht.symm.trans ht')
  subst hsame
  exact hplaces hland

/-- The places of a new yard on land are the land itself and the sea zones beside it. -/
theorem Yard.mem_places_of_ofTerritory (hs : s.Keyed) {territory place : TerritoryId}
    {c : Capacity} {y : Yard} (h : Yard.ofTerritory s territory c = .ok y) {t : Territory}
    (ht : s.territory territory = .ok t) (hland : t.isWater = false)
    (hplace : place ∈ y.places.map Place.territory) :
    place = territory ∨ ∃ z, s.territory place = .ok z ∧ z.isWater = true ∧
      t.isAdjacentTo place = true := by
  rw [places_of_ofTerritory h ht hland, List.map_cons, List.mem_cons, List.map_map] at hplace
  rcases hplace with hself | hzone
  · exact .inl hself
  · obtain ⟨z, hz, hid⟩ := List.mem_map.mp hzone
    obtain ⟨hknown, hwater⟩ := List.mem_filter.mp hz
    obtain ⟨hbeside, hget⟩ := hs.mem_known.mp hknown
    have hzone : z.id = place := hid
    rw [← hzone]
    exact .inr ⟨z, hget, hwater, Territory.isAdjacentTo_iff.mpr hbeside⟩

theorem Snapshot.not_isWater_of_canMoveLandPieces {territory : TerritoryId} {t : Territory}
    (ht : s.territory territory = .ok t)
    (h : s.canMoveLandPieces territory player = .ok true) : t.isWater = false := by
  unfold canMoveLandPieces at h
  rw [ht] at h
  cases hwater : t.isWater with
  | false => rfl
  | true => simp [hwater, bind, Except.bind, pure, Except.pure] at h

namespace Planner

theorem yardIn?_eq_some {placesAnywhere : Bool} {t : Territory} {y : Yard}
    (h : yardIn? s player placesAnywhere t = .ok (some y)) :
    s.canMoveLandPieces t.id player = .ok true ∧ s.capacity t.id player = .ok y.capacity ∧
      Yard.ofTerritory s t.id y.capacity = .ok y := by
  -- who may place anywhere skips the first test; the rest is the same for all
  have hrest : (do
      if !(← s.canMoveLandPieces t.id player) then return none
      return some (← Yard.ofTerritory s t.id (← s.capacity t.id player)) :
        Except Fault (Option Yard)) = .ok (some y) := by
    unfold yardIn? at h
    cases placesAnywhere with
    | true => exact h
    | false =>
      obtain ⟨hasFactory, -, h⟩ := Outcome.bind_eq_ok_iff.mp h
      cases hasFactory with
      | true => exact h
      | false => cases h
  obtain ⟨canMove, hmove, hrest⟩ := Outcome.bind_eq_ok_iff.mp hrest
  cases canMove with
  | false => cases hrest
  | true =>
    obtain ⟨c, hcap, hrest⟩ := Outcome.bind_eq_ok_iff.mp hrest
    obtain ⟨y', hy', hrest⟩ := Outcome.bind_eq_ok_iff.mp hrest
    obtain rfl : y' = y := by simpa [Outcome.pure_eq_ok_iff] using hrest
    obtain ⟨-, -, -, -, rfl, -⟩ := Yard.ofTerritory_eq_ok hy'
    exact ⟨hmove, hcap, hy'⟩

theorem openYards_get? {placesAnywhere : Bool} {ts : List Territory} {yards opened : Yards}
    {id : TerritoryId} {y : Yard} (h : openYards s player placesAnywhere ts yards = .ok opened)
    (hy : opened.get? id = some y) :
    yards.get? id = some y ∨
      ∃ t ∈ ts, t.id = id ∧ yardIn? s player placesAnywhere t = .ok (some y) := by
  induction ts generalizing yards with
  | nil =>
    obtain rfl : yards = opened := by simpa [openYards] using h
    exact .inl hy
  | cons t ts ih =>
    rw [openYards] at h
    obtain ⟨found, hfound, h⟩ := Outcome.bind_eq_ok_iff.mp h
    cases found with
    | none =>
      rcases ih h with hold | ⟨t', ht', hopen⟩
      · exact .inl hold
      · exact .inr ⟨t', List.mem_cons_of_mem _ ht', hopen⟩
    | some yard =>
      rcases ih h with hold | ⟨t', ht', hopen⟩
      · -- the yard of the territory at hand, or one that was open before it
        by_cases hid : id = t.id
        · subst hid
          rw [SortedMap.get?_insert_self] at hold
          obtain rfl : yard = y := Option.some.inj hold
          exact .inr ⟨t, List.mem_cons_self .., rfl, hfound⟩
        · rw [SortedMap.get?_insert_of_ne _ _ hid] at hold
          exact .inl hold
      · exact .inr ⟨t', List.mem_cons_of_mem _ ht', hopen⟩

/-- Yards are opened on land of the player that land pieces could enter, each with the capacity of
its territory. -/
theorem findYards_get? {yards : Yards} {id : TerritoryId} {y : Yard}
    (h : findYards s player = .ok yards) (hy : yards.get? id = some y) :
    (∃ t ∈ s.territories.values, t.id = id ∧ t.isOwnedBy player = true) ∧
      s.canMoveLandPieces id player = .ok true ∧ s.capacity id player = .ok y.capacity ∧
      Yard.ofTerritory s id y.capacity = .ok y := by
  obtain ⟨p, -, h⟩ := Outcome.bind_eq_ok_iff.mp h
  rcases openYards_get? h hy with hempty | ⟨t, ht, rfl, hopen⟩
  · cases hempty
  · obtain ⟨hmem, howned⟩ := List.mem_filter.mp ht
    exact ⟨⟨t, hmem, rfl, howned⟩, yardIn?_eq_some hopen⟩

theorem openPass_eq_ok {start : Pass} (h : openPass s player = .ok start) :
    ∃ p, s.player player = .ok p ∧ findYards s player = .ok start.yards ∧
      start.player = player ∧ start.ledger = .ofPlayer p ∧
      start.census = .ofSnapshot s player [] start.yards := by
  obtain ⟨yards, hyards, h⟩ := Outcome.bind_eq_ok_iff.mp h
  obtain ⟨p, hp, h⟩ := Outcome.bind_eq_ok_iff.mp h
  rw [Outcome.pure_eq_ok_iff] at h
  subst h
  exact ⟨p, hp, hyards, rfl, rfl, rfl⟩

/-- Nothing waits anywhere in an opened pass. -/
theorem queued_eq_nil_of_openPass {start : Pass} (h : openPass s player = .ok start) :
    start.yards.queued = [] := by
  obtain ⟨-, -, hyards, -⟩ := openPass_eq_ok h
  unfold Yards.queued
  rw [List.flatMap_eq_nil_iff]
  intro y hy
  obtain ⟨id, hget⟩ := SortedMap.mem_values_iff.mp hy
  obtain ⟨-, -, -, hnew⟩ := findYards_get? hyards hget
  obtain ⟨-, -, hclear, -⟩ := Yard.ofTerritory_eq_ok hnew
  exact hclear.queued_eq_nil

theorem toPlan_eq_ok {last : Pass} {plan : Plan} (h : toPlan s last = .ok plan) :
    plan.player = last.player ∧ plan.yards = last.yards ∧ plan.spent = last.ledger.spent ∧
      plan.purchased = Stack.countBy Piece.kind last.yards.queued := by
  obtain ⟨moves, -, h⟩ := Outcome.bind_eq_ok_iff.mp h
  rw [Outcome.pure_eq_ok_iff] at h
  subst h
  exact ⟨rfl, rfl, rfl, rfl⟩

end Planner

/-! ## Yards through a pass -/

/-- What comes into one yard comes into all yards taken together. -/
theorem Yards.queued_perm_of_insert {ys : Yards} {id : TerritoryId} {y y' : Yard}
    {ps : List Piece} (hy : ys.get? id = some y) (hperm : y'.queued.Perm (y.queued ++ ps)) :
    (Yards.queued (ys.insert id y')).Perm (ys.queued ++ ps) := by
  obtain ⟨before, after, hvalues, hinsert⟩ := ys.values_split id
  unfold Yards.queued
  rw [hinsert, hvalues, hy]
  simp only [Option.toList_some, List.append_assoc, List.cons_append, List.nil_append,
    List.flatMap_append, List.flatMap_cons]
  refine .append_left _ ?_
  have hswap : (ps ++ after.flatMap Yard.queued).Perm (after.flatMap Yard.queued ++ ps) :=
    List.perm_append_comm
  refine (hperm.append_right _).trans ?_
  rw [List.append_assoc]
  exact hswap.append_left _

theorem Buys.queued_perm {arbiter : Arbiter} {pass next : Pass} {b : Purchase}
    (h : Buys arbiter pass b next) :
    next.yards.queued.Perm (pass.yards.queued ++ b.pieces) := by
  obtain ⟨y, y', hy, hqueue, hnext⟩ := h.queued
  rw [hnext]
  exact Yards.queued_perm_of_insert hy (Yard.queued_perm_of_queue hqueue)

/-- What waits for a place in one yard. -/
def Yard.queuedFor (y : Yard) (place : TerritoryId) : List Piece :=
  (y.places.filter fun p => p.territory == place).flatMap Place.queue

theorem Yards.queuedFor_eq (ys : Yards) (place : TerritoryId) :
    ys.queuedFor place = ys.values.flatMap fun y => y.queuedFor place := by
  unfold queuedFor Yard.queuedFor
  rw [List.filter_flatMap, List.flatMap_assoc]

/-- What waits for a place is among all that waits. -/
theorem Yards.queuedFor_sublist (ys : Yards) (place : TerritoryId) :
    (ys.queuedFor place).Sublist ys.queued := by
  have hqueued : ys.queued = (ys.values.flatMap Yard.places).flatMap Place.queue := by
    rw [List.flatMap_assoc]
    rfl
  rw [hqueued]
  exact List.filter_sublist.flatMap Place.queue

/-- In what a yard has for any place, a batch comes in at one point if it is for that place. -/
theorem Yard.queuedFor_split {y y' : Yard} {place : TerritoryId} {ps : List Piece}
    (h : y.queue place ps = .ok y') (other : TerritoryId) :
    ∃ before after, y.queuedFor other = before ++ after ∧
      y'.queuedFor other = before ++ (if other = place then ps else []) ++ after := by
  obtain ⟨hplace, -, left, -, rfl⟩ := queue_eq_ok_iff.mp h
  obtain ⟨older, p, newer, hsplit, hp, henqueue⟩ := enqueue_split ps hplace
  unfold queuedFor
  rw [henqueue, hsplit]
  simp only [List.filter_append, List.filter_cons, List.flatMap_append, hp]
  by_cases hsame : other = place
  · subst hsame
    refine ⟨(older.filter fun p => p.territory == other).flatMap Place.queue ++ p.queue,
      (newer.filter fun p => p.territory == other).flatMap Place.queue, ?_, ?_⟩
    · simp [List.append_assoc]
    · simp [List.append_assoc]
  · refine ⟨(older.filter fun p => p.territory == other).flatMap Place.queue,
      (newer.filter fun p => p.territory == other).flatMap Place.queue, ?_, ?_⟩
    · simp [Ne.symm hsame]
    · simp [hsame, Ne.symm hsame]

/-- What waits for a place stays in its order; a batch for that place comes in at one point. -/
theorem Buys.queuedFor_split {arbiter : Arbiter} {pass next : Pass} {b : Purchase}
    (h : Buys arbiter pass b next) (place : TerritoryId) :
    ∃ before after, pass.yards.queuedFor place = before ++ after ∧
      next.yards.queuedFor place =
        before ++ (if place = b.place then b.pieces else []) ++ after := by
  obtain ⟨y, y', hy, hqueue, hnext⟩ := h.queued
  obtain ⟨before, after, hold, hnew⟩ := Yard.queuedFor_split hqueue place
  obtain ⟨older, newer, hvalues, hinsert⟩ := pass.yards.values_split b.yard
  rw [Yards.queuedFor_eq, Yards.queuedFor_eq, hnext, hinsert, hvalues, hy]
  -- the batch lies between what the yards before and after this one have
  refine ⟨older.flatMap (·.queuedFor place) ++ before,
    after ++ newer.flatMap (·.queuedFor place), ?_, ?_⟩
  · simp [hold, List.append_assoc]
  · simp [hnew, List.append_assoc]

/-- A purchase leaves what waits for a place where it is. -/
theorem Buys.queuedFor_sublist {arbiter : Arbiter} {pass next : Pass} {b : Purchase}
    (h : Buys arbiter pass b next) (place : TerritoryId) :
    (pass.yards.queuedFor place).Sublist (next.yards.queuedFor place) := by
  obtain ⟨before, after, hold, hnew⟩ := h.queuedFor_split place
  rw [hold, hnew]
  exact (List.sublist_append_left _ _).append (List.Sublist.refl _)

/-- What waits for the place of a batch is what waited there before, and the batch. -/
theorem Buys.queuedFor_perm {arbiter : Arbiter} {pass next : Pass} {b : Purchase}
    (h : Buys arbiter pass b next) :
    (next.yards.queuedFor b.place).Perm (pass.yards.queuedFor b.place ++ b.pieces) := by
  obtain ⟨before, after, hold, hnew⟩ := h.queuedFor_split b.place
  rw [hold, hnew, if_pos rfl, List.append_assoc, List.append_assoc]
  exact List.perm_append_comm.append_left _

theorem Buys.queuedFor_eq_of_ne {arbiter : Arbiter} {pass next : Pass} {b : Purchase}
    (h : Buys arbiter pass b next) {place : TerritoryId} (hplace : place ≠ b.place) :
    next.yards.queuedFor place = pass.yards.queuedFor place := by
  obtain ⟨before, after, hold, hnew⟩ := h.queuedFor_split place
  rw [hold, hnew, if_neg hplace, List.append_nil]

/-- But for what waits in them, a purchase leaves the yards alone. -/
theorem Buys.cleared_yards {arbiter : Arbiter} {pass next : Pass} {b : Purchase}
    (h : Buys arbiter pass b next) :
    next.yards.map Yard.cleared = pass.yards.map Yard.cleared := by
  obtain ⟨y, y', hy, hqueue, hnext⟩ := h.queued
  have hentry : (pass.yards.map Yard.cleared).get? b.yard = some y.cleared := by
    rw [SortedMap.get?_map, hy]
    rfl
  rw [hnext, SortedMap.map_insert, Yard.cleared_of_queue hqueue, SortedMap.insert_eq_self hentry]

namespace Bought

variable {arbiter : Arbiter} {eligible : Purchase → Prop} {pass last : Pass} {bs : List Purchase}

theorem cleared_yards (h : Bought arbiter eligible pass bs last) :
    last.yards.map Yard.cleared = pass.yards.map Yard.cleared :=
  h.invariant (P := fun q => q.yards.map Yard.cleared = pass.yards.map Yard.cleared)
    (fun _ _ _ hbuys _ hq => hbuys.cleared_yards.trans hq) rfl

/-- A yard of a later pass was there from the start, with nothing queued. -/
theorem cleared_get? (h : Bought arbiter eligible pass bs last) {id : TerritoryId} {y : Yard}
    (hy : last.yards.get? id = some y) :
    ∃ y₀, pass.yards.get? id = some y₀ ∧ y.cleared = y₀.cleared := by
  have hmap := congrArg (fun m => SortedMap.get? m id) h.cleared_yards
  simp only [SortedMap.get?_map, hy, Option.map_some] at hmap
  obtain ⟨y₀, hy₀, hcleared⟩ := Option.map_eq_some_iff.mp hmap.symm
  exact ⟨y₀, hy₀, hcleared.symm⟩

/-- The queues of a later pass hold what was there and what was bought since. -/
theorem queued_perm (h : Bought arbiter eligible pass bs last) :
    last.yards.queued.Perm (pass.yards.queued ++ bs.flatMap Purchase.pieces) := by
  induction h with
  | nil pass => simp
  | cons hbuys _ _ ih =>
    rw [List.flatMap_cons, ← List.append_assoc]
    exact ih.trans (hbuys.queued_perm.append_right _)

/-- What a bought batch preserves in its yard is preserved in all yards. -/
theorem yards_invariant {P : TerritoryId → Yard → Prop}
    (hstep : ∀ q b next y y', Buys arbiter q b next → eligible b → q.player = pass.player →
      y.queue b.place b.pieces = .ok y' → P b.yard y → P b.yard y')
    (h : Bought arbiter eligible pass bs last)
    (hpass : ∀ id y, pass.yards.get? id = some y → P id y) :
    ∀ id y, last.yards.get? id = some y → P id y := by
  refine (h.invariant
    (P := fun q => q.player = pass.player ∧ ∀ id y, q.yards.get? id = some y → P id y)
    ?_ ⟨rfl, hpass⟩).2
  rintro q b next hbuys heligible ⟨hplayer, hq⟩
  obtain ⟨y, y', hy, hqueue, hnext⟩ := hbuys.queued
  refine ⟨hbuys.player.trans hplayer, ?_⟩
  intro id z hz
  rw [hnext] at hz
  by_cases hid : id = b.yard
  · subst hid
    rw [SortedMap.get?_insert_self] at hz
    obtain rfl : y' = z := Option.some.inj hz
    exact hstep q b next y _ hbuys heligible hplayer hqueue (hq _ y hy)
  · rw [SortedMap.get?_insert_of_ne _ _ hid] at hz
    exact hq id z hz

end Bought

/-- A yard is open in a territory, and a place is one of those that it feeds. -/
def Yards.Feeds (ys : Yards) (yard place : TerritoryId) : Prop :=
  ∃ y, ys.get? yard = some y ∧ place ∈ y.places.map Place.territory

theorem Yard.map_territory_cleared (y : Yard) :
    y.cleared.places.map Place.territory = y.places.map Place.territory := by
  unfold cleared
  rw [List.map_map]
  rfl

/-- What waits in the yards plays no part in what they feed. -/
theorem Yards.Feeds.of_cleared {ys ys' : Yards} {yard place : TerritoryId}
    (h : ys.Feeds yard place) (hcleared : ys.map Yard.cleared = ys'.map Yard.cleared) :
    ys'.Feeds yard place := by
  obtain ⟨y, hy, hplace⟩ := h
  have hmap := congrArg (fun m => SortedMap.get? m yard) hcleared
  simp only [SortedMap.get?_map, hy, Option.map_some] at hmap
  obtain ⟨y', hy', hsame⟩ := Option.map_eq_some_iff.mp hmap.symm
  refine ⟨y', hy', ?_⟩
  rw [← y'.map_territory_cleared, hsame, y.map_territory_cleared]
  exact hplace

/-- A batch goes to a place of the yard that makes it. -/
theorem Buys.feeds {arbiter : Arbiter} {pass next : Pass} {b : Purchase}
    (h : Buys arbiter pass b next) : pass.yards.Feeds b.yard b.place := by
  obtain ⟨y, y', hy, hqueue, -⟩ := h.queued
  exact ⟨y, hy, (Yard.queue_eq_ok_iff.mp hqueue).1⟩

/-! ## Passes that purchases lead to -/

namespace Planner

/-- A pass that purchases lead to from the opened one. -/
def Reached (s : Snapshot) (arbiter : Arbiter) (catalog : Catalog) (player : PlayerId)
    (pass : Pass) : Prop :=
  ∃ start bs, openPass s player = .ok start ∧
    Bought arbiter (Eligible s catalog player) start bs pass

namespace Reached

variable {arbiter : Arbiter} {catalog : Catalog} {pass next : Pass} {id : TerritoryId} {y : Yard}

theorem of_openPass (h : openPass s player = .ok pass) :
    Reached s arbiter catalog player pass :=
  ⟨pass, [], h, .nil pass⟩

theorem bought {eligible : Purchase → Prop} {bs : List Purchase}
    (h : Reached s arbiter catalog player pass) (hbs : Bought arbiter eligible pass bs next)
    (heligible : ∀ b, eligible b → Eligible s catalog player b) :
    Reached s arbiter catalog player next := by
  obtain ⟨start, bs', hstart, hbs'⟩ := h
  exact ⟨start, bs' ++ bs, hstart, hbs'.append (hbs.imp heligible)⟩

/-- A round that buys something leads to one more such pass. -/
theorem of_round {yard place : TerritoryId} {offers : List Offer} {role : Role} {p p' : Planner}
    (h : Reached s arbiter catalog player pass) (hoffers : offersFor catalog yard place = offers)
    (hrole : roleOf s yard player = .ok role)
    (hround : round arbiter yard place offers role pass p = (.ok (some next), p')) :
    Reached s arbiter catalog player next := by
  obtain ⟨b, rfl, rfl, hoffer, hpos, hbuys⟩ := round_eq_some hround
  rw [← hoffers] at hoffer
  have heligible : Eligible s catalog player b := eligible_iff.mpr ⟨hoffer, role, hrole, hpos⟩
  exact h.bought (.cons hbuys heligible (.nil next)) fun _ hb => hb

theorem player_eq (h : Reached s arbiter catalog player pass) : pass.player = player := by
  obtain ⟨start, bs, hstart, hbs⟩ := h
  obtain ⟨-, -, -, hplayer, -⟩ := openPass_eq_ok hstart
  exact hbs.player_eq.trans hplayer

/-- But for what waits in it, a yard is the new yard of its territory. -/
theorem yard_cleared (h : Reached s arbiter catalog player pass)
    (hy : pass.yards.get? id = some y) :
    s.canMoveLandPieces id player = .ok true ∧ s.capacity id player = .ok y.capacity ∧
      Yard.ofTerritory s id y.capacity = .ok y.cleared := by
  obtain ⟨start, bs, hstart, hbs⟩ := h
  obtain ⟨-, -, hyards, -⟩ := openPass_eq_ok hstart
  obtain ⟨y₀, hy₀, hcleared⟩ := hbs.cleared_get? hy
  obtain ⟨-, hmove, hcapacity, hnew⟩ := findYards_get? hyards hy₀
  obtain ⟨-, -, hclear, -⟩ := Yard.ofTerritory_eq_ok hnew
  have hsame : y.capacity = y₀.capacity := Yard.capacity_eq_of_cleared hcleared
  rw [hcleared, hclear, hsame]
  exact ⟨hmove, hcapacity, hnew⟩

/-- A yard lies on land, and but for what waits in it is the new yard there. -/
theorem exists_land (h : Reached s arbiter catalog player pass)
    (hy : pass.yards.get? id = some y) :
    ∃ t, s.territory id = .ok t ∧ t.isWater = false ∧
      Yard.ofTerritory s id y.capacity = .ok y.cleared := by
  obtain ⟨hmove, -, hnew⟩ := h.yard_cleared hy
  obtain ⟨t, ht, -⟩ := Yard.ofTerritory_eq_ok hnew
  exact ⟨t, ht, Snapshot.not_isWater_of_canMoveLandPieces ht hmove, hnew⟩

/-- What a yard feeds is the land that it lies on and the sea zones beside that. -/
theorem mem_places (hs : s.Keyed) (h : Reached s arbiter catalog player pass)
    (hy : pass.yards.get? id = some y) :
    ∃ t, s.territory id = .ok t ∧ t.isWater = false ∧
      ∀ place ∈ y.places.map Place.territory, place = id ∨
        ∃ z, s.territory place = .ok z ∧ z.isWater = true ∧ t.isAdjacentTo place = true := by
  obtain ⟨t, ht, hland, hnew⟩ := h.exists_land hy
  refine ⟨t, ht, hland, ?_⟩
  intro place hplace
  rw [← y.map_territory_cleared] at hplace
  exact Yard.mem_places_of_ofTerritory hs hnew ht hland hplace

theorem cleared_yards (h : Reached s arbiter catalog player pass) {start : Pass}
    (hstart : openPass s player = .ok start) :
    pass.yards.map Yard.cleared = start.yards.map Yard.cleared := by
  obtain ⟨start', bs, hstart', hbs⟩ := h
  obtain rfl : start = start' := Except.ok.inj (hstart.symm.trans hstart')
  exact hbs.cleared_yards

/-- What purchases preserve in a yard and new yards have is true of every yard. -/
theorem yards_invariant {P : Yard → Prop}
    (hstep : ∀ q b next y y', Buys arbiter q b next → q.player = player →
      y.queue b.place b.pieces = .ok y' → P y → P y')
    (hnew : ∀ y : Yard, y.IsClear → P y) (h : Reached s arbiter catalog player pass)
    (hy : pass.yards.get? id = some y) : P y := by
  obtain ⟨start, bs, hstart, hbs⟩ := h
  obtain ⟨-, -, hyards, hplayer, -⟩ := openPass_eq_ok hstart
  refine hbs.yards_invariant (P := fun _ y => P y) ?_ ?_ id y hy
  · intro q b next y y' hbuys _ hq hqueue hP
    exact hstep q b next y y' hbuys (hq.trans hplayer) hqueue hP
  · intro id y hget
    obtain ⟨-, -, -, hopened⟩ := findYards_get? hyards hget
    obtain ⟨-, -, hclear, -⟩ := Yard.ofTerritory_eq_ok hopened
    exact hnew y hclear

/-- A yard feeds the land that it is open in. -/
theorem feeds_self (h : Reached s arbiter catalog player pass)
    (hy : pass.yards.get? id = some y) : pass.yards.Feeds id id := by
  obtain ⟨t, ht, hland, hnew⟩ := h.exists_land hy
  refine ⟨y, hy, ?_⟩
  rw [← y.map_territory_cleared, Yard.places_of_ofTerritory hnew ht hland]
  exact List.mem_cons_self ..

end Reached

/-- What waits in the yards plays no part in which sea zones they feed. -/
theorem seaZones_eq (pass : Pass) (yard : TerritoryId) :
    seaZones pass yard = ((pass.yards.map Yard.cleared).get? yard).elim [] fun y =>
      (y.places.filter fun p => p.isWater && p.territory != yard).map Place.territory := by
  unfold seaZones
  rw [SortedMap.get?_map]
  cases pass.yards.get? yard with
  | none => rfl
  | some y =>
    simp only [Option.map_some, Option.elim_some, Yard.cleared, List.filter_map, List.map_map]
    rfl

/-- A plan reports a pass that purchases led to. -/
theorem plan_reached {arbiter : Arbiter} {p p' : Planner} {plan : Plan}
    (h : p.plan s arbiter player = (.ok plan, p')) :
    ∃ catalog last, Catalog.ofFrontier s player p.config.currency = .ok catalog ∧
      Reached s arbiter catalog player last ∧ toPlan s last = .ok plan := by
  obtain ⟨catalog, start, bs, last, hcatalog, hstart, hbs, hplan⟩ := plan_eq_ok h
  exact ⟨catalog, last, hcatalog, ⟨start, bs, hstart, hbs⟩, hplan⟩

end Planner

/-! ## The yards of a plan -/

namespace Planner

variable {arbiter : Arbiter} {p p' : Planner} {plan : Plan} {id : TerritoryId} {y : Yard}

theorem plan_player (h : p.plan s arbiter player = (.ok plan, p')) : plan.player = player := by
  obtain ⟨catalog, last, -, hreached, hplan⟩ := plan_reached h
  obtain ⟨hlast, -⟩ := toPlan_eq_ok hplan
  rw [hlast, hreached.player_eq]

/-- But for what waits in it, a yard of a plan is the new yard of its territory. -/
theorem plan_yard_cleared (h : p.plan s arbiter player = (.ok plan, p'))
    (hy : plan.yards.get? id = some y) :
    s.canMoveLandPieces id player = .ok true ∧ s.capacity id player = .ok y.capacity ∧
      Yard.ofTerritory s id y.capacity = .ok y.cleared := by
  obtain ⟨catalog, last, -, hreached, hplan⟩ := plan_reached h
  obtain ⟨-, hlast, -⟩ := toPlan_eq_ok hplan
  rw [hlast] at hy
  exact hreached.yard_cleared hy

/-- What purchases preserve in a yard and new yards have is true of the yards of a plan. -/
theorem plan_yards_invariant {P : Yard → Prop}
    (hstep : ∀ q b next y y', Buys arbiter q b next → q.player = player →
      y.queue b.place b.pieces = .ok y' → P y → P y')
    (hnew : ∀ y : Yard, y.IsClear → P y) (h : p.plan s arbiter player = (.ok plan, p'))
    (hy : plan.yards.get? id = some y) : P y := by
  obtain ⟨catalog, last, -, hreached, hplan⟩ := plan_reached h
  obtain ⟨-, hlast, -⟩ := toPlan_eq_ok hplan
  rw [hlast] at hy
  exact hreached.yards_invariant hstep hnew hy

end Planner

end Quartermaster
