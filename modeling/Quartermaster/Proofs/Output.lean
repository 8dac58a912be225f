import Quartermaster.Proofs.Orders
import Quartermaster.Samples

/-!
# What a producer puts out

A producer has one capacity for its own land and for all the sea zones beside it. Where it alone
feeds those zones, what is placed on the land and in the zones should never come to more.

Each branch of the rules looks at its own side. Ships are measured against what lies on the land
and in the zones together (`usedBy_fits_of_ships`), pieces for the land only against what lies on
the land (`placedIn_fits`). So the sum keeps to the capacity whenever ships were placed last, and
throughout a turn that fills the land before the sea (`usedBy_fits_of_landFirst`). Land that is
filled after the sea counts a second time (`output_exceeded_separateSeas`).

The yard of an order plays no part here: a list of orders is any series of placements.
-/

namespace Quartermaster

variable {s : Snapshot} {player : PlayerId} {t z : Territory} {place : TerritoryId}
  {ps : List Piece} {c : Capacity} {done os : List Order} {o : Order} {turn before : PlaceTurn}

/-! ## One placement -/

namespace PlaceTurn

/-- What is accepted for land fits its capacity next to what lies there. -/
theorem fits_of_check_land (h : turn.check s place ps = .ok ()) (ht : s.territory place = .ok t)
    (hland : t.isWater = false) (hc : s.capacity place turn.player = .ok c) :
    c.fits ((turn.placedIn place).length + ps.length) = true := by
  obtain ⟨t', hsuits, room, hroom, hfits, -⟩ := check_eq_ok_iff.mp h
  have hsame : t = t' := Except.ok.inj (ht.symm.trans hsuits.territory)
  subst hsame
  rw [roomFor_of_land hland, landRoom_eq_ok_iff] at hroom
  obtain ⟨-, c', hc', rfl⟩ := hroom
  have hcap : c = c' := Except.ok.inj (hc.symm.trans hc')
  subst hcap
  exact Room.fits_iff.mp hfits

/-- What is accepted for a zone fits the capacity of a neighbour that feeds it, next to all that
the neighbour has used up. -/
theorem exists_feeder_of_check (hs : s.Keyed) (h : turn.check s place ps = .ok ())
    (hz : s.territory place = .ok z) (hwater : z.isWater = true) :
    ∃ t c, s.territory t.id = .ok t ∧ z.isAdjacentTo t.id = true ∧ s.Feeds turn.player t c ∧
      c.fits (turn.usedBy s t + ps.length) = true := by
  obtain ⟨z', hsuits, room, hroom, hfits, -⟩ := check_eq_ok_iff.mp h
  have hsame : z = z' := Except.ok.inj (hz.symm.trans hsuits.territory)
  subst hsame
  rw [roomFor_of_water hwater, seaRoom_eq_ok_iff, hs.territory_id hz] at hroom
  obtain ⟨rooms, hrooms, hwidest⟩ := hroom
  have hroom : room ∈ rooms := (Room.widest?_eq_some hwidest).1
  obtain ⟨t, c, ht, hbeside, hfeeds, rfl⟩ := (mem_roomsAround_iff_of_keyed hs hz hrooms).mp hroom
  exact ⟨t, c, ht, hbeside, hfeeds, Room.fits_iff.mp hfits⟩

/-- The last of several orders was accepted after the others had been carried out. -/
theorem placeAll_snoc_eq_ok_iff :
    PlaceTurn.placeAll s { player } (done ++ [o]) = .ok turn ↔
      ∃ before, PlaceTurn.placeAll s { player } done = .ok before ∧
        before.check s o.place o.pieces = .ok () ∧ turn = before.record o.place o.pieces := by
  rw [placeAll_snoc, Outcome.bind_eq_ok_iff]
  simp only [place_eq_ok_iff]

/-! ## Land -/

/-- Land never holds more than its capacity. -/
theorem placedIn_fits (h : PlaceTurn.placeAll s { player } os = .ok turn)
    (ht : s.territory place = .ok t) (hland : t.isWater = false)
    (hc : s.capacity place player = .ok c) : c.fits (turn.placedIn place).length = true := by
  induction os using List.reverseRecOn generalizing turn with
  | nil =>
    have hempty : { player } = turn := Except.ok.inj h
    subst hempty
    exact c.fits_zero
  | append_singleton done o ih =>
    obtain ⟨before, hbefore, hcheck, rfl⟩ := placeAll_snoc_eq_ok_iff.mp h
    rw [placedIn_record]
    by_cases hplace : place = o.place
    · -- the order was for the land itself, and the rules measured it
      subst hplace
      obtain ⟨hplayer, -, -⟩ := placeAll_spec hbefore
      rw [if_pos rfl, List.length_append]
      exact fits_of_check_land hcheck ht hland (hplayer ▸ hc)
    · rw [if_neg hplace, List.append_nil]
      exact ih hbefore

end PlaceTurn

/-! ## Land and sea -/

/-- No other territory of the player lies beside a sea zone beside this one. -/
def Snapshot.FeedsAlone (s : Snapshot) (player : PlayerId) (t : Territory) : Prop :=
  ∀ zone ∈ s.zonesBeside t, ∀ t' ∈ s.territories.values, t'.isOwnedBy player = true →
    t'.isAdjacentTo zone = true → t'.id = t.id

instance (s : Snapshot) (player : PlayerId) (t : Territory) : Decidable (s.FeedsAlone player t) :=
  inferInstanceAs (Decidable (∀ zone ∈ s.zonesBeside t, ∀ t' ∈ s.territories.values,
    t'.isOwnedBy player = true → t'.isAdjacentTo zone = true → t'.id = t.id))

namespace PlaceTurn

/-- What lies beside a territory is what the orders for the zones there come to. -/
theorem placedBeside_eq (h : PlaceTurn.placeAll s { player } os = .ok turn) (t : Territory) :
    turn.placedBeside s t = Order.amount (fun o => decide (o.place ∈ s.zonesBeside t)) os := by
  obtain ⟨-, hplaced, -⟩ := placeAll_spec h
  unfold placedBeside
  simp only [hplaced]
  exact Order.amount_places (t.neighbors.nodup_keys.filter _) os

/-- Just after ships were placed beside a territory that alone feeds its zones, all that it has
used up fits its capacity. -/
theorem usedBy_fits_of_ships (hs : s.Keyed) (hm : s.Mutual) (halone : s.FeedsAlone player t)
    (ht : s.territory t.id = .ok t) (hland : t.isWater = false)
    (hc : s.capacity t.id player = .ok c)
    (h : PlaceTurn.placeAll s { player } (done ++ [o]) = .ok turn)
    (hzone : o.place ∈ s.zonesBeside t) : c.fits (turn.usedBy s t) = true := by
  obtain ⟨before, hbefore, hcheck, -⟩ := placeAll_snoc_eq_ok_iff.mp h
  obtain ⟨hplayer, -, -⟩ := placeAll_spec hbefore
  obtain ⟨-, z, hz, hwater⟩ := Snapshot.mem_zonesBeside_iff.mp hzone
  obtain ⟨t', c', ht', hbeside, ⟨hproduces, hc'⟩, hfits⟩ :=
    exists_feeder_of_check hs hcheck hz hwater
  -- the neighbour that fed the zone is the player's, and so it is the territory itself
  have hself : t' = t := by
    have hvalue : t' ∈ s.territories.values :=
      SortedMap.mem_values_iff.mpr ⟨t'.id, Snapshot.territory_eq_ok_iff.mp ht'⟩
    obtain ⟨-, -, howned⟩ := Snapshot.isOwnedBy_of_isProducer hproduces
    rw [hplayer] at howned
    have hid : t'.id = t.id := halone _ hzone t' hvalue howned (hm.symm hz ht' hbeside)
    rw [hid] at ht'
    exact Except.ok.inj (ht'.symm.trans ht)
  subst hself
  have hcap : c' = c := by
    rw [hplayer] at hc'
    exact Except.ok.inj (hc'.symm.trans hc)
  subst hcap
  have hsum : turn.usedBy s t' = before.usedBy s t' + o.pieces.length := by
    rw [usedBy_eq h ht hland, usedBy_eq hbefore ht hland]
    exact Order.amount_snoc_of_pos (decide_eq_true (List.mem_cons_of_mem _ hzone)) done
  rw [hsum]
  exact hfits

/-- What lies beside a territory that alone feeds its zones fits its capacity. -/
theorem placedBeside_fits (hs : s.Keyed) (hm : s.Mutual) (halone : s.FeedsAlone player t)
    (ht : s.territory t.id = .ok t) (hland : t.isWater = false)
    (hc : s.capacity t.id player = .ok c) (h : PlaceTurn.placeAll s { player } os = .ok turn) :
    c.fits (turn.placedBeside s t) = true := by
  induction os using List.reverseRecOn generalizing turn with
  | nil =>
    rw [placedBeside_eq h t]
    exact c.fits_zero
  | append_singleton done o ih =>
    by_cases hzone : o.place ∈ s.zonesBeside t
    · have hall : c.fits (turn.usedBy s t) = true :=
        usedBy_fits_of_ships hs hm halone ht hland hc h hzone
      rw [usedBy_eq_add] at hall
      exact Capacity.fits_mono hall (Nat.le_add_left _ _)
    · obtain ⟨before, hbefore, -, -⟩ := placeAll_snoc_eq_ok_iff.mp h
      have hsame : turn.placedBeside s t = before.placedBeside s t := by
        rw [placedBeside_eq h, placedBeside_eq hbefore, Order.amount_append, Order.amount_cons,
          if_neg (by simpa using hzone)]
        rfl
      rw [hsame]
      exact ih hbefore

/-- Where nothing is placed on the land after the sea, all that is used up fits the capacity. -/
theorem usedBy_fits_of_landFirst (hs : s.Keyed) (hm : s.Mutual) (halone : s.FeedsAlone player t)
    (ht : s.territory t.id = .ok t) (hland : t.isWater = false)
    (hc : s.capacity t.id player = .ok c) (h : PlaceTurn.placeAll s { player } os = .ok turn)
    (hfirst : ∀ done o rest, os = done ++ o :: rest → o.place = t.id →
      ∀ o' ∈ done, o'.place ∉ s.zonesBeside t) :
    c.fits (turn.usedBy s t) = true := by
  induction os using List.reverseRecOn generalizing turn with
  | nil =>
    rw [usedBy_eq h ht hland]
    exact c.fits_zero
  | append_singleton done o ih =>
    obtain ⟨before, hbefore, -, -⟩ := placeAll_snoc_eq_ok_iff.mp h
    by_cases hzone : o.place ∈ s.zonesBeside t
    · exact usedBy_fits_of_ships hs hm halone ht hland hc h hzone
    · by_cases hself : o.place = t.id
      · -- no ships came before the last order for the land, nor is it one for ships
        have hnone : turn.placedBeside s t = 0 := by
          rw [placedBeside_eq h]
          unfold Order.amount
          have hdry : (done ++ [o]).filter (fun o => decide (o.place ∈ s.zonesBeside t)) = [] := by
            refine List.filter_eq_nil_iff.mpr fun o' ho' => ?_
            rw [decide_eq_true_iff]
            rcases List.mem_append.mp ho' with hdone | hlast
            · exact hfirst done o [] rfl hself o' hdone
            · rw [List.mem_singleton.mp hlast]
              exact hzone
          rw [hdry]
          rfl
        rw [usedBy_eq_add, hnone, Nat.add_zero]
        exact placedIn_fits h ht hland hc
      · have hsame : turn.usedBy s t = before.usedBy s t := by
          rw [usedBy_eq h ht hland, usedBy_eq hbefore ht hland, Order.amount_append,
            Order.amount_cons, if_neg (by simp [hself, hzone])]
          rfl
        rw [hsame]
        apply ih hbefore
        intro done' o' rest hsplit
        exact hfirst done' o' (rest ++ [o]) (by rw [hsplit]; simp)

/-- Land that is filled after the sea counts a second time. A port that makes two pieces feeds one
zone; two destroyers are placed there first and two infantry on the land after them, and all are
accepted. The other way round the destroyers are refused. -/
theorem output_exceeded_separateSeas :
    let s := Samples.separateSeas
    let ships : Order := ⟨Samples.redCapital, Samples.westSea,
      [Samples.piece 20 Samples.destroyer Samples.red,
        Samples.piece 21 Samples.destroyer Samples.red]⟩
    let infantry : Order := ⟨Samples.redCapital, Samples.redCapital,
      [Samples.piece 22 Samples.infantry Samples.red,
        Samples.piece 23 Samples.infantry Samples.red]⟩
    s.Keyed ∧ s.Mutual ∧ s.validate = .ok () ∧
      ∃ t, s.territory Samples.redCapital = .ok t ∧ s.isProducer t Samples.red = .ok true ∧
        s.capacity t.id Samples.red = .ok (.limited 2) ∧ s.FeedsAlone Samples.red t ∧
        (∃ turn, PlaceTurn.placeAll s { player := Samples.red } [ships, infantry] = .ok turn ∧
          (turn.placedIn t.id).length + turn.placedBeside s t = 4) ∧
        PlaceTurn.placeAll s { player := Samples.red } [infantry, ships] =
          .error (.capacityExceeded Samples.westSea 2 2 (.limited 2)) := by
  intro s ships infantry
  refine ⟨by decide +kernel, by decide +kernel, by decide +kernel, ?_⟩
  obtain ⟨t, ht, hread⟩ := Outcome.exists_of_toOption
    (show (s.territory Samples.redCapital).toOption.map (fun t =>
      (decide (s.isProducer t Samples.red = .ok true ∧
        s.capacity t.id Samples.red = .ok (.limited 2) ∧ s.FeedsAlone Samples.red t),
       (PlaceTurn.placeAll s { player := Samples.red } [ships, infantry]).toOption.map
          fun turn => (turn.placedIn t.id).length + turn.placedBeside s t)) =
        some (true, some 4) by decide +kernel)
  obtain ⟨hsite, hsum⟩ := Prod.mk.inj hread
  obtain ⟨hproduces, hc, halone⟩ := of_decide_eq_true hsite
  exact ⟨t, ht, hproduces, hc, halone, Outcome.exists_of_toOption hsum, by decide +kernel⟩

/-- How far a capacity bounds what comes out of a producer that alone feeds its zones. After any
series of accepted placements, its land holds no more than the capacity, and neither do the zones
beside it. Both together hold no more if ships beside it were placed last, and if no piece was
placed on the land after ships beside it. -/
theorem output_bounded (hs : s.Keyed) (hm : s.Mutual) {n : Nat} (ht : s.territory t.id = .ok t)
    (hproduces : s.isProducer t player = .ok true)
    (hc : s.capacity t.id player = .ok (.limited n)) (halone : s.FeedsAlone player t)
    (h : PlaceTurn.placeAll s { player } os = .ok turn) :
    (turn.placedIn t.id).length ≤ n ∧ turn.placedBeside s t ≤ n ∧
      ((∃ done o, os = done ++ [o] ∧ o.place ∈ s.zonesBeside t) →
        (turn.placedIn t.id).length + turn.placedBeside s t ≤ n) ∧
      ((∀ done o rest, os = done ++ o :: rest → o.place = t.id →
          ∀ o' ∈ done, o'.place ∉ s.zonesBeside t) →
        (turn.placedIn t.id).length + turn.placedBeside s t ≤ n) := by
  obtain ⟨hland, -, -⟩ := Snapshot.isOwnedBy_of_isProducer hproduces
  have hfits : ∀ m, (Capacity.limited n).fits m = true → m ≤ n := fun _ => of_decide_eq_true
  refine ⟨hfits _ (placedIn_fits h ht hland hc),
    hfits _ (placedBeside_fits hs hm halone ht hland hc h), ?_, ?_⟩
  · rintro ⟨done, o, rfl, hzone⟩
    exact hfits _ (usedBy_fits_of_ships hs hm halone ht hland hc h hzone)
  · intro hfirst
    exact hfits _ (usedBy_fits_of_landFirst hs hm halone ht hland hc h hfirst)

/-- A port that makes two pieces takes infantry and then a destroyer for the sea beside it. -/
theorem output_bounded_separateSeas :
    let s := Samples.separateSeas
    let infantry : Order := ⟨Samples.redCapital, Samples.redCapital,
      [Samples.piece 20 Samples.infantry Samples.red]⟩
    let ship : Order := ⟨Samples.redCapital, Samples.westSea,
      [Samples.piece 21 Samples.destroyer Samples.red]⟩
    s.Keyed ∧ s.Mutual ∧
      ∃ t turn, s.territory t.id = .ok t ∧ t.id = Samples.redCapital ∧
        s.isProducer t Samples.red = .ok true ∧ s.capacity t.id Samples.red = .ok (.limited 2) ∧
        s.FeedsAlone Samples.red t ∧
        PlaceTurn.placeAll s { player := Samples.red } [infantry, ship] = .ok turn ∧
        ship.place ∈ s.zonesBeside t ∧
        (turn.placedIn t.id).length + turn.placedBeside s t ≤ 2 := by
  intro s infantry ship
  have hkeyed : s.Keyed := by decide +kernel
  have hmutual : s.Mutual := by decide +kernel
  obtain ⟨t, ht, hread⟩ := Outcome.exists_of_toOption
    (show (s.territory Samples.redCapital).toOption.map (fun t =>
      decide (s.isProducer t Samples.red = .ok true ∧
        s.capacity t.id Samples.red = .ok (.limited 2) ∧ s.FeedsAlone Samples.red t ∧
        ship.place ∈ s.zonesBeside t)) = some true by decide +kernel)
  obtain ⟨hproduces, hc, halone, hzone⟩ := of_decide_eq_true hread
  obtain ⟨turn, hturn, -⟩ := Outcome.exists_of_toOption
    (show (PlaceTurn.placeAll s { player := Samples.red } [infantry, ship]).toOption.map
      (fun _ => ()) = some () by decide +kernel)
  have hid : t.id = Samples.redCapital := hkeyed.territory_id ht
  have hself : s.territory t.id = .ok t := by rw [hid]; exact ht
  obtain ⟨-, -, hships, -⟩ := output_bounded hkeyed hmutual hself hproduces hc halone hturn
  exact ⟨hkeyed, hmutual, t, turn, hself, hid, hproduces, hc, halone, hturn, hzone,
    hships ⟨[infantry], ship, rfl, hzone⟩⟩

end PlaceTurn

end Quartermaster
