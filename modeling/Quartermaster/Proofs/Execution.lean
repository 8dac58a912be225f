import Quartermaster.Proofs.Admission
import Quartermaster.Proofs.Ceiling
import Quartermaster.Proofs.Conservation
import Quartermaster.Proofs.Orders

/-!
# Plans carried out

How much of a plan a single turn of placing accepts.

The arbiter is asked about one place at a time and knows what waits there, not what the same
producers send elsewhere. A turn knows both. So a plan can be refused in part: where two yards lie
beside the same seas, the ships of one count against the other as well. That is the only way for
it to happen. In whatever order a plan is carried out, what it places on land is never refused
(`place_home`), ships are refused for want of room only (`place_sea`), and nothing is refused
where no sea with ships in it is shared (`placeAll_of_seasApart`).
-/

namespace Quartermaster

namespace Planner

variable {s : Snapshot} {player : PlayerId} {p p' : Planner} {plan : Plan} {done os : List Order}
  {o : Order} {turn : PlaceTurn}

/-! ## One order -/

/-- Every order of a plan is for pieces that its place takes. -/
theorem plan_takes_order (h : p.plan s (.ofRules s) player = (.ok plan, p'))
    (ho : o ∈ plan.orders) : s.Takes player o.place o.pieces := by
  obtain ⟨y, hy, hsome, q, hq, hplace, hqueue⟩ := Plan.mem_orders_iff.mp ho
  rw [← hqueue] at hsome ⊢
  rw [← hplace]
  exact plan_takes h hy q hq hsome

/-- No ceiling stands in the way of an order, whatever other orders were carried out. -/
theorem checkLimits_of_subperm (hs : s.Keyed) (h : p.plan s (.ofRules s) player = (.ok plan, p'))
    (hsub : (done ++ [o]).Subperm plan.orders)
    (hturn : PlaceTurn.placeAll s { player } done = .ok turn) :
    turn.checkLimits s (Stack.countBy Piece.kind o.pieces).entries = .ok () := by
  obtain ⟨hplayer, -, hkinds⟩ := PlaceTurn.placeAll_spec hturn
  -- what is placed and what is asked for are a part of what waits in the plan
  have hwithin : s.WithinCeilings player ((done ++ [o]).flatMap Order.pieces) := by
    refine (plan_withinCeilings hs h).of_countP_le fun t => ?_
    rw [← plan.flatMap_orders_perm.countP_eq]
    exact (Order.flatMap_pieces_subperm hsub).countP_le _
  rw [List.flatMap_append, List.flatMap_singleton, ← hplayer] at hwithin
  obtain ⟨_, hsuits, -⟩ := plan_takes_order h (Order.mem_of_subperm hsub)
  refine PlaceTurn.checkLimits_of_withinCeilings hkinds ?_ hwithin
  intro q hq
  obtain ⟨-, k, hk, -⟩ := hsuits.pieces q hq
  exact ⟨k, hk⟩

/-- An order is refused for want of room or not at all. -/
theorem check_order (hs : s.Keyed) (h : p.plan s (.ofRules s) player = (.ok plan, p'))
    (hsub : (done ++ [o]).Subperm plan.orders)
    (hturn : PlaceTurn.placeAll s { player } done = .ok turn) :
    ∃ t room, s.territory o.place = .ok t ∧ turn.roomFor s t o.place = .ok room ∧
      turn.check s o.place o.pieces =
        if room.fits o.pieces.length then .ok ()
        else .error (.capacityExceeded o.place o.pieces.length room.used room.capacity) := by
  have ho : o ∈ plan.orders := Order.mem_of_subperm hsub
  obtain ⟨t, hsuits, room₀, hroom₀⟩ := plan_takes_order h ho
  obtain ⟨hplayer, -, -⟩ := PlaceTurn.placeAll_spec hturn
  obtain ⟨room, hroom⟩ := PlaceTurn.roomFor_of_player_eq hroom₀ turn hplayer
  rw [← hplayer] at hsuits
  refine ⟨t, room, hsuits.territory, hroom, ?_⟩
  rw [PlaceTurn.check_of_suits hsuits hroom, checkLimits_of_subperm hs h hsub hturn]

/-- Where an order goes: to the yard's own land, or to a sea zone beside it. -/
theorem order_place (hs : s.Keyed) (h : p.plan s (.ofRules s) player = (.ok plan, p'))
    (ho : o ∈ plan.orders) :
    ∃ t y, plan.yards.get? o.yard = some y ∧ s.territory o.yard = .ok t ∧ t.isWater = false ∧
      (o.place = o.yard ∨ ∃ z, s.territory o.place = .ok z ∧ z.isWater = true ∧
        t.isAdjacentTo o.place = true) := by
  obtain ⟨y, hy, -, q, hq, hplace, -⟩ := Plan.mem_orders_iff.mp ho
  obtain ⟨t, ht, hland, hplaces⟩ := plan_places hs h hy
  rw [← hplace]
  exact ⟨t, y, hy, ht, hland, hplaces q hq⟩

/-- What is carried out on places that are charged to one yard only fits its capacity. -/
theorem fits_of_charged {y : Yard} {id : TerritoryId} {c : Capacity} {r : Order → Bool}
    (h : p.plan s (.ofRules s) player = (.ok plan, p')) (hy : plan.yards.get? id = some y)
    (hc : s.capacity id player = .ok c) (hsub : (done ++ [o]).Subperm plan.orders)
    (hr : r o = true) (hcharged : ∀ o' ∈ plan.orders, r o' = true → o'.yard = id) :
    c.fits (Order.amount r done + o.pieces.length) = true := by
  obtain ⟨-, hcapacity, hbalanced⟩ := plan_yards_balanced h hy
  obtain rfl : y.capacity = c := Except.ok.inj (hcapacity.symm.trans hc)
  refine Capacity.fits_mono hbalanced.fits ?_
  calc Order.amount r done + o.pieces.length
      = Order.amount r (done ++ [o]) := (Order.amount_snoc_of_pos hr done).symm
    _ ≤ Order.amount r plan.orders := Order.amount_le_of_subperm r hsub
    _ ≤ Order.amount (fun o' => o'.yard == id) plan.orders :=
        Order.amount_le_of_imp fun o' ho' hro' => beq_iff_eq.mpr (hcharged o' ho' hro')
    _ = y.queuedCount := Plan.amount_yard hy

/-- Only the yard itself is charged for what goes to its own land. -/
theorem yard_eq_of_place_eq (hs : s.Keyed) (h : p.plan s (.ofRules s) player = (.ok plan, p'))
    {t : Territory} {id : TerritoryId} (ht : s.territory id = .ok t) (hland : t.isWater = false)
    (ho : o ∈ plan.orders) (hplace : o.place = id) : o.yard = id := by
  obtain ⟨-, -, -, -, -, hself | ⟨z, hz, hwater, -⟩⟩ := order_place hs h ho
  · rw [← hself]
    exact hplace
  · rw [hplace, ht] at hz
    obtain rfl : t = z := Except.ok.inj hz
    rw [hland] at hwater
    cases hwater

/-- What goes to a yard's own land is never refused. -/
theorem place_home (hs : s.Keyed) (h : p.plan s (.ofRules s) player = (.ok plan, p'))
    (hsub : (done ++ [o]).Subperm plan.orders)
    (hturn : PlaceTurn.placeAll s { player } done = .ok turn) (hhome : o.place = o.yard) :
    ∃ turn', turn.place s o.place o.pieces = .ok turn' := by
  have ho : o ∈ plan.orders := Order.mem_of_subperm hsub
  obtain ⟨hplayer, hplaced, -⟩ := PlaceTurn.placeAll_spec hturn
  obtain ⟨t, room, ht, hroom, hcheck⟩ := check_order hs h hsub hturn
  obtain ⟨t', y, hy, ht', hland, -⟩ := order_place hs h ho
  rw [← hhome] at ht' hy
  obtain rfl : t = t' := Except.ok.inj (ht.symm.trans ht')
  rw [PlaceTurn.roomFor_of_land hland, PlaceTurn.landRoom_eq_ok_iff, hplayer] at hroom
  obtain ⟨-, c, hc, rfl⟩ := hroom
  have hfits : c.fits ((turn.placedIn o.place).length + o.pieces.length) = true := by
    rw [hplaced]
    refine fits_of_charged h hy hc hsub (beq_self_eq_true _) ?_
    intro o' ho' hplace
    exact yard_eq_of_place_eq hs h ht hland ho' (beq_iff_eq.mp hplace)
  rw [if_pos (Room.fits_iff.mpr hfits)] at hcheck
  exact ⟨_, PlaceTurn.place_eq_ok_iff.mpr ⟨hcheck, rfl⟩⟩

/-- What goes to sea is accepted or refused by the widest of the rooms beside the zone. -/
theorem check_order_sea (hs : s.Keyed) (h : p.plan s (.ofRules s) player = (.ok plan, p'))
    (hsub : (done ++ [o]).Subperm plan.orders)
    (hturn : PlaceTurn.placeAll s { player } done = .ok turn) (hsea : o.place ≠ o.yard) :
    ∃ rooms room, turn.roomsAround s o.place = .ok rooms ∧ Room.widest? rooms = some room ∧
      turn.check s o.place o.pieces =
        if room.fits o.pieces.length then .ok ()
        else .error (.capacityExceeded o.place o.pieces.length room.used room.capacity) := by
  have ho : o ∈ plan.orders := Order.mem_of_subperm hsub
  obtain ⟨t, room, ht, hroom, hcheck⟩ := check_order hs h hsub hturn
  obtain ⟨-, -, -, -, -, hself | ⟨z, hz, hwater, -⟩⟩ := order_place hs h ho
  · exact absurd hself hsea
  · obtain rfl : t = z := Except.ok.inj (ht.symm.trans hz)
    rw [PlaceTurn.roomFor_of_water hwater, PlaceTurn.seaRoom_eq_ok_iff,
      hs.territory_id ht] at hroom
    obtain ⟨rooms, hrooms, hwidest⟩ := hroom
    exact ⟨rooms, room, hrooms, hwidest, hcheck⟩

/-- What goes to sea is accepted where one producer beside the zone has that much left, refused
where it fits none of them, and refused for that reason only. -/
theorem place_sea (hs : s.Keyed) (h : p.plan s (.ofRules s) player = (.ok plan, p'))
    (hsub : (done ++ [o]).Subperm plan.orders)
    (hturn : PlaceTurn.placeAll s { player } done = .ok turn) (hsea : o.place ≠ o.yard) :
    ∃ rooms, turn.roomsAround s o.place = .ok rooms ∧
      ((∃ room ∈ rooms, o.pieces.length ≤ room.left) →
        ∃ turn', turn.place s o.place o.pieces = .ok turn') ∧
      ((∀ room ∈ rooms, room.fits o.pieces.length = false) →
        ∀ turn', turn.place s o.place o.pieces ≠ .ok turn') ∧
      ∀ refusal, turn.place s o.place o.pieces = .error refusal →
        ∃ room ∈ rooms, room.fits o.pieces.length = false ∧
          refusal = .capacityExceeded o.place o.pieces.length room.used room.capacity := by
  have ho : o ∈ plan.orders := Order.mem_of_subperm hsub
  obtain ⟨-, -, hsome, -⟩ := Plan.mem_orders_iff.mp ho
  obtain ⟨rooms, room, hrooms, hwidest, hcheck⟩ := check_order_sea hs h hsub hturn hsea
  obtain ⟨hmem, hmax⟩ := Room.widest?_eq_some hwidest
  refine ⟨rooms, hrooms, ?_, ?_, ?_⟩
  · rintro ⟨room', hroom', hleft⟩
    have hfits : room.fits o.pieces.length = true :=
      Room.fits_of_le_left (List.length_pos_iff.mpr hsome) (Nat.le_trans hleft (hmax room' hroom'))
    rw [if_pos hfits] at hcheck
    exact ⟨_, PlaceTurn.place_eq_ok_iff.mpr ⟨hcheck, rfl⟩⟩
  · intro hnone turn' hplace
    have hok := (PlaceTurn.place_eq_ok_iff.mp hplace).1
    rw [hcheck, hnone room hmem] at hok
    cases hok
  · intro refusal hrefused
    rw [PlaceTurn.place_eq_error_iff, hcheck] at hrefused
    cases hfits : room.fits o.pieces.length with
    | true =>
      rw [hfits] at hrefused
      cases hrefused
    | false =>
      rw [hfits] at hrefused
      exact ⟨room, hmem, hfits, (Except.error.inj hrefused).symm⟩

end Planner

/-! ## Seas apart -/

/-- No sea zone for which the plan has ships lies beside a yard of the plan, or beside a territory
that could feed it, other than the yard that the ships are charged to. -/
def Plan.SeasApart (s : Snapshot) (plan : Plan) : Prop :=
  ∀ o ∈ plan.orders, o.place ≠ o.yard →
    ∀ t ∈ s.territories.values, t.isAdjacentTo o.place = true →
      plan.yards.contains t.id = true ∨ s.isProducer t plan.player = .ok true → t.id = o.yard

instance (s : Snapshot) (plan : Plan) : Decidable (plan.SeasApart s) :=
  inferInstanceAs (Decidable (∀ o ∈ plan.orders, o.place ≠ o.yard →
    ∀ t ∈ s.territories.values, t.isAdjacentTo o.place = true →
      plan.yards.contains t.id = true ∨ s.isProducer t plan.player = .ok true → t.id = o.yard))

namespace Planner

variable {s : Snapshot} {player : PlayerId} {p p' : Planner} {plan : Plan} {done os : List Order}
  {o : Order} {turn : PlaceTurn}

/-- Where seas are apart, a yard is charged for all that goes to its land and the zones beside
it. -/
theorem yard_eq_of_seasApart (hs : s.Keyed)
    (h : p.plan s (.ofRules s) player = (.ok plan, p')) (hapart : plan.SeasApart s)
    {t : Territory} (ht : s.territory t.id = .ok t) (hland : t.isWater = false)
    (hyard : plan.yards.contains t.id = true) (ho : o ∈ plan.orders)
    (hplace : o.place ∈ t.id :: s.zonesBeside t) : o.yard = t.id := by
  rcases List.mem_cons.mp hplace with hself | hzone
  · exact yard_eq_of_place_eq hs h ht hland ho hself
  · obtain ⟨hbeside, hwater⟩ := List.mem_filter.mp hzone
    obtain ⟨t', -, -, ht', hland', -⟩ := order_place hs h ho
    have hsea : o.place ≠ o.yard := by
      intro hhome
      rw [hhome, Snapshot.territory_eq_ok_iff.mp ht', Option.any_some, hland'] at hwater
      cases hwater
    have hvalue : t ∈ s.territories.values :=
      SortedMap.mem_values_iff.mpr ⟨t.id, Snapshot.territory_eq_ok_iff.mp ht⟩
    exact (hapart o ho hsea t hvalue (Territory.isAdjacentTo_iff.mpr hbeside) (.inl hyard)).symm

/-- Where seas are apart, the ships of a plan are never refused. -/
theorem place_apart (hs : s.Keyed) (hm : s.Mutual)
    (h : p.plan s (.ofRules s) player = (.ok plan, p')) (hapart : plan.SeasApart s)
    (hsub : (done ++ [o]).Subperm plan.orders)
    (hturn : PlaceTurn.placeAll s { player } done = .ok turn) (hsea : o.place ≠ o.yard) :
    ∃ turn', turn.place s o.place o.pieces = .ok turn' := by
  have ho : o ∈ plan.orders := Order.mem_of_subperm hsub
  obtain ⟨hplayer, -, -⟩ := PlaceTurn.placeAll_spec hturn
  obtain ⟨rooms, room, hrooms, hwidest, hcheck⟩ := check_order_sea hs h hsub hturn hsea
  obtain ⟨t, y, hy, ht, hland, hself | ⟨z, hz, hwater, -⟩⟩ := order_place hs h ho
  · exact absurd hself hsea
  have hid : t.id = o.yard := hs.territory_id ht
  -- the room that decides is the one of the yard itself
  obtain ⟨t', c, hget, hbeside, ⟨hproduces, hc⟩, rfl⟩ :=
    (PlaceTurn.mem_roomsAround_iff_of_keyed hs hz hrooms).mp (Room.widest?_eq_some hwidest).1
  have hadjacent : t'.isAdjacentTo o.place = true := hm.symm hz hget hbeside
  have hvalue : t' ∈ s.territories.values :=
    SortedMap.mem_values_iff.mpr ⟨t'.id, Snapshot.territory_eq_ok_iff.mp hget⟩
  rw [hplayer] at hproduces hc
  have hid' : t'.id = o.yard :=
    hapart o ho hsea t' hvalue hadjacent (.inr (plan_player h ▸ hproduces))
  have hsame : t = t' := by
    rw [hid'] at hget
    exact Except.ok.inj (ht.symm.trans hget)
  subst hsame
  rw [← hid] at hy ht
  have hyard : plan.yards.contains t.id = true := by
    unfold SortedMap.contains
    rw [hy]
    rfl
  have hzone : o.place ∈ t.id :: s.zonesBeside t :=
    List.mem_cons_of_mem _ (Snapshot.mem_zonesBeside_iff.mpr ⟨hadjacent, z, hz, hwater⟩)
  have hfits : c.fits (turn.usedBy s t + o.pieces.length) = true := by
    rw [PlaceTurn.usedBy_eq hturn ht hland]
    refine fits_of_charged h hy hc hsub (decide_eq_true hzone) ?_
    intro o' ho' hplace
    exact yard_eq_of_seasApart hs h hapart ht hland hyard ho' (of_decide_eq_true hplace)
  rw [if_pos (Room.fits_iff.mpr hfits)] at hcheck
  exact ⟨_, PlaceTurn.place_eq_ok_iff.mpr ⟨hcheck, rfl⟩⟩

theorem placeAll_of_seasApart (hs : s.Keyed) (hm : s.Mutual)
    (h : p.plan s (.ofRules s) player = (.ok plan, p')) (hapart : plan.SeasApart s)
    (hos : os.Subperm plan.orders) :
    ∃ turn, PlaceTurn.placeAll s { player } os = .ok turn := by
  induction os using List.reverseRecOn with
  | nil => exact ⟨{ player }, rfl⟩
  | append_singleton done o ih =>
    obtain ⟨turn, hturn⟩ := ih ((List.sublist_append_left done [o]).subperm.trans hos)
    have hplace : ∃ turn', turn.place s o.place o.pieces = .ok turn' := by
      by_cases hhome : o.place = o.yard
      · exact place_home hs h hos hturn hhome
      · exact place_apart hs hm h hapart hos hturn hhome
    obtain ⟨turn', hturn'⟩ := hplace
    refine ⟨turn', ?_⟩
    rw [PlaceTurn.placeAll_snoc, hturn]
    exact hturn'

/-! ## Whole plans -/

/-- A plan need not go into one turn. Two ports lie beside the same two seas, and each has room
for one ship. The plan charges a ship to each, one for either sea; but once the first is placed it
counts against both ports. -/
theorem plan_refused_sharedSeas :
    Samples.sharedSeas.Keyed ∧ Samples.sharedSeas.validate = .ok () ∧ Samples.sharedSeas.Mutual ∧
    ∃ plan p', Samples.planner.plan Samples.sharedSeas (.ofRules Samples.sharedSeas) Samples.red =
        (.ok plan, p') ∧
      PlaceTurn.placeAll Samples.sharedSeas { player := Samples.red } plan.orders =
        .error (.capacityExceeded Samples.eastSea 1 1 (.limited 1)) := by
  refine ⟨by decide +kernel, by decide +kernel, by decide +kernel, ?_⟩
  exact Outcome.exists_run_of_toOption (show
    (Samples.planner.plan Samples.sharedSeas (.ofRules Samples.sharedSeas)
      Samples.red).1.toOption.map
      (fun plan => PlaceTurn.placeAll Samples.sharedSeas { player := Samples.red } plan.orders) =
        some (.error (.capacityExceeded Samples.eastSea 1 1 (.limited 1))) by decide +kernel)

/-- How far a plan goes into one turn, whatever the order. After any of its orders have been
carried out, one for a yard's own land is accepted. One for the sea is accepted where some
producer beside the zone has enough left next to all that has been placed on its land and in the
zones beside it, and not where it fits none of them; and that is the only reason why one is ever
refused. Where no sea with ships in it is shared, the whole plan is accepted. -/
theorem plan_executable (hs : s.Keyed) (hm : s.Mutual)
    (h : p.plan s (.ofRules s) player = (.ok plan, p')) :
    (∀ done o turn, (done ++ [o]).Subperm plan.orders →
      PlaceTurn.placeAll s { player } done = .ok turn →
      (o.place = o.yard → ∃ turn', turn.place s o.place o.pieces = .ok turn') ∧
      (o.place ≠ o.yard → ∃ rooms, turn.roomsAround s o.place = .ok rooms ∧
        ((∃ room ∈ rooms, o.pieces.length ≤ room.left) →
          ∃ turn', turn.place s o.place o.pieces = .ok turn') ∧
        ((∀ room ∈ rooms, room.fits o.pieces.length = false) →
          ∀ turn', turn.place s o.place o.pieces ≠ .ok turn') ∧
        ∀ refusal, turn.place s o.place o.pieces = .error refusal →
          ∃ room ∈ rooms, room.fits o.pieces.length = false ∧
            refusal = .capacityExceeded o.place o.pieces.length room.used room.capacity)) ∧
    (plan.SeasApart s → ∀ os, os.Subperm plan.orders →
      ∃ turn, PlaceTurn.placeAll s { player } os = .ok turn) := by
  constructor
  · intro done o turn hsub hturn
    exact ⟨place_home hs h hsub hturn, place_sea hs h hsub hturn⟩
  · intro hapart os hos
    exact placeAll_of_seasApart hs hm h hapart hos

/-- With a sea for each port, the plan places infantry in one port and then ships beside the
other. -/
theorem plan_executable_separateSeas :
    Samples.separateSeas.Keyed ∧ Samples.separateSeas.Mutual ∧
    ∃ plan p', Samples.planner.plan Samples.separateSeas (.ofRules Samples.separateSeas)
        Samples.red = (.ok plan, p') ∧
      (∃ infantry ships turn, plan.orders = [infantry, ships] ∧
        PlaceTurn.place Samples.separateSeas { player := Samples.red } infantry.place
          infantry.pieces = .ok turn ∧
        ∃ rooms, turn.roomsAround Samples.separateSeas ships.place = .ok rooms ∧
          ∀ refusal, turn.place Samples.separateSeas ships.place ships.pieces = .error refusal →
            ∃ room ∈ rooms, room.fits ships.pieces.length = false ∧
              refusal = .capacityExceeded ships.place ships.pieces.length room.used
                room.capacity) ∧
      ∃ turn, PlaceTurn.placeAll Samples.separateSeas { player := Samples.red } plan.orders =
        .ok turn := by
  have hkeyed : Samples.separateSeas.Keyed := by decide +kernel
  have hmutual : Samples.separateSeas.Mutual := by decide +kernel
  obtain ⟨plan, p', h, hread⟩ := Outcome.exists_run_of_toOption (show
    (Samples.planner.plan Samples.separateSeas (.ofRules Samples.separateSeas)
      Samples.red).1.toOption.map
      (fun plan => (plan.orders.map (fun o => (o.yard, o.place)),
        decide (plan.SeasApart Samples.separateSeas))) =
        some ([(Samples.redCapital, Samples.redCapital),
          (Samples.redProvince, Samples.eastSea)], true) by decide +kernel)
  obtain ⟨horders, hapart⟩ := Prod.mk.inj hread
  obtain ⟨hsteps, hall⟩ := plan_executable hkeyed hmutual h
  refine ⟨hkeyed, hmutual, plan, p', h, ?_, hall (of_decide_eq_true hapart) _ (.refl _)⟩
  obtain ⟨infantry, rest, hinfantry, hhome, hrest⟩ := List.map_eq_cons_iff.mp horders
  obtain ⟨ships, none, hships, hsea, hnone⟩ := List.map_eq_cons_iff.mp hrest
  obtain rfl := List.map_eq_nil_iff.mp hnone
  subst hships
  have hfirst : infantry.place = infantry.yard := by
    rw [(Prod.mk.inj hhome).1, (Prod.mk.inj hhome).2]
  have hsecond : ships.place ≠ ships.yard := by
    rw [(Prod.mk.inj hsea).1, (Prod.mk.inj hsea).2]
    decide
  obtain ⟨turn, hturn⟩ := (hsteps [] infantry _ (hinfantry ▸ by simp) rfl).1 hfirst
  have hplaced : PlaceTurn.placeAll Samples.separateSeas { player := Samples.red } [infantry] =
      .ok turn := by
    rw [← List.nil_append [infantry], PlaceTurn.placeAll_snoc]
    exact hturn
  obtain ⟨rooms, hrooms, -, -, hrefused⟩ :=
    (hsteps [infantry] ships turn (hinfantry ▸ .refl _) hplaced).2 hsecond
  exact ⟨infantry, ships, turn, hinfantry, hturn, rooms, hrooms, hrefused⟩

end Planner

end Quartermaster
