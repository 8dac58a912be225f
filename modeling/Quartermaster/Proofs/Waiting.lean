import Quartermaster.Proofs.Antitone
import Quartermaster.Proofs.Legality
import Quartermaster.Proofs.Turns

/-!
# What waits for one place

The ships for a sea zone may come from several yards and in many batches. Each batch was measured
against whichever producer had most room left at that moment, and on the way money and ceilings
were shared with every other place. Still, all that waits for the zone is one legal placement.

The invariant is that each place can hold what waits for it (`Pass.Accommodated`). A batch is
accepted next to all that waits there already, from whatever yard; so the producer that has room
for the batch has room for the whole queue. The ceilings hold for all queues together.
-/

namespace Quartermaster

variable {s : Snapshot} {player : PlayerId} {place : TerritoryId} {ps : List Piece}
  {pass next last : Pass} {b : Purchase} {bs : List Purchase}

/-! ## The first placement of a turn -/

namespace PlaceTurn

theorem usedBy_empty (s : Snapshot) (player : PlayerId) (t : Territory) :
    usedBy s { player } t = 0 := by
  have hnone : ∀ zones : List TerritoryId,
      (zones.map fun id => (placedIn { player } id).length).foldr (· + ·) 0 = 0 := by
    intro zones
    induction zones with
    | nil => rfl
    | cons zone zones ih =>
      rw [List.map_cons, List.foldr_cons, ih]
      rfl
  unfold usedBy
  rw [hnone]
  rfl

/-- What a place can hold may be placed there first of all, if it is within the ceilings. -/
theorem check_of_accommodates (hs : s.Keyed) (hm : s.Mutual) (hw : s.Metered)
    (h : s.Accommodates player place ps) (hceilings : s.WithinCeilings player ps) :
    PlaceTurn.check s { player } place ps = .ok () := by
  obtain ⟨t, hsuits, room, hroom⟩ := h.takes
  have hlimits : checkLimits s { player } (Stack.countBy Piece.kind ps).entries = .ok () := by
    refine checkLimits_of_withinCeilings (fun _ => (List.countP_nil).symm) ?_ hceilings
    intro q hq
    obtain ⟨-, k, hk, -⟩ := hsuits.pieces q hq
    exact ⟨k, hk⟩
  suffices hfits : ∃ room, roomFor s { player } t place = .ok room ∧ room.fits ps.length = true by
    obtain ⟨room, hroom, hfits⟩ := hfits
    exact check_eq_ok_iff.mpr ⟨t, hsuits, room, hroom, hfits, hlimits⟩
  cases hwater : t.isWater with
  | true =>
    rw [roomFor_of_water hwater, seaRoom_eq_ok_iff] at hroom
    obtain ⟨rooms, hrooms, -⟩ := hroom
    have hself : s.territory t.id = .ok t := by
      rw [hs.territory_id hsuits.territory]
      exact hsuits.territory
    have hused : ∀ t, s.territory t.id = .ok t → t.isWater = false →
        usedBy s { player } t < wordValues 63 := by
      intro t _ _
      rw [usedBy_empty]
      exact wordValues_pos 63
    obtain ⟨t', c, ht', hbeside, hfeeds, hfits⟩ := h.sea hm t hsuits.territory hwater
    rw [roomFor_of_water hwater]
    refine (exists_seaRoom_iff hs hw hself hrooms hused
      (List.length_pos_iff.mpr hsuits.nonempty)).mpr ⟨t', c, ht', hbeside, hfeeds, ?_⟩
    rw [usedBy_empty, Nat.zero_add]
    exact hfits
  | false =>
    rw [roomFor_of_land hwater, landRoom_eq_ok_iff] at hroom
    obtain ⟨howned, c, hc, rfl⟩ := hroom
    rw [roomFor_of_land hwater]
    refine ⟨_, landRoom_eq_ok_iff.mpr ⟨howned, c, hc, rfl⟩, Room.fits_iff.mpr ?_⟩
    show c.fits (0 + ps.length) = true
    rw [Nat.zero_add]
    exact h.land t c hsuits.territory hwater hc

end PlaceTurn

/-! ## Through a pass -/

/-- Each place can hold what waits for it. -/
def Pass.Accommodated (s : Snapshot) (pass : Pass) : Prop :=
  ∀ place, pass.yards.queuedFor place ≠ [] →
    s.Accommodates pass.player place (pass.yards.queuedFor place)

theorem Pass.Accommodated.buys (hpass : pass.Accommodated s) (hs : s.Keyed)
    (h : Buys (.ofRules s) pass b next) : next.Accommodated s := by
  intro place hsome
  rw [h.player]
  by_cases hplace : place = b.place
  · subst hplace
    -- the batch was accepted in a turn in which just the queue was placed
    have hcheck := Arbiter.permits_eq_true_iff.mp h.permitted
    have hold := PlaceTurn.accommodates_of_check hs hcheck
    rw [PlaceTurn.player_withPlaced, PlaceTurn.placedIn_withPlaced, if_pos rfl] at hold
    exact (hold fun hqueue => (hpass _ hqueue).takes).perm h.queuedFor_perm.symm
  · rw [h.queuedFor_eq_of_ne hplace] at hsome ⊢
    exact hpass place hsome

theorem Bought.accommodated {eligible : Purchase → Prop} (hs : s.Keyed)
    (h : Bought (.ofRules s) eligible pass bs last) (hpass : pass.Accommodated s) :
    last.Accommodated s :=
  h.invariant (fun _ _ _ hbuys _ hq => hq.buys hs hbuys) hpass

namespace Planner

variable {p p' : Planner} {plan : Plan}

theorem accommodated_of_openPass {start : Pass} (h : openPass s player = .ok start) :
    start.Accommodated s := by
  intro place hsome
  have hsub := start.yards.queuedFor_sublist place
  rw [queued_eq_nil_of_openPass h, List.sublist_nil] at hsub
  exact absurd hsub hsome

/-- In a plan each place can hold what waits for it. -/
theorem plan_accommodated (hs : s.Keyed) (h : p.plan s (.ofRules s) player = (.ok plan, p'))
    (hsome : plan.yards.queuedFor place ≠ []) :
    s.Accommodates player place (plan.yards.queuedFor place) := by
  obtain ⟨catalog, start, bs, last, -, hstart, hbs, hplan⟩ := plan_eq_ok h
  obtain ⟨-, -, -, hplayer, -⟩ := openPass_eq_ok hstart
  obtain ⟨-, hyards, -⟩ := toPlan_eq_ok hplan
  rw [hyards] at hsome ⊢
  have hlast : last.player = player := hbs.player_eq.trans hplayer
  rw [← hlast]
  exact hbs.accommodated hs (accommodated_of_openPass hstart) place hsome

/-- All that waits for a place in a plan, from whatever yards, is one legal placement. -/
theorem plan_queues_legal (hs : s.Keyed) (hm : s.Mutual) (hw : s.Metered)
    (h : p.plan s (.ofRules s) player = (.ok plan, p'))
    (hsome : plan.yards.queuedFor place ≠ []) :
    Arbiter.ofRules s place (plan.yards.queuedFor place) player [] = .ok () := by
  have hceilings : s.WithinCeilings player (plan.yards.queuedFor place) := by
    refine (plan_withinCeilings hs h).of_countP_le fun kind => ?_
    exact (plan.yards.queuedFor_sublist place).countP_le
  exact PlaceTurn.check_of_accommodates hs hm hw (plan_accommodated hs h hsome) hceilings

/-- Two ports beside one sea buy a ship each, and the ships may be placed together. -/
theorem plan_queues_legal_twinPorts :
    let s := Samples.twinPorts [Samples.westSea] [Samples.westSea] 2 16
      [Samples.saleOf "buyDestroyer" Samples.destroyer 1 8] []
    let p := Planner.ofConfig { PlannerConfig.deterministic (.seeded 0) with maxRounds := 1 } 0
    s.Keyed ∧ s.Mutual ∧ s.Metered ∧
    ∃ plan p', p.plan s (.ofRules s) Samples.red = (.ok plan, p') ∧
      plan.yards.values.map Yard.queuedCount = [1, 1] ∧
      (plan.yards.queuedFor Samples.westSea).length = 2 ∧
      Arbiter.ofRules s Samples.westSea (plan.yards.queuedFor Samples.westSea) Samples.red [] =
        .ok () := by
  intro s p
  have hkeyed : s.Keyed := by decide +kernel
  have hmutual : s.Mutual := by decide +kernel
  have hmetered : s.Metered := by decide +kernel
  obtain ⟨plan, p', h, hread⟩ := Outcome.exists_run_of_toOption
    (show (p.plan s (.ofRules s) Samples.red).1.toOption.map (fun plan =>
      (plan.yards.values.map Yard.queuedCount,
        (plan.yards.queuedFor Samples.westSea).length)) = some ([1, 1], 2) by decide +kernel)
  obtain ⟨hyards, hcount⟩ := Prod.mk.inj hread
  have hsome : plan.yards.queuedFor Samples.westSea ≠ [] :=
    List.ne_nil_of_length_eq_add_one hcount
  exact ⟨hkeyed, hmutual, hmetered, plan, p', h, hyards, hcount,
    plan_queues_legal hkeyed hmutual hmetered h hsome⟩

end Planner

end Quartermaster
