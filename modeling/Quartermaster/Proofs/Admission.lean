import Quartermaster.Proofs.Opening
import Quartermaster.Proofs.Rules

/-!
# What the rules have seen

Every piece that waits in a plan came in a batch that the rules accepted for its place. What was
placed when they were asked decided on room and ceilings only; the rest of their answer
(`Snapshot.Takes`) holds in every turn of the player, and for whole queues as well as for batches.
-/

namespace Quartermaster

variable {s : Snapshot} {player : PlayerId} {place : TerritoryId} {ps qs : List Piece}

/-- Which pieces suit a place is a matter of their kinds and owners. -/
theorem Snapshot.Suits.of_forall {t : Territory} (h : s.Suits player place t qs) (hsome : ps ≠ [])
    (hsort : ∀ q ∈ ps, ∃ q' ∈ qs, q'.kind = q.kind ∧ q'.owner = q.owner) :
    s.Suits player place t ps := by
  refine ⟨hsome, h.territory, ?_, h.allowed, h.unconquered⟩
  intro q hq
  obtain ⟨q', hq', hkind, howner⟩ := hsort q hq
  obtain ⟨hmine, hsuits⟩ := h.pieces q' hq'
  rw [← hkind, ← howner]
  exact ⟨hmine, hsuits⟩

/-! ## Pieces that a place takes -/

/-- The pieces suit the place, and some room bounds them. What is placed plays no part in it. -/
def Snapshot.Takes (s : Snapshot) (player : PlayerId) (place : TerritoryId) (ps : List Piece) :
    Prop :=
  ∃ t, s.Suits player place t ps ∧ ∃ room, PlaceTurn.roomFor s { player } t place = .ok room

theorem Snapshot.Takes.append (h : s.Takes player place ps) (h' : s.Takes player place qs) :
    s.Takes player place (ps ++ qs) := by
  obtain ⟨t, hps, room, hroom⟩ := h
  obtain ⟨t', hqs, -⟩ := h'
  obtain rfl : t = t' := Except.ok.inj (hps.territory.symm.trans hqs.territory)
  refine ⟨t, ⟨?_, hps.territory, ?_, hps.allowed, hps.unconquered⟩, room, hroom⟩
  · exact fun h => hps.nonempty (List.append_eq_nil_iff.mp h).1
  · exact List.forall_mem_append.mpr ⟨hps.pieces, hqs.pieces⟩

/-- The order of the pieces plays no part in it. -/
theorem Snapshot.Takes.perm (h : s.Takes player place ps) (hperm : ps.Perm qs) :
    s.Takes player place qs := by
  obtain ⟨t, hps, hroom⟩ := h
  refine ⟨t, hps.of_forall ?_ ?_, hroom⟩
  · rintro rfl
    exact hps.nonempty hperm.eq_nil
  · intro q hq
    exact ⟨q, hperm.mem_iff.mpr hq, rfl, rfl⟩

/-- Land that takes pieces is the player's. -/
theorem Snapshot.Takes.isOwnedBy (h : s.Takes player place ps) {t : Territory}
    (ht : s.territory place = .ok t) (hland : t.isWater = false) : t.isOwnedBy player = true := by
  obtain ⟨t', hps, room, hroom⟩ := h
  obtain rfl : t = t' := Except.ok.inj (ht.symm.trans hps.territory)
  rw [PlaceTurn.roomFor_of_land hland, PlaceTurn.landRoom_eq_ok_iff] at hroom
  exact hroom.1

theorem PlaceTurn.takes_of_check {turn : PlaceTurn} (h : turn.check s place ps = .ok ()) :
    s.Takes turn.player place ps := by
  obtain ⟨t, hsuits, room, hroom, -⟩ := check_eq_ok_iff.mp h
  exact ⟨t, hsuits, roomFor_of_player_eq hroom { player := turn.player } rfl⟩

theorem PlaceTurn.player_withPlaced (turn : PlaceTurn) (place : TerritoryId) (ps : List Piece) :
    (turn.withPlaced place ps).player = turn.player := by
  unfold withPlaced
  split <;> rfl

theorem Arbiter.permits_eq_true_iff {arbiter : Arbiter} {already : List Piece} :
    arbiter.permits place ps player already = .ok true ↔
      arbiter place ps player already = .ok () := by
  unfold permits
  split <;> simp_all

theorem Arbiter.takes_of_permits {already : List Piece}
    (h : (Arbiter.ofRules s).permits place ps player already = .ok true) :
    s.Takes player place ps := by
  have hcheck := permits_eq_true_iff.mp h
  have htakes := PlaceTurn.takes_of_check hcheck
  rwa [PlaceTurn.player_withPlaced] at htakes

/-! ## Queues that their places take -/

theorem Yard.IsClear.queue_eq_nil {y : Yard} (h : y.IsClear) {p : Place} (hp : p ∈ y.places) :
    p.queue = [] := by
  unfold IsClear at h
  rw [← h] at hp
  obtain ⟨q, -, rfl⟩ := List.mem_map.mp hp
  rfl

/-- A batch that a place takes joins a queue that it takes. -/
theorem Yard.takes_of_queue {y y' : Yard} (hqueue : y.queue place ps = .ok y')
    (hps : s.Takes player place ps)
    (hy : ∀ q ∈ y.places, q.queue ≠ [] → s.Takes player q.territory q.queue) :
    ∀ q ∈ y'.places, q.queue ≠ [] → s.Takes player q.territory q.queue := by
  obtain ⟨hplace, -, left, -, rfl⟩ := queue_eq_ok_iff.mp hqueue
  obtain ⟨before, r, after, hsplit, hr, henqueue⟩ := enqueue_split ps hplace
  rw [hsplit] at hy
  intro q hq hsome
  rw [henqueue, List.mem_append, List.mem_cons] at hq
  rcases hq with hbefore | rfl | hafter
  · exact hy q (List.mem_append_left _ hbefore) hsome
  · -- the queue that the batch joined, which may have been empty
    show s.Takes player r.territory (r.queue ++ ps)
    by_cases hempty : r.queue = []
    · rw [hempty, List.nil_append, hr]
      exact hps
    · rw [← hr] at hps
      exact (hy r (by simp) hempty).append hps
  · exact hy q (List.mem_append_right _ (List.mem_cons_of_mem _ hafter)) hsome

namespace Planner

variable {arbiter : Arbiter} {p p' : Planner} {plan : Plan} {id : TerritoryId} {y : Yard}

/-- Each place of a plan takes the whole of its queue. -/
theorem plan_takes (h : p.plan s (.ofRules s) player = (.ok plan, p'))
    (hy : plan.yards.get? id = some y) :
    ∀ q ∈ y.places, q.queue ≠ [] → s.Takes player q.territory q.queue := by
  refine plan_yards_invariant
    (P := fun y => ∀ q ∈ y.places, q.queue ≠ [] → s.Takes player q.territory q.queue) ?_ ?_ h hy
  · rintro pass b next y y' hbuys rfl hqueue htakes
    exact Yard.takes_of_queue hqueue (Arbiter.takes_of_permits hbuys.permitted) htakes
  · intro y hclear q hq hsome
    exact absurd (hclear.queue_eq_nil hq) hsome

/-- A yard of a plan lies on land, and its other places are sea zones beside it. -/
theorem plan_places (hs : s.Keyed) (h : p.plan s arbiter player = (.ok plan, p'))
    (hy : plan.yards.get? id = some y) :
    ∃ t, s.territory id = .ok t ∧ t.isWater = false ∧ ∀ q ∈ y.places, q.territory = id ∨
      ∃ z, s.territory q.territory = .ok z ∧ z.isWater = true ∧
        t.isAdjacentTo q.territory = true := by
  obtain ⟨catalog, last, -, hreached, hplan⟩ := plan_reached h
  obtain ⟨-, hlast, -⟩ := toPlan_eq_ok hplan
  rw [hlast] at hy
  obtain ⟨t, ht, hland, hplaces⟩ := hreached.mem_places hs hy
  refine ⟨t, ht, hland, ?_⟩
  intro q hq
  exact hplaces q.territory (List.mem_map_of_mem hq)

end Planner

end Quartermaster
