import Quartermaster.Proofs.Opening
import Quartermaster.Samples

/-!
# Conservation of capacity

The land queue and the sea queues of a yard share one remainder. Whatever is asked of a yard, in
whatever order, what is left and what waits make up the capacity that it was opened with; and so
in a plan no yard makes more than its territory can.
-/

namespace Quartermaster

namespace Yard

variable {y : Yard} {place : TerritoryId} {ps : List Piece}

theorem queueInPlace_refused_iff :
    (∃ f, (y.queueInPlace place ps).1 = .error f) ↔
      place ∉ y.places.map Place.territory ∨ countBound ≤ ps.length ∨
        y.remaining.fits ps.length = false := by
  rw [← queue_eq_error_iff, queueInPlace_eq]
  cases y.queue place ps with
  | ok y' => simp
  | error f => simp

/-- A new yard keeps its capacity and its balance through any calls. -/
theorem balanced_queueAll_of_ofTerritory {s : Snapshot} {territory : TerritoryId} {c : Capacity}
    (h : Yard.ofTerritory s territory c = .ok y) (calls : List (TerritoryId × List Piece)) :
    (y.queueAll calls).capacity = c ∧ (y.queueAll calls).Balanced := by
  obtain ⟨-, -, hclear, -, hcapacity, -⟩ := ofTerritory_eq_ok h
  constructor
  · rw [← hcapacity]
    exact capacity_eq_of_cleared (cleared_queueAll y calls)
  · exact hclear.balanced.queueAll calls

end Yard

namespace Planner

variable {s : Snapshot} {arbiter : Arbiter} {player : PlayerId} {p p' : Planner} {plan : Plan}

/-- The yards of a plan stand under their territories, have the capacities of these, and balance. -/
theorem plan_yards_balanced (h : p.plan s arbiter player = (.ok plan, p')) {id : TerritoryId}
    {y : Yard} (hy : plan.yards.get? id = some y) :
    y.territory = id ∧ s.capacity id player = .ok y.capacity ∧ y.Balanced := by
  obtain ⟨-, hcapacity, hcleared⟩ := plan_yard_cleared h hy
  obtain ⟨-, -, -, hid, -⟩ := Yard.ofTerritory_eq_ok hcleared
  refine ⟨hid, hcapacity, ?_⟩
  apply plan_yards_invariant ?_ ?_ h hy
  · intro q b next y y' _ _ hqueue hbalanced
    exact hbalanced.queue hqueue
  · intro y hclear
    exact hclear.balanced

/-- Capacity is conserved and never exceeded. For a new yard of capacity `c`, after any calls:
the capacity is still `c`, what is left and what waits come to `c`, and a refused call, which is
one for a place that is not the yard's or for more pieces than can be counted or are left, leaves
the yard as it was. In a plan the queues of each yard together fit the capacity of its
territory. -/
theorem capacity_conserved :
    (∀ (s : Snapshot) (territory : TerritoryId) (c : Capacity) (y₀ : Yard),
      Yard.ofTerritory s territory c = .ok y₀ →
      ∀ calls y, y₀.queueAll calls = y →
        y.capacity = c ∧
        (∀ n, c = .limited n → ∃ left, y.remaining = .limited left ∧ left + y.queuedCount = n) ∧
        (c = .unlimited → y.remaining = .unlimited) ∧
        ∀ place ps,
          ((∃ f, (y.queueInPlace place ps).1 = .error f) ↔
            place ∉ y.places.map Place.territory ∨ Yard.countBound ≤ ps.length ∨
              y.remaining.fits ps.length = false) ∧
          ∀ f, (y.queueInPlace place ps).1 = .error f → (y.queueInPlace place ps).2 = y) ∧
    ∀ (s : Snapshot) (arbiter : Arbiter) (player : PlayerId) (p p' : Planner) (plan : Plan),
      p.plan s arbiter player = (.ok plan, p') →
      ∀ id y, plan.yards.get? id = some y →
        y.territory = id ∧ s.capacity id player = .ok y.capacity ∧
          y.capacity.fits y.queuedCount = true := by
  constructor
  · intro s territory c y₀ hnew calls y hy
    obtain ⟨hcapacity, hbalanced⟩ := Yard.balanced_queueAll_of_ofTerritory hnew calls
    rw [hy] at hcapacity hbalanced
    unfold Yard.Balanced at hbalanced
    rw [hcapacity] at hbalanced
    refine ⟨hcapacity, ?_, ?_, ?_⟩
    · rintro n rfl
      exact hbalanced
    · rintro rfl
      exact hbalanced
    · intro place ps
      exact ⟨Yard.queueInPlace_refused_iff, fun f hf => Yard.queueInPlace_of_error hf⟩
  · intro s arbiter player p p' plan h id y hy
    obtain ⟨hid, hcapacity, hbalanced⟩ := plan_yards_balanced h hy
    exact ⟨hid, hcapacity, hbalanced.fits⟩

/-- A yard of the separate seas takes a ship, has no room for two more pieces, and knows no other
sea; and the plan for that map. -/
theorem capacity_conserved_separateSeas :
    (∃ y₀ y, Yard.ofTerritory Samples.separateSeas Samples.redCapital (.limited 2) = .ok y₀ ∧
      y₀.queueAll [(Samples.westSea, [Samples.piece 20 Samples.destroyer Samples.red]),
        (Samples.redCapital, List.replicate 2 (Samples.piece 21 Samples.infantry Samples.red))] =
          y ∧
      y.capacity = .limited 2 ∧
      (∃ left, y.remaining = .limited left ∧ left + y.queuedCount = 2) ∧
      ∃ f, (y.queueInPlace Samples.eastSea []).1 = .error f ∧
        (y.queueInPlace Samples.eastSea []).2 = y) ∧
    ∃ plan p', Samples.planner.plan Samples.separateSeas (.ofRules Samples.separateSeas)
        Samples.red = (.ok plan, p') ∧
      ∃ y, plan.yards.get? Samples.redCapital = some y ∧ y.queuedCount = 2 ∧
        Samples.separateSeas.capacity Samples.redCapital Samples.red = .ok y.capacity ∧
        y.capacity.fits y.queuedCount = true := by
  constructor
  · let calls : List (TerritoryId × List Piece) :=
      [(Samples.westSea, [Samples.piece 20 Samples.destroyer Samples.red]),
        (Samples.redCapital, List.replicate 2 (Samples.piece 21 Samples.infantry Samples.red))]
    obtain ⟨y₀, hnew, hunknown⟩ := Outcome.exists_of_toOption
      (show (Yard.ofTerritory Samples.separateSeas Samples.redCapital (.limited 2)).toOption.map
        (fun y => ((y.queueAll calls).queueInPlace Samples.eastSea []).1.toOption) = some none by
          decide +kernel)
    obtain ⟨hcapacity, hlimited, -, hrefused⟩ :=
      capacity_conserved.1 _ _ _ _ hnew calls _ rfl
    refine ⟨y₀, _, hnew, rfl, hcapacity, hlimited 2 rfl, ?_⟩
    cases hcall : ((y₀.queueAll calls).queueInPlace Samples.eastSea []).1 with
    | ok _ =>
      rw [hcall] at hunknown
      cases hunknown
    | error f => exact ⟨f, rfl, (hrefused Samples.eastSea []).2 f hcall⟩
  · obtain ⟨plan, p', h, hcount⟩ := Outcome.exists_run_of_toOption
      (show (Samples.planner.plan Samples.separateSeas (.ofRules Samples.separateSeas)
        Samples.red).1.toOption.map
          (fun plan => (plan.yards.get? Samples.redCapital).map Yard.queuedCount) =
            some (some 2) by decide +kernel)
    obtain ⟨y, hy, hcount⟩ := Option.map_eq_some_iff.mp hcount
    obtain ⟨-, hcapacity, hfits⟩ := capacity_conserved.2 _ _ _ _ _ _ h _ y hy
    exact ⟨plan, p', h, y, hy, hcount, hcapacity, hfits⟩

end Planner

end Quartermaster
