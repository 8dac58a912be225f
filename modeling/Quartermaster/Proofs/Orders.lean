import Mathlib.Data.List.Flatten
import Mathlib.Data.List.Perm.Subperm
import Quartermaster.Planner
import Quartermaster.Proofs.Rules

/-!
# Orders

The queues of a plan as orders to place them, and what a turn holds after it has carried orders
out. A turn is a matter of sums here: what lies in a place, what a producer has used up and how
many pieces of a kind are placed are all amounts of the orders carried out so far.
-/

namespace Quartermaster

/-- A queue to be placed: the yard that it is charged to, the place and the pieces. -/
structure Order where
  yard : TerritoryId
  place : TerritoryId
  pieces : List Piece
deriving DecidableEq

namespace Order

/-- Whether the pieces are for the yard's own land. -/
def isHome (o : Order) : Bool := o.place == o.yard

/-- How many pieces the orders with a property come to. -/
def amount (p : Order → Bool) (os : List Order) : Nat :=
  ((os.filter p).flatMap Order.pieces).length

variable {p q : Order → Bool} {os os' : List Order}

theorem amount_cons (p : Order → Bool) (o : Order) (os : List Order) :
    amount p (o :: os) = (if p o then o.pieces.length else 0) + amount p os := by
  unfold amount
  rw [List.filter_cons]
  split <;> simp

theorem amount_append (p : Order → Bool) (os os' : List Order) :
    amount p (os ++ os') = amount p os + amount p os' := by
  unfold amount
  rw [List.filter_append, List.flatMap_append, List.length_append]

theorem amount_snoc_of_pos {o : Order} (h : p o = true) (os : List Order) :
    amount p (os ++ [o]) = amount p os + o.pieces.length := by
  rw [amount_append, amount_cons, if_pos h]
  rfl

theorem mem_of_subperm {o : Order} (h : (os ++ [o]).Subperm os') : o ∈ os' :=
  h.subset (List.mem_append_right os (List.mem_singleton_self o))

theorem flatMap_pieces_subperm (h : os.Subperm os') :
    (os.flatMap pieces).Subperm (os'.flatMap pieces) := by
  obtain ⟨l, hperm, hsub⟩ := h
  exact ⟨l.flatMap pieces, hperm.flatMap_right pieces, hsub.flatMap pieces⟩

theorem amount_le_of_subperm (p : Order → Bool) (h : os.Subperm os') :
    amount p os ≤ amount p os' :=
  (flatMap_pieces_subperm (h.filter p)).length_le

theorem amount_le_of_imp (h : ∀ o ∈ os, p o = true → q o = true) : amount p os ≤ amount q os := by
  induction os with
  | nil => exact Nat.le_refl _
  | cons o os ih =>
    obtain ⟨ho, hos⟩ := List.forall_mem_cons.mp h
    rw [amount_cons, amount_cons]
    have hrest := ih hos
    by_cases hp : p o = true
    · rw [if_pos hp, if_pos (ho hp)]
      omega
    · rw [if_neg hp]
      omega

/-- Amounts of properties that exclude each other add up. -/
theorem amount_or (hpq : ∀ o, ¬(p o = true ∧ q o = true)) (os : List Order) :
    amount (fun o => p o || q o) os = amount p os + amount q os := by
  induction os with
  | nil => rfl
  | cons o os ih =>
    rw [amount_cons, amount_cons, amount_cons, ih]
    have ho := hpq o
    cases hp : p o <;> cases hq : q o <;> simp_all <;> omega

/-- The amounts for different places come to the amount for all of them. -/
theorem amount_places {ids : List TerritoryId} (hids : ids.Nodup) (os : List Order) :
    (ids.map fun id => amount (fun o => o.place == id) os).foldr (· + ·) 0 =
      amount (fun o => decide (o.place ∈ ids)) os := by
  induction ids with
  | nil =>
    unfold amount
    simp
  | cons id ids ih =>
    obtain ⟨hid, hrest⟩ := List.nodup_cons.mp hids
    have hexcl : ∀ o : Order, ¬((o.place == id) = true ∧ decide (o.place ∈ ids) = true) := by
      rintro o ⟨hplace, hmem⟩
      rw [beq_iff_eq] at hplace
      rw [decide_eq_true_iff, hplace] at hmem
      exact hid hmem
    rw [List.map_cons, List.foldr_cons, ih hrest, ← amount_or hexcl]
    congr 1
    funext o
    simp [Bool.decide_or, beq_eq_decide]

end Order

/-! ## The orders of a plan -/

/-- The queues of a yard in which something waits. -/
def Yard.orders (id : TerritoryId) (y : Yard) : List Order :=
  (y.places.filter fun q => !q.queue.isEmpty).map fun q => ⟨id, q.territory, q.queue⟩

/-- Yard by yard, the queues in which something waits. -/
def Yards.orders (ys : Yards) : List Order := ys.entries.flatMap fun e => e.2.orders e.1

/-- The queues of a plan in which something waits: first those for the yards' own land, then those
for the sea. -/
def Plan.orders (plan : Plan) : List Order :=
  plan.yards.orders.filter Order.isHome ++ plan.yards.orders.filter fun o => !o.isHome

variable {plan : Plan} {o : Order} {os : List Order} {id : TerritoryId} {y : Yard}

theorem Plan.orders_perm (plan : Plan) : plan.orders.Perm plan.yards.orders :=
  List.filter_append_perm Order.isHome plan.yards.orders

theorem Plan.mem_orders_iff :
    o ∈ plan.orders ↔ ∃ y, plan.yards.get? o.yard = some y ∧ o.pieces ≠ [] ∧
      ∃ q ∈ y.places, q.territory = o.place ∧ q.queue = o.pieces := by
  rw [plan.orders_perm.mem_iff]
  unfold Yards.orders Yard.orders
  simp only [List.mem_flatMap, List.mem_map, List.mem_filter, Prod.exists]
  constructor
  · rintro ⟨id, y, hy, q, ⟨hq, hsome⟩, rfl⟩
    refine ⟨y, SortedMap.get?_eq_some_iff.mpr hy, ?_, q, hq, rfl, rfl⟩
    rwa [Bool.not_eq_true', List.isEmpty_eq_false_iff] at hsome
  · rintro ⟨y, hy, hsome, q, hq, hplace, hqueue⟩
    refine ⟨o.yard, y, SortedMap.get?_eq_some_iff.mp hy, q, ⟨hq, ?_⟩, ?_⟩
    · rwa [Bool.not_eq_true', List.isEmpty_eq_false_iff, hqueue]
    · rw [hplace, hqueue]

theorem Yard.flatMap_orders (id : TerritoryId) (y : Yard) :
    (y.orders id).flatMap Order.pieces = y.queued := by
  unfold orders queued
  induction y.places with
  | nil => rfl
  | cons q places ih =>
    rw [List.filter_cons, List.flatMap_cons]
    cases hq : q.queue with
    | nil => simpa using ih
    | cons r rs => simpa [hq] using ih

/-- The orders of a plan are for what waits in it. -/
theorem Plan.flatMap_orders_perm (plan : Plan) :
    (plan.orders.flatMap Order.pieces).Perm plan.queued := by
  refine (plan.orders_perm.flatMap_right _).trans ?_
  unfold Yards.orders Plan.queued Yards.queued SortedMap.values
  rw [List.flatMap_assoc, List.flatMap_map]
  simp only [Yard.flatMap_orders]
  exact List.Perm.refl _

theorem Yard.amount_orders (id j : TerritoryId) (y : Yard) :
    Order.amount (fun o => o.yard == id) (y.orders j) = if j = id then y.queuedCount else 0 := by
  have hyard : ∀ o ∈ y.orders j, o.yard = j := by
    intro o ho
    obtain ⟨q, -, rfl⟩ := List.mem_map.mp ho
    rfl
  unfold Order.amount
  split
  · rename_i hj
    rw [List.filter_eq_self.mpr fun o ho => beq_iff_eq.mpr ((hyard o ho).trans hj),
      y.flatMap_orders]
    rfl
  · rename_i hj
    have hnone : (y.orders j).filter (fun o => o.yard == id) = [] := by
      refine List.filter_eq_nil_iff.mpr fun o ho => ?_
      rw [beq_iff_eq, hyard o ho]
      exact hj
    rw [hnone]
    rfl

/-- What is charged to a yard is what waits in it. -/
theorem Plan.amount_yard (hy : plan.yards.get? id = some y) :
    Order.amount (fun o => o.yard == id) plan.orders = y.queuedCount := by
  -- numbers differ, so that only the entry of the yard itself counts
  have hsum : ∀ es : List (TerritoryId × Yard), (es.map Prod.fst).Nodup →
      ((id, y) ∈ es →
        Order.amount (fun o => o.yard == id) (es.flatMap fun e => e.2.orders e.1) =
          y.queuedCount) ∧
      (id ∉ es.map Prod.fst →
        Order.amount (fun o => o.yard == id) (es.flatMap fun e => e.2.orders e.1) = 0) := by
    intro es hkeys
    induction es with
    | nil => exact ⟨fun h => absurd h List.not_mem_nil, fun _ => rfl⟩
    | cons e es ih =>
      obtain ⟨hfresh, hrest⟩ := List.nodup_cons.mp hkeys
      obtain ⟨ihmem, ihnot⟩ := ih hrest
      rw [List.flatMap_cons, Order.amount_append, Yard.amount_orders]
      constructor
      · intro hmem
        rcases List.mem_cons.mp hmem with rfl | hmem
        · rw [if_pos rfl, ihnot hfresh, Nat.add_zero]
        · have hne : e.1 ≠ id := by
            rintro rfl
            exact hfresh (List.mem_map.mpr ⟨_, hmem, rfl⟩)
          rw [if_neg hne, ihmem hmem, Nat.zero_add]
      · intro hnot
        rw [List.map_cons, List.mem_cons, not_or] at hnot
        rw [if_neg (Ne.symm hnot.1), ihnot hnot.2]
  have hperm := (plan.orders_perm.filter fun o => o.yard == id).flatMap_right Order.pieces
  refine hperm.length_eq.trans ?_
  exact (hsum _ plan.yards.nodup_keys).1 (SortedMap.get?_eq_some_iff.mp hy)

/-! ## Turns that carry orders out -/

namespace PlaceTurn

/-- Carries orders out one after the other, until one is refused. -/
def placeAll (s : Snapshot) (turn : PlaceTurn) (os : List Order) : Except Refusal PlaceTurn :=
  os.foldlM (fun turn o => turn.place s o.place o.pieces) turn

variable {s : Snapshot} {turn turn' : PlaceTurn} {player : PlayerId}

theorem placeAll_snoc (s : Snapshot) (turn : PlaceTurn) (os : List Order) (o : Order) :
    turn.placeAll s (os ++ [o]) =
      turn.placeAll s os >>= fun turn => turn.place s o.place o.pieces := by
  unfold placeAll
  rw [List.foldlM_append]
  simp only [List.foldlM_cons, List.foldlM_nil, bind_pure]

/-- After orders have been carried out, places and kinds hold what the orders come to. -/
theorem placeAll_spec (h : PlaceTurn.placeAll s { player } os = .ok turn) :
    turn.player = player ∧
      (∀ id, (turn.placedIn id).length = Order.amount (fun o => o.place == id) os) ∧
      ∀ kind, turn.placedOfKind kind =
        (os.flatMap Order.pieces).countP fun q => q.kind = kind := by
  induction os using List.reverseRecOn generalizing turn with
  | nil =>
    obtain rfl : { player } = turn := Except.ok.inj h
    exact ⟨rfl, fun _ => rfl, fun _ => rfl⟩
  | append_singleton os o ih =>
    rw [placeAll_snoc, Outcome.bind_eq_ok_iff] at h
    obtain ⟨before, hbefore, h⟩ := h
    obtain ⟨-, rfl⟩ := place_eq_ok_iff.mp h
    obtain ⟨hplayer, hplaced, hkinds⟩ := ih hbefore
    refine ⟨hplayer, ?_, ?_⟩
    · intro id
      rw [placedIn_record, List.length_append, hplaced, Order.amount_append, Order.amount_cons]
      by_cases hid : id = o.place
      · subst hid
        simp [Order.amount]
      · simp [Order.amount, hid, Ne.symm hid]
    · intro kind
      rw [placedOfKind_record, hkinds, List.flatMap_append, List.countP_append]
      simp

end PlaceTurn

/-! ## Land and the zones beside it -/

/-- The sea zones beside a territory. -/
def Snapshot.zonesBeside (s : Snapshot) (t : Territory) : List TerritoryId :=
  t.neighbors.toList.filter fun id => (s.territories.get? id).any Territory.isWater

theorem Snapshot.mem_zonesBeside_iff {s : Snapshot} {t : Territory} {id : TerritoryId} :
    id ∈ s.zonesBeside t ↔ t.isAdjacentTo id = true ∧ ∃ z, s.territory id = .ok z ∧
      z.isWater = true := by
  unfold Snapshot.zonesBeside
  rw [List.mem_filter, Territory.isAdjacentTo_iff, Option.any_eq_true]
  simp only [Snapshot.territory_eq_ok_iff]

/-- Land is none of the zones beside it, and each of these is listed once. -/
theorem Snapshot.nodup_zonesBeside {s : Snapshot} {t : Territory} (ht : s.territory t.id = .ok t)
    (hland : t.isWater = false) : (t.id :: s.zonesBeside t).Nodup := by
  refine List.nodup_cons.mpr ⟨?_, t.neighbors.nodup_keys.filter _⟩
  intro hself
  obtain ⟨-, z, hz, hwater⟩ := mem_zonesBeside_iff.mp hself
  obtain rfl : t = z := Except.ok.inj (ht.symm.trans hz)
  rw [hland] at hwater
  cases hwater

namespace PlaceTurn

variable {s : Snapshot} {turn : PlaceTurn} {player : PlayerId} {t : Territory}

/-- How many pieces lie in the sea zones beside a territory. -/
def placedBeside (s : Snapshot) (turn : PlaceTurn) (t : Territory) : Nat :=
  ((s.zonesBeside t).map fun zone => (turn.placedIn zone).length).foldr (· + ·) 0

theorem usedBy_eq_add (s : Snapshot) (turn : PlaceTurn) (t : Territory) :
    turn.usedBy s t = (turn.placedIn t.id).length + turn.placedBeside s t :=
  rfl

/-- What a land territory has used up is what the orders carried out come to on its land and in
the sea zones beside it. -/
theorem usedBy_eq (h : PlaceTurn.placeAll s { player } os = .ok turn)
    (ht : s.territory t.id = .ok t) (hland : t.isWater = false) :
    turn.usedBy s t = Order.amount (fun o => decide (o.place ∈ t.id :: s.zonesBeside t)) os := by
  obtain ⟨-, hplaced, -⟩ := placeAll_spec h
  rw [← Order.amount_places (Snapshot.nodup_zonesBeside ht hland), List.map_cons, List.foldr_cons]
  unfold usedBy Snapshot.zonesBeside
  simp only [hplaced]

end PlaceTurn

end Quartermaster
