import Mathlib.Data.List.Nodup
import Quartermaster.Arbiter
import Quartermaster.Proofs.Board
import Quartermaster.Proofs.Outcome

/-!
# What a player sees

A player's view of a snapshot leaves out all that is none of its business: names, the round, the
records of the other players, and their pieces. Every question that planning asks for the player
has one answer, whether it is asked of the snapshot or of the view.

A record need not carry the number that it is entered under. Output is reckoned for the number
inside the record, and so the view keeps the pieces of both numbers (`Snapshot.selves`).
-/

namespace Quartermaster

/-! ## Views -/

/-- The pieces of the listed owners, one owner after the other. -/
def Stack.ofOwners (st : Stack) (owners : List PlayerId) : Stack :=
  ⟨owners.flatMap fun o => st.pieces.filter fun q => q.owner == o⟩

/-- A territory without its name, without what the ruleset says of it beyond production and
passage, and without the pieces of others than the listed owners. -/
def Territory.seenBy (owners : List PlayerId) (t : Territory) : Territory :=
  Territory.withStack
    { id := t.id
      name := ""
      isWater := t.isWater
      owner := t.owner
      neighbors := t.neighbors
      conqueredThisTurn := t.conqueredThisTurn
      site := some
        { production := t.production
          originalFactory := t.isOriginalFactory
          impassable := t.isImpassable } }
    (t.stack.ofOwners owners)

section

variable (owners : List PlayerId) (t : Territory)

@[simp] theorem Territory.seenBy_id : (t.seenBy owners).id = t.id := rfl

@[simp] theorem Territory.seenBy_isWater : (t.seenBy owners).isWater = t.isWater := rfl

@[simp] theorem Territory.seenBy_conqueredThisTurn :
    (t.seenBy owners).conqueredThisTurn = t.conqueredThisTurn := rfl

end

namespace Snapshot

variable (s : Snapshot) (player : PlayerId)

/-- The numbers that a player goes by: the one its record is entered under, and the one inside. -/
def selves : List PlayerId :=
  player :: ((s.players.get? player).map Player.id).toList.filter fun o => o != player

/-- What a player sees of a snapshot. -/
def seenBy : Snapshot where
  roster := s.roster
  players := (s.players.get? player).elim .empty fun r => SortedMap.empty.insert player r
  territories := s.territories.map (Territory.seenBy (s.selves player))
  alliances := s.alliances

end Snapshot

/-! ## Stacks -/

/-- Nothing of a listed owner is lost or changes its place. -/
theorem Stack.filter_ofOwners (st : Stack) {owners : List PlayerId} {o : PlayerId}
    (hnodup : owners.Nodup) (ho : o ∈ owners) :
    (st.ofOwners owners).pieces.filter (fun q => q.owner == o) =
      st.pieces.filter fun q => q.owner == o := by
  unfold ofOwners
  obtain ⟨before, after, rfl⟩ := List.append_of_mem ho
  have hself : (st.pieces.filter fun q => q.owner == o).filter (fun q => q.owner == o) =
      st.pieces.filter fun q => q.owner == o := by
    rw [List.filter_filter]
    simp
  have hothers : ∀ os : List PlayerId, o ∉ os →
      os.flatMap (fun o' => (st.pieces.filter fun q => q.owner == o').filter
        fun q => q.owner == o) = [] := by
    intro os hos
    refine List.flatMap_eq_nil_iff.mpr fun o' ho' => ?_
    rw [List.filter_filter, List.filter_eq_nil_iff]
    intro q _ hq
    obtain ⟨ho, ho''⟩ := Bool.and_eq_true_iff.mp hq
    exact hos ((beq_iff_eq.mp ho).symm.trans (beq_iff_eq.mp ho'') ▸ ho')
  rw [List.nodup_middle, List.nodup_cons, List.mem_append, not_or] at hnodup
  rw [List.filter_flatMap, List.flatMap_append, List.flatMap_cons, hself,
    hothers before hnodup.1.1, hothers after hnodup.1.2, List.nil_append, List.append_nil]

variable {s : Snapshot} {player o : PlayerId}

namespace Snapshot

theorem nodup_selves : (s.selves player).Nodup := by
  unfold selves
  refine List.nodup_cons.mpr ⟨?_, List.Nodup.filter _ ?_⟩
  · simp
  · cases s.players.get? player <;> simp

theorem mem_selves_iff :
    o ∈ s.selves player ↔ o = player ∨ ∃ r, s.player player = .ok r ∧ r.id = o := by
  unfold selves
  by_cases ho : o = player <;> simp [ho, player_eq_ok_iff]

theorem self_mem_selves : player ∈ s.selves player := mem_selves_iff.mpr (.inl rfl)

theorem id_mem_selves {r : Player} (h : s.player player = .ok r) : r.id ∈ s.selves player :=
  mem_selves_iff.mpr (.inr ⟨r, h, rfl⟩)

theorem workers_seenBy (ho : o ∈ s.selves player) (t : Territory) :
    workers (t.seenBy (s.selves player)).stack.pieces o = workers t.stack.pieces o := by
  have hsplit : ∀ ps, workers ps o =
      (ps.filter fun q => q.owner == o).filter fun q => !q.isTransported := by
    intro ps
    unfold workers
    rw [List.filter_filter]
    simp only [Bool.and_comm]
  rw [hsplit, hsplit]
  exact congrArg _ (Stack.filter_ofOwners t.stack nodup_selves ho)

/-! ## Look-ups -/

theorem player_seenBy : (s.seenBy player).player player = s.player player := by
  unfold Snapshot.player seenBy
  cases s.players.get? player <;> simp

theorem get?_seenBy (id : TerritoryId) : (s.seenBy player).territories.get? id =
    (s.territories.get? id).map (Territory.seenBy (s.selves player)) := SortedMap.get?_map ..

theorem territory_seenBy (id : TerritoryId) :
    (s.seenBy player).territory id = (s.territory id).map (Territory.seenBy (s.selves player)) := by
  unfold territory
  rw [get?_seenBy]
  cases s.territories.get? id <;> rfl

theorem known_seenBy (ids : List TerritoryId) : (s.seenBy player).known ids =
    (s.known ids).map (Territory.seenBy (s.selves player)) := by
  unfold known
  rw [List.map_filterMap]
  simp only [get?_seenBy]

theorem neighbors_seenBy (id : TerritoryId) : (s.seenBy player).neighbors id =
    (s.neighbors id).map (List.map (Territory.seenBy (s.selves player))) := by
  unfold neighbors
  rw [territory_seenBy]
  cases s.territory id with
  | error f => rfl
  | ok t => exact congrArg Except.ok (known_seenBy t.neighbors.toList)

theorem values_seenBy : (s.seenBy player).territories.values =
    s.territories.values.map (Territory.seenBy (s.selves player)) := by
  unfold seenBy SortedMap.values SortedMap.map
  rw [List.map_map, List.map_map]
  rfl

theorem territoriesOwnedBy_seenBy : (s.seenBy player).territoriesOwnedBy player =
    (s.territoriesOwnedBy player).map (Territory.seenBy (s.selves player)) := by
  unfold territoriesOwnedBy
  rw [values_seenBy, List.filter_map]
  rfl

theorem countOwned_seenBy (h : s.Tallied) (kind : KindId) :
    (s.seenBy player).countOwned player kind = s.countOwned player kind := by
  have hcount : ∀ t ∈ s.territories.values,
      (t.seenBy (s.selves player)).countOwned player kind = t.countOwned player kind := by
    intro t ht
    have hsplit : ∀ ps : List Piece, (ps.countP fun q => q.owner == player && q.kind == kind) =
        (ps.filter fun q => q.owner == player).countP fun q => q.kind == kind := by
      intro ps
      rw [List.countP_filter]
      simp only [Bool.and_comm]
    rw [Territory.countOwned_eq_countP (h t ht), Territory.countOwned_eq_countP rfl, hsplit, hsplit]
    exact congrArg _ (Stack.filter_ofOwners t.stack nodup_selves self_mem_selves)
  unfold countOwned
  rw [values_seenBy, List.map_map]
  exact congrArg (List.foldr (· + ·) 0) (List.map_congr_left hcount)

end Snapshot

/-! ## Output -/

namespace Snapshot

theorem factories_seenBy (ho : o ∈ s.selves player) (t : Territory) :
    (s.seenBy player).factories (t.seenBy (s.selves player)) o = s.factories t o := by
  unfold factories
  rw [workers_seenBy ho]
  rfl

theorem productionPotential_seenBy {r : Player} (hr : s.player player = .ok r) (t : Territory)
    (options : PotentialOptions) :
    (s.seenBy player).productionPotential (t.seenBy (s.selves player)).stack
      (t.seenBy (s.selves player)) r options = s.productionPotential t.stack t r options := by
  unfold productionPotential
  rw [workers_seenBy (id_mem_selves hr)]
  rfl

theorem capacity_seenBy (id : TerritoryId) :
    (s.seenBy player).capacity id player = s.capacity id player := by
  unfold capacity
  rw [territory_seenBy, Outcome.map_bind, player_seenBy]
  refine bind_congr fun t => Outcome.bind_congr_ok fun r hr => ?_
  -- factories are looked up by the number that was asked for, output by the one in the record
  rw [factories_seenBy self_mem_selves, productionPotential_seenBy hr]
  rfl

theorem hasOwnedLandFactory_seenBy (t : Territory) :
    (s.seenBy player).hasOwnedLandFactory (t.seenBy (s.selves player)) player =
      s.hasOwnedLandFactory t player := by
  unfold hasOwnedLandFactory
  rw [factories_seenBy self_mem_selves]
  rfl

theorem isProducer_seenBy (t : Territory) :
    (s.seenBy player).isProducer (t.seenBy (s.selves player)) player = s.isProducer t player := by
  unfold isProducer
  rw [factories_seenBy self_mem_selves, player_seenBy]
  rfl

theorem canMoveLandPieces_seenBy (id : TerritoryId) :
    (s.seenBy player).canMoveLandPieces id player = s.canMoveLandPieces id player := by
  unfold canMoveLandPieces
  rw [territory_seenBy, Outcome.map_bind, player_seenBy]
  rfl

end Snapshot

/-! ## The rules -/

namespace PlaceTurn

variable {turn : PlaceTurn}

theorem usedBy_seenBy (t : Territory) :
    turn.usedBy (s.seenBy player) (t.seenBy (s.selves player)) = turn.usedBy s t := by
  unfold usedBy
  simp only [Snapshot.get?_seenBy, Option.any_map]
  rfl

theorem roomFrom?_seenBy (hturn : turn.player = player) (t : Territory) :
    turn.roomFrom? (s.seenBy player) (t.seenBy (s.selves player)) = turn.roomFrom? s t := by
  unfold roomFrom?
  rw [hturn, Snapshot.isProducer_seenBy, usedBy_seenBy, Territory.seenBy_id,
    Snapshot.capacity_seenBy]

theorem seaRoom_seenBy (hturn : turn.player = player) (zone : Territory) :
    turn.seaRoom (s.seenBy player) (zone.seenBy (s.selves player)) = turn.seaRoom s zone := by
  have hrooms : turn.roomsAround (s.seenBy player) zone.id = turn.roomsAround s zone.id := by
    unfold roomsAround
    rw [Snapshot.neighbors_seenBy, Outcome.map_bind]
    simp only [List.mapM_map, Function.comp_def, roomFrom?_seenBy hturn]
  unfold seaRoom
  rw [Territory.seenBy_id, hrooms]

theorem landRoom_seenBy (hturn : turn.player = player) (t : Territory) (territory : TerritoryId) :
    turn.landRoom (s.seenBy player) (t.seenBy (s.selves player)) territory =
      turn.landRoom s t territory := by
  unfold landRoom
  rw [hturn, Snapshot.capacity_seenBy]
  rfl

theorem checkPieces_seenBy (t : Territory) (territory : TerritoryId) (ps : List Piece) :
    turn.checkPieces (s.seenBy player) (t.seenBy (s.selves player)) territory ps =
      turn.checkPieces s t territory ps := by
  induction ps with
  | nil => rfl
  | cons q ps ih =>
    rw [checkPieces, checkPieces, ih]
    rfl

theorem checkLimits_seenBy (h : s.Tallied) (hturn : turn.player = player)
    (es : List (KindId × Nat)) :
    turn.checkLimits (s.seenBy player) es = turn.checkLimits s es := by
  have hlimit : ∀ kind n, turn.checkLimit (s.seenBy player) kind n = turn.checkLimit s kind n := by
    intro kind n
    unfold checkLimit
    rw [hturn, Snapshot.countOwned_seenBy h]
    rfl
  induction es with
  | nil => rfl
  | cons e es ih => rw [checkLimits, checkLimits, hlimit, ih]

/-- The rules answer the player alike. -/
theorem check_seenBy (h : s.Tallied) (hturn : turn.player = player) (territory : TerritoryId)
    (ps : List Piece) : turn.check (s.seenBy player) territory ps = turn.check s territory ps := by
  -- faults of the snapshot come lifted to refusals here, which `Outcome.map_bind` is not about
  have hlift : ∀ (x : Except Fault Territory) (f : Territory → Except Refusal Unit),
      ((liftM (x.map (Territory.seenBy (s.selves player))) : Except Refusal Territory) >>= f) =
        liftM x >>= fun t => f (t.seenBy (s.selves player)) := by
    intro x f
    cases x <;> rfl
  unfold check
  simp only [Snapshot.territory_seenBy, hturn, Snapshot.player_seenBy, hlift, checkPieces_seenBy,
    seaRoom_seenBy hturn, landRoom_seenBy hturn, checkLimits_seenBy h hturn,
    Territory.seenBy_isWater, Territory.seenBy_conqueredThisTurn]

end PlaceTurn

end Quartermaster
