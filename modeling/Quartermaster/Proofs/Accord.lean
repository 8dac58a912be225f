import Mathlib.Data.List.Nodup
import Quartermaster.Proofs.Antitone
import Quartermaster.Proofs.Consistency
import Quartermaster.Proofs.Recount

/-!
# The filter and the rules

Before the rules are asked about a batch for land, a filter has looked at what is left of the
capacity of the yard and at the census. The rules count for themselves: they reckon the capacity
anew and take off what waits on the land, and they count the board and add what waits there. What
the filter keeps count of is all that the yard has made and all that the pass has queued, which is
no less; so nothing that it lets through is refused for capacity or for a ceiling. Nor for the owner
or the domain, by the way in which yards are opened and catalogs sorted. What is left to the rules
is whether the land was conquered this turn and whether the player is banned from it, and that is
the same for every offer (`landPhase_accord`).
-/

namespace Quartermaster

variable {s : Snapshot} {player : PlayerId} {owner : Player} {currency : ResourceId}
  {catalog : Catalog} {arbiter : Arbiter} {pass : Pass} {id : TerritoryId} {y : Yard} {o : Offer}
  {t : Territory} {ps : List Piece}

/-! ## What waits on the land of a yard -/

theorem Yard.queuedFor_sublist (y : Yard) (place : TerritoryId) :
    (y.queuedFor place).Sublist y.queued :=
  List.filter_sublist.flatMap Place.queue

theorem Yard.queuedFor_eq_nil {place : TerritoryId}
    (h : place ∉ y.places.map Place.territory) : y.queuedFor place = [] := by
  unfold queuedFor
  rw [List.flatMap_eq_nil_iff]
  intro p hp
  obtain ⟨hmem, hplace⟩ := List.mem_filter.mp hp
  exact absurd (List.mem_map.mpr ⟨p, hmem, beq_iff_eq.mp hplace⟩) h

/-- What waits for a place that only one yard feeds waits in that yard. -/
theorem Yards.queuedFor_eq_of_forall {ys : Yards} (hy : ys.get? id = some y)
    {place : TerritoryId} (hother : ∀ id' y', ys.get? id' = some y' → id' ≠ id →
      place ∉ y'.places.map Place.territory) : ys.queuedFor place = y.queuedFor place := by
  obtain ⟨before, after, hentries⟩ := List.append_of_mem (SortedMap.get?_eq_some_iff.mp hy)
  have hkeys := ys.nodup_keys
  rw [SortedMap.keys, hentries, List.map_append, List.map_cons, List.nodup_middle,
    List.nodup_cons, ← List.map_append] at hkeys
  have hnone : ∀ e ∈ before ++ after, e.2.queuedFor place = [] := by
    intro e he
    refine Yard.queuedFor_eq_nil (hother e.1 e.2 ?_ ?_)
    · rw [SortedMap.get?_eq_some_iff, hentries]
      exact List.mem_append.mpr ((List.mem_append.mp he).imp_right (List.mem_cons_of_mem _))
    · intro hsame
      have hmem : e.1 ∈ (before ++ after).map Prod.fst := List.mem_map_of_mem he
      rw [hsame] at hmem
      exact hkeys.1 hmem
  obtain ⟨hbefore, hafter⟩ := List.forall_mem_append.mp hnone
  rw [queuedFor_eq, SortedMap.values, hentries]
  simp only [List.map_append, List.map_cons, List.flatMap_append, List.flatMap_cons,
    List.flatMap_map]
  rw [List.flatMap_eq_nil_iff.mpr hbefore, List.flatMap_eq_nil_iff.mpr hafter, List.nil_append,
    List.append_nil]

/-- What fits the remainder of a balanced yard fits its capacity beside what waits in it. -/
theorem Yard.Balanced.fits_add {m n : Nat} (hy : y.Balanced) (hm : m ≤ y.queuedCount)
    (hfits : y.remaining.fits n = true) : y.capacity.fits (m + n) = true := by
  unfold Balanced at hy
  cases hcapacity : y.capacity with
  | unlimited => rfl
  | limited limit =>
    simp only [hcapacity] at hy
    obtain ⟨left, hleft, hsum⟩ := hy
    rw [hleft] at hfits
    have hn : n ≤ left := of_decide_eq_true hfits
    exact decide_eq_true (by omega)

namespace Planner.Reached

/-- What waits on the land of a yard waits in that yard. -/
theorem queuedFor_land (hs : s.Keyed) (h : Reached s arbiter catalog player pass)
    (hy : pass.yards.get? id = some y) : pass.yards.queuedFor id = y.queuedFor id := by
  obtain ⟨t, ht, hland, -⟩ := h.exists_land hy
  refine Yards.queuedFor_eq_of_forall hy fun id' y' hy' hne hplace => ?_
  -- another yard would feed it only if it were water
  obtain ⟨t', -, -, hplaces⟩ := h.mem_places hs hy'
  rcases hplaces id hplace with hself | ⟨z, hz, hwater, -⟩
  · exact hne hself.symm
  · obtain rfl : t = z := Except.ok.inj (ht.symm.trans hz)
    rw [hland] at hwater
    cases hwater

theorem balanced (h : Reached s arbiter catalog player pass)
    (hy : pass.yards.get? id = some y) : y.Balanced :=
  h.yards_invariant (fun _ _ _ _ _ _ _ hqueue hy => hy.queue hqueue)
    (fun _ hclear => hclear.balanced) hy

/-- A yard is opened on land of the player. -/
theorem isOwnedBy (hs : s.Keyed) (h : Reached s arbiter catalog player pass)
    (hy : pass.yards.get? id = some y) (ht : s.territory id = .ok t) :
    t.isOwnedBy player = true := by
  obtain ⟨start, bs, hstart, hbs⟩ := h
  obtain ⟨-, -, hyards, -⟩ := openPass_eq_ok hstart
  obtain ⟨y₀, hy₀, -⟩ := hbs.cleared_get? hy
  obtain ⟨⟨t', ht', hid, howned⟩, -⟩ := findYards_get? hyards hy₀
  have hlisted := hs.territory_of_mem ht'
  rw [hid] at hlisted
  obtain rfl : t = t' := Except.ok.inj (ht.symm.trans hlisted)
  exact howned

end Planner.Reached

/-! ## What is left to the rules -/

/-- Where pieces have room and keep the ceilings, the rules may still refuse the place. -/
theorem PlaceTurn.check_of_room {turn : PlaceTurn} {room : Room} (hsome : ps ≠ [])
    (ht : s.territory id = .ok t)
    (hpieces : ∀ q ∈ ps, q.owner = turn.player ∧ ∃ k, s.kind q.kind = .ok k ∧ k.isSea = t.isWater)
    (howner : s.player turn.player = .ok owner) (hroom : turn.roomFor s t id = .ok room)
    (hfits : room.fits ps.length = true)
    (hlimits : turn.checkLimits s (Stack.countBy Piece.kind ps).entries = .ok ()) :
    turn.check s id ps =
      if t.conqueredThisTurn then .error (.conqueredThisTurn id)
      else if owner.isPlacementBanned id then .error (.banned id)
      else .ok () := by
  cases hconquered : t.conqueredThisTurn with
  | false =>
    cases hbanned : owner.isPlacementBanned id with
    | false =>
      have hsuits : s.Suits turn.player id t ps :=
        ⟨hsome, ht, hpieces, ⟨owner, howner, hbanned⟩, hconquered⟩
      exact check_eq_ok_iff.mpr ⟨t, hsuits, room, hroom, hfits, hlimits⟩
    | true =>
      unfold check
      rw [List.isEmpty_eq_false_iff.mpr hsome, ht]
      show (turn.checkPieces s t id ps >>= _) = _
      rw [checkPieces_eq_ok_iff.mpr hpieces, howner, hconquered]
      show (if owner.isPlacementBanned id = true then _ else _) = _
      rw [hbanned]
      rfl
  | true =>
    unfold check
    rw [List.isEmpty_eq_false_iff.mpr hsome, ht]
    show (turn.checkPieces s t id ps >>= _) = _
    rw [checkPieces_eq_ok_iff.mpr hpieces, howner, hconquered]
    rfl

theorem Offer.domain_ne_sea (h : o.category = .land ∨ o.category = .air) : o.domain ≠ .sea := by
  unfold category at h
  intro hsea
  rw [hsea] at h
  split at h <;> simp at h

/-- An offer of the land or air part of a catalog sells no ships. -/
theorem Catalog.isSea_of_mem (hs : s.Keyed)
    (hcatalog : ofFrontier s player currency = .ok catalog) (ho : o ∈ catalog.land ++ catalog.air)
    {k : PieceKind} (hk : s.kind o.kind = .ok k) : k.isSea = false := by
  have hsorted := sorted_ofFrontier hcatalog
  have hdomain : o.domain ≠ .sea := by
    refine Offer.domain_ne_sea ((List.mem_append.mp ho).imp ?_ ?_)
    · exact hsorted .land o
    · exact hsorted .air o
  obtain ⟨-, -, r, -, kind, k', -, hk', rfl⟩ :=
    (mem_ofFrontier_iff hcatalog).mp (mem_toList_iff.mpr (.inl ho))
  have hkind : (Offer.ofRule r k' currency).kind = kind := hs.kind_id hk'
  rw [hkind] at hk
  obtain rfl : k = k' := Except.ok.inj (hk.symm.trans hk')
  exact decide_eq_false hdomain

namespace Planner.Reached

/-- What the filter lets through for the land of a yard has room there. -/
theorem roomFor_of_fits (hs : s.Keyed) (h : Reached s arbiter catalog player pass)
    (hy : pass.yards.get? id = some y) (ht : s.territory id = .ok t) {n : Nat}
    (hfits : y.remaining.fits n = true) :
    ∃ room, PlaceTurn.roomFor s
        (PlaceTurn.withPlaced { player } id (pass.yards.queuedFor id)) t id = .ok room ∧
      room.fits n = true := by
  obtain ⟨-, hcapacity, -⟩ := h.yard_cleared hy
  obtain ⟨t', ht', hland, -⟩ := h.exists_land hy
  obtain rfl : t = t' := Except.ok.inj (ht.symm.trans ht')
  have hplaced : (PlaceTurn.withPlaced { player } id (pass.yards.queuedFor id)).placedIn id =
      y.queuedFor id := by
    rw [PlaceTurn.placedIn_withPlaced, if_pos rfl, h.queuedFor_land hs hy]
  refine ⟨⟨y.capacity, (y.queuedFor id).length⟩, ?_, ?_⟩
  · rw [PlaceTurn.roomFor_of_land hland, PlaceTurn.landRoom_eq_ok_iff, PlaceTurn.player_withPlaced]
    exact ⟨h.isOwnedBy hs hy ht, y.capacity, hcapacity, by rw [hplaced]⟩
  · rw [Room.fits_iff]
    exact (h.balanced hy).fits_add (y.queuedFor_sublist id).length_le hfits

/-- What the census leaves room for keeps the ceiling in every place. -/
theorem checkLimit_of_allows (hs : s.Keyed) (h : Reached s arbiter catalog player pass)
    {k : PieceKind} (hk : s.kind o.kind = .ok k) (hlimit : o.buildLimit = k.buildLimit)
    (hquantity : 0 < o.quantity) (hallowed : pass.census.allows o = true) (place : TerritoryId) :
    (PlaceTurn.withPlaced { player } place (pass.yards.queuedFor place)).checkLimit s o.kind
      o.quantity = .ok () := by
  refine PlaceTurn.checkLimit_eq_ok_iff.mpr ⟨k, hk, ?_⟩
  have hcounted := h.counted hs o.kind k hk
  have hplaced : ((pass.yards.queuedFor place).countP fun q => q.kind = o.kind) ≤
      pass.yards.queued.countP fun q => q.kind = o.kind :=
    (pass.yards.queuedFor_sublist place).countP_le
  rw [h.player_eq] at hcounted
  rw [PlaceTurn.player_withPlaced, PlaceTurn.placedOfKind_withPlaced, ← hlimit]
  rcases Census.allows_iff.mp hallowed with hfree | ⟨limit, hmost, hroom⟩
  · rw [hfree]
    trivial
  · rw [hmost]
    show s.countOwned player o.kind + _ + o.quantity ≤ limit
    omega

/-- Of what the filter lets through for the land of a yard the rules ask whether the land was
conquered and whether the player is banned from it. -/
theorem ofRules_of_buyable (hs : s.Keyed)
    (hcatalog : Catalog.ofFrontier s player currency = .ok catalog)
    (h : Reached s arbiter catalog player pass) (hy : pass.yards.get? id = some y)
    (ht : s.territory id = .ok t) (howner : s.player player = .ok owner)
    (ho : o ∈ buyable (catalog.land ++ catalog.air) pass.ledger y.remaining pass.census)
    {source source' : PieceSource} (hmade : o.materialize source player = .ok (ps, source')) :
    Arbiter.ofRules s id ps player (pass.yards.queuedFor id) =
      if t.conqueredThisTurn then .error (.conqueredThisTurn id)
      else if owner.isPlacementBanned id then .error (.banned id)
      else .ok () := by
  obtain ⟨hlisted, -, hfits, hallowed⟩ := mem_of_mem_buyable ho
  obtain ⟨hquantity, k, hk, hlimit⟩ :=
    Catalog.kind_of_mem hs hcatalog (Catalog.mem_toList_iff.mpr (.inl hlisted))
  obtain ⟨t', ht', hland, -⟩ := h.exists_land hy
  obtain rfl : t = t' := Except.ok.inj (ht.symm.trans ht')
  have hsome : ps ≠ [] := Offer.ne_nil_of_materialize hmade
  have hkinds : ∀ q ∈ ps, q.kind = o.kind := fun q hq =>
    (Offer.kind_owner_of_materialize hmade hq).1
  obtain ⟨room, hroom, hroomy⟩ := h.roomFor_of_fits hs hy ht hfits
  have hplayer := PlaceTurn.player_withPlaced { player } id (pass.yards.queuedFor id)
  refine PlaceTurn.check_of_room hsome ht ?_ ?_ hroom ?_ ?_
  · intro q hq
    rw [hplayer, hkinds q hq]
    refine ⟨(Offer.kind_owner_of_materialize hmade hq).2, k, hk, ?_⟩
    rw [hland, Catalog.isSea_of_mem hs hcatalog hlisted hk]
  · rw [hplayer]
    exact howner
  · rw [Offer.length_of_materialize hmade]
    exact hroomy
  · rw [Stack.entries_countBy_of_forall hsome hkinds, PlaceTurn.checkLimits_singleton,
      Offer.length_of_materialize hmade]
    exact h.checkLimit_of_allows hs hk hlimit hquantity hallowed id

end Planner.Reached

namespace Planner

/-- In the land phase the filter and the rules agree. Of every offer that the filter lets through
for a yard, in any pass of the phase, a batch can be made; and the rules accept it on the land of
the yard, with what waits there, unless the land was conquered this turn or the player may not place
there. Their answer, one reason or the other or neither, is the same for all these offers. -/
theorem landPhase_accord (hs : s.Keyed)
    (hcatalog : Catalog.ofFrontier s player currency = .ok catalog) {start : Pass}
    (hstart : openPass s player = .ok start) {order : List TerritoryId} {p : Planner}
    (hpass : pass ∈ phasePasses s (.ofRules s) (catalog.land ++ catalog.air)
      (fun _ yard => [yard]) order start p)
    (hy : pass.yards.get? id = some y) :
    ∃ t owner, s.territory id = .ok t ∧ s.player player = .ok owner ∧
      ∀ o ∈ buyable (catalog.land ++ catalog.air) pass.ledger y.remaining pass.census, ∀ source,
        ∃ batch source', o.materialize source player = .ok (batch, source') ∧
          (Arbiter.ofRules s id batch player (pass.yards.queuedFor id) =
            if t.conqueredThisTurn then .error (.conqueredThisTurn id)
            else if owner.isPlacementBanned id then .error (.banned id)
            else .ok ()) ∧
          ((Arbiter.ofRules s).permits id batch player (pass.yards.queuedFor id) = .ok true ↔
            t.conqueredThisTurn = false ∧ owner.isPlacementBanned id = false) := by
  have h : Reached s (.ofRules s) catalog player pass :=
    Reached.of_mem_phasePasses (.of_openPass hstart)
      (fun _ _ _ => offersFor_of_mem_singleton catalog) hpass
  obtain ⟨t, ht, -⟩ := h.exists_land hy
  obtain ⟨owner, howner, -⟩ := openPass_eq_ok hstart
  refine ⟨t, owner, ht, howner, fun o ho source => ?_⟩
  obtain ⟨hlisted, -⟩ := mem_of_mem_buyable ho
  obtain ⟨hquantity, -⟩ :=
    Catalog.kind_of_mem hs hcatalog (Catalog.mem_toList_iff.mpr (.inl hlisted))
  obtain ⟨batch, source', hmade⟩ := Offer.exists_materialize hquantity source player
  have hanswer := h.ofRules_of_buyable hs hcatalog hy ht howner ho hmade
  refine ⟨batch, source', hmade, hanswer, ?_⟩
  rw [Arbiter.permits_eq_true_iff, hanswer]
  cases t.conqueredThisTurn <;> cases owner.isPlacementBanned id <;> simp

/-- On the separate seas, with one infantry queued in the first port, the filter lets one more
through, and the rules accept it. -/
theorem landPhase_accord_separateSeas :
    let s := Samples.separateSeas
    s.Keyed ∧ ∃ catalog start, Catalog.ofFrontier s Samples.red .productionUnits = .ok catalog ∧
      openPass s Samples.red = .ok start ∧
      ∃ pass ∈ phasePasses s (.ofRules s) (catalog.land ++ catalog.air) (fun _ yard => [yard])
          [Samples.redCapital, Samples.redProvince] start Samples.planner,
        ∃ y, pass.yards.get? Samples.redCapital = some y ∧
          (pass.yards.queuedFor Samples.redCapital).length = 1 ∧
          ∃ o ∈ buyable (catalog.land ++ catalog.air) pass.ledger y.remaining pass.census,
            ∃ batch source', o.materialize .temporary Samples.red = .ok (batch, source') ∧
              (Arbiter.ofRules s).permits Samples.redCapital batch Samples.red
                (pass.yards.queuedFor Samples.redCapital) = .ok true := by
  intro s
  have hkeyed : s.Keyed := by decide +kernel
  obtain ⟨catalog, hcatalog, hread⟩ := Outcome.exists_of_toOption
    (show (Catalog.ofFrontier s Samples.red .productionUnits).toOption.map (fun catalog =>
      (openPass s Samples.red).toOption.map fun start =>
        (phasePasses s (.ofRules s) (catalog.land ++ catalog.air) (fun _ yard => [yard])
          [Samples.redCapital, Samples.redProvince] start Samples.planner).any fun pass =>
            (pass.yards.get? Samples.redCapital).any fun y =>
              decide ((pass.yards.queuedFor Samples.redCapital).length = 1) &&
                !(buyable (catalog.land ++ catalog.air) pass.ledger y.remaining
                  pass.census).isEmpty) = some (some true) by decide +kernel)
  obtain ⟨start, hstart, hread⟩ := Outcome.exists_of_toOption hread
  obtain ⟨pass, hpass, hread⟩ := List.any_eq_true.mp hread
  obtain ⟨y, hy, hread⟩ := (Option.any_eq_true _ _).mp hread
  obtain ⟨hqueued, hsome⟩ := Bool.and_eq_true_iff.mp hread
  obtain ⟨o, ho⟩ := List.exists_mem_of_ne_nil _ (by simpa using hsome)
  obtain ⟨t, owner, ht, howner, hagree⟩ := landPhase_accord hkeyed hcatalog hstart hpass hy
  have hconquered : (s.territory Samples.redCapital).toOption.map Territory.conqueredThisTurn =
      some false := by decide +kernel
  have hbanned : (s.player Samples.red).toOption.map (·.isPlacementBanned Samples.redCapital) =
      some false := by decide +kernel
  rw [ht] at hconquered
  rw [howner] at hbanned
  obtain ⟨batch, source', hmade, -, hverdict⟩ := hagree o ho .temporary
  exact ⟨hkeyed, catalog, start, hcatalog, hstart, pass, hpass, y, hy, of_decide_eq_true hqueued, o,
    ho, batch, source', hmade, hverdict.mpr ⟨Option.some.inj hconquered, Option.some.inj hbanned⟩⟩

end Planner

end Quartermaster
