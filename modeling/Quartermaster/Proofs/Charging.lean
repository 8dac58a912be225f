import Quartermaster.Proofs.Legality

/-!
# Who makes what is bought

Three tests stand between a purchase and the territory that is charged for it. Yards are opened in
territories of the player with a factory at work, or in all of them if the player may place
anywhere; land that takes pieces has not been conquered this turn; and a sea zone takes ships if
some neighbour of it is a producer, whichever that is.

The first and the last do not ask the same. Whoever may place anywhere has a yard in conquered land
too, and ships beside it are bought there on the strength of another port
(`Planner.charged_unproductive_conqueredPort`). That is the one way in which a yard that is charged
fails to be a producer (`Planner.plan_charges_producers`).
-/

namespace Quartermaster

variable {s : Snapshot} {player : PlayerId} {owner : Player} {t : Territory} {id : TerritoryId}

/-! ## Land that makes pieces -/

namespace Snapshot

/-- Land of the player where pieces can be made, conquered this turn or not: the player has a
factory at work there, or may place anywhere. -/
structure CanMake (s : Snapshot) (owner : Player) (player : PlayerId) (t : Territory) : Prop where
  land : t.isWater = false
  owned : t.isOwnedBy player = true
  equipped : owner.placesAnywhere = true ∨
    ∃ q ∈ t.stack.pieces, q.owner = player ∧ q.isTransported = false ∧
      ∃ k, s.kind q.kind = .ok k ∧ k.isFactory = true ∧ k.isSea = false

theorem produces_iff :
    s.Produces owner player t ↔ s.CanMake owner player t ∧ t.conqueredThisTurn = false :=
  ⟨fun h => ⟨⟨h.land, h.owned, h.equipped⟩, h.unconquered⟩,
    fun h => ⟨h.1.land, h.2, h.1.owned, h.1.equipped⟩⟩

/-- A factory that lets a yard be opened is at work on unconquered land of the player. -/
theorem produces_of_hasOwnedLandFactory (h : s.hasOwnedLandFactory t player = .ok true)
    (owner : Player) : s.Produces owner player t := by
  unfold hasOwnedLandFactory at h
  cases hbarred : t.isWater || t.conqueredThisTurn || !t.isOwnedBy player with
  | true =>
    rw [hbarred] at h
    cases h
  | false =>
    rw [hbarred] at h
    obtain ⟨fs, hfs, hsome⟩ := Outcome.bind_eq_ok_iff.mp h
    simp only [Bool.or_eq_false_iff, Bool.not_eq_false'] at hbarred
    obtain ⟨⟨hland, hunconquered⟩, howned⟩ := hbarred
    rw [Outcome.pure_eq_ok_iff, Bool.not_eq_true', List.isEmpty_eq_false_iff_exists_mem] at hsome
    obtain ⟨q, hq⟩ := hsome
    obtain ⟨hmem, howner, hworks, k, hk, hfactory, hdomain⟩ := (mem_factories hfs).mp hq
    rw [hland, if_neg (by decide)] at hdomain
    exact ⟨hland, hunconquered, howned, .inr ⟨q, hmem, howner, hworks, k, hk, hfactory, hdomain⟩⟩

/-- A sea zone that takes ships lies beside a producer. -/
theorem Takes.exists_producer (hs : s.Keyed) (hresolved : s.Resolved)
    (howner : s.player player = .ok owner) {zone : TerritoryId} {z : Territory} {ps : List Piece}
    (h : s.Takes player zone ps) (hz : s.territory zone = .ok z) (hwater : z.isWater = true) :
    ∃ t, s.territory t.id = .ok t ∧ z.isAdjacentTo t.id = true ∧ s.Produces owner player t := by
  obtain ⟨z', hsuits, room, hroom⟩ := h
  obtain rfl : z = z' := Except.ok.inj (hz.symm.trans hsuits.territory)
  rw [PlaceTurn.roomFor_of_water hwater, PlaceTurn.seaRoom_eq_ok_iff, hs.territory_id hz] at hroom
  obtain ⟨rooms, hrooms, hwidest⟩ := hroom
  have hmem : room ∈ rooms := (Room.widest?_eq_some hwidest).1
  obtain ⟨t, c, ht, hbeside, ⟨hproduces, -⟩, -⟩ :=
    (PlaceTurn.mem_roomsAround_iff_of_keyed hs hz hrooms).mp hmem
  have hvalue : t ∈ s.territories.values := mem_values_of_territory ht
  exact ⟨t, ht, hbeside, (isProducer_eq_true_iff hresolved howner hvalue).mp hproduces⟩

end Snapshot

namespace Planner

/-! ## Where yards are opened -/

/-- Who may not place anywhere opens yards beside factories only. -/
theorem hasOwnedLandFactory_of_yardIn? {y : Yard}
    (h : yardIn? s player false t = .ok (some y)) :
    s.hasOwnedLandFactory t player = .ok true := by
  obtain ⟨hasFactory, hfactory, h⟩ := Outcome.bind_eq_ok_iff.mp h
  cases hasFactory with
  | true => exact hfactory
  | false => cases h

/-- A yard is opened in land that makes pieces; if that was conquered this turn, the player may
place anywhere. -/
theorem canMake_of_findYards (hs : s.Keyed) {yards : Yards} {y : Yard}
    (h : findYards s player = .ok yards) (hy : yards.get? id = some y) :
    ∃ owner t, s.player player = .ok owner ∧ s.territory id = .ok t ∧
      s.CanMake owner player t ∧ (owner.placesAnywhere = true ∨ t.conqueredThisTurn = false) := by
  obtain ⟨owner, howner, h⟩ := Outcome.bind_eq_ok_iff.mp h
  rcases openYards_get? h hy with hempty | ⟨t, ht, rfl, hopen⟩
  · cases hempty
  · obtain ⟨hvalue, howned⟩ := List.mem_filter.mp ht
    have hself : s.territory t.id = .ok t := hs.territory_of_mem hvalue
    obtain ⟨hmove, -⟩ := yardIn?_eq_some hopen
    have hland : t.isWater = false := Snapshot.not_isWater_of_canMoveLandPieces hself hmove
    refine ⟨owner, t, howner, hself, ?_⟩
    cases hanywhere : owner.placesAnywhere with
    | true => exact ⟨⟨hland, howned, .inl hanywhere⟩, .inl rfl⟩
    | false =>
      rw [hanywhere] at hopen
      have hfactory := hasOwnedLandFactory_of_yardIn? hopen
      obtain ⟨hmakes, hunconquered⟩ :=
        Snapshot.produces_iff.mp (Snapshot.produces_of_hasOwnedLandFactory hfactory owner)
      exact ⟨hmakes, .inr hunconquered⟩

/-- Purchases open no yards, so what was found at the start is true of every yard of a plan. -/
theorem plan_canMake (hs : s.Keyed) {arbiter : Arbiter} {p p' : Planner} {plan : Plan} {y : Yard}
    (h : p.plan s arbiter player = (.ok plan, p')) (hy : plan.yards.get? id = some y) :
    ∃ owner t, s.player player = .ok owner ∧ s.territory id = .ok t ∧
      s.CanMake owner player t ∧ (owner.placesAnywhere = true ∨ t.conqueredThisTurn = false) := by
  obtain ⟨catalog, start, bs, last, -, hstart, hbs, hplan⟩ := plan_eq_ok h
  obtain ⟨-, -, hyards, -⟩ := openPass_eq_ok hstart
  obtain ⟨-, hlast, -⟩ := toPlan_eq_ok hplan
  rw [hlast] at hy
  obtain ⟨y₀, hy₀, -⟩ := hbs.cleared_get? hy
  exact canMake_of_findYards hs hyards hy₀

/-! ## Who is charged -/

variable {p p' : Planner} {plan : Plan} {y : Yard}

/-- Land where something waits has not been conquered this turn. -/
theorem plan_unconquered (h : p.plan s (.ofRules s) player = (.ok plan, p'))
    (hy : plan.yards.get? id = some y) (ht : s.territory id = .ok t) {q : Place}
    (hq : q ∈ y.places) (hid : q.territory = id) (hsome : q.queue ≠ []) :
    t.conqueredThisTurn = false := by
  obtain ⟨t', hsuits, -⟩ := plan_takes h hy q hq hsome
  rw [hid] at hsuits
  obtain rfl : t = t' := Except.ok.inj (ht.symm.trans hsuits.territory)
  exact hsuits.unconquered

/-- A ship is charged to the port that was conquered this turn, which is no producer. -/
theorem charged_unproductive_conqueredPort :
    let s := Samples.conqueredPort
    s.Keyed ∧ s.validate = .ok () ∧
    ∃ plan p', Samples.planner.plan s (.ofRules s) Samples.red = (.ok plan, p') ∧
      ∃ y t, plan.yards.get? Samples.redCapital = some y ∧ y.queuedCount = 1 ∧
        s.territory Samples.redCapital = .ok t ∧ s.isProducer t Samples.red = .ok false := by
  intro s
  have hkeyed : s.Keyed := by decide +kernel
  have hvalid : s.validate = .ok () := by decide +kernel
  obtain ⟨plan, p', h, hread⟩ := Outcome.exists_run_of_toOption
    (show (Samples.planner.plan s (.ofRules s) Samples.red).1.toOption.map
      (fun plan => (plan.yards.get? Samples.redCapital).map Yard.queuedCount) = some (some 1) by
        decide +kernel)
  obtain ⟨y, hy, hcount⟩ := Option.map_eq_some_iff.mp hread
  obtain ⟨t, ht, hproducer⟩ := Outcome.exists_of_toOption
    (show (s.territory Samples.redCapital).toOption.map (s.isProducer · Samples.red) =
      some (.ok false) by decide +kernel)
  exact ⟨hkeyed, hvalid, plan, p', h, y, t, hy, hcount, ht, hproducer⟩

/-- What a plan buys is charged to land of the player that can make pieces. That is a producer in
the sense of the rules, or else land conquered this turn by a player who may place anywhere, where
nothing waits but ships. And wherever ships wait, a producer lies beside the zone. -/
theorem plan_charges_producers (hs : s.Keyed) (hvalid : s.validate = .ok ())
    (h : p.plan s (.ofRules s) player = (.ok plan, p')) :
    ∃ owner, s.player player = .ok owner ∧
      ∀ id y, plan.yards.get? id = some y → ∃ t, s.territory id = .ok t ∧
        s.CanMake owner player t ∧
        (s.isProducer t player = .ok true ∧ s.Produces owner player t ∨
          t.conqueredThisTurn = true ∧ owner.placesAnywhere = true ∧
            ∀ q ∈ y.places, q.territory = id → q.queue = []) ∧
        ∀ q ∈ y.places, q.territory ≠ id → q.queue ≠ [] → ∃ z t',
          s.territory q.territory = .ok z ∧ s.territory t'.id = .ok t' ∧
          z.isAdjacentTo t'.id = true ∧ s.Produces owner player t' := by
  have hresolved : s.Resolved := Snapshot.validate_eq_ok_iff.mp hvalid
  obtain ⟨catalog, start, bs, last, -, hstart, -⟩ := plan_eq_ok h
  obtain ⟨owner, howner, -⟩ := openPass_eq_ok hstart
  refine ⟨owner, howner, ?_⟩
  intro id y hy
  obtain ⟨owner', t, howner', ht, hmakes, hconquest⟩ := plan_canMake hs h hy
  obtain rfl : owner = owner' := Except.ok.inj (howner.symm.trans howner')
  refine ⟨t, ht, hmakes, ?_, ?_⟩
  · have hvalue : t ∈ s.territories.values := Snapshot.mem_values_of_territory ht
    cases hconquered : t.conqueredThisTurn with
    | false =>
      have hproduces : s.Produces owner player t := Snapshot.produces_iff.mpr ⟨hmakes, hconquered⟩
      exact .inl ⟨(Snapshot.isProducer_eq_true_iff hresolved howner hvalue).mpr hproduces, hproduces⟩
    | true =>
      rw [hconquered] at hconquest
      refine .inr ⟨rfl, hconquest.resolve_right (by decide), ?_⟩
      intro q hq hid
      by_contra hsome
      have hunconquered := plan_unconquered h hy ht hq hid hsome
      rw [hconquered] at hunconquered
      cases hunconquered
  · intro q hq hother hsome
    obtain ⟨_, -, -, hplaces⟩ := plan_places hs h hy
    rcases hplaces q hq with hself | ⟨z, hz, hwater, -⟩
    · exact absurd hself hother
    · obtain ⟨t', ht', hbeside, hproduces⟩ :=
        (plan_takes h hy q hq hsome).exists_producer hs hresolved howner hz hwater
      exact ⟨z, t', hz, ht', hbeside, hproduces⟩

/-- On the separate seas ships are charged to the second port, which is a producer. -/
theorem plan_charges_producers_separateSeas :
    let s := Samples.separateSeas
    s.Keyed ∧ s.validate = .ok () ∧
    ∃ plan p', Samples.planner.plan s (.ofRules s) Samples.red = (.ok plan, p') ∧
      ∃ y t owner, plan.yards.get? Samples.redProvince = some y ∧ y.queuedCount = 2 ∧
        s.territory Samples.redProvince = .ok t ∧ t.conqueredThisTurn = false ∧
        s.player Samples.red = .ok owner ∧ s.isProducer t Samples.red = .ok true ∧
        s.Produces owner Samples.red t := by
  intro s
  have hkeyed : s.Keyed := by decide +kernel
  have hvalid : s.validate = .ok () := by decide +kernel
  obtain ⟨plan, p', h, hread⟩ := Outcome.exists_run_of_toOption
    (show (Samples.planner.plan s (.ofRules s) Samples.red).1.toOption.map
      (fun plan => (plan.yards.get? Samples.redProvince).map Yard.queuedCount) = some (some 2) by
        decide +kernel)
  obtain ⟨y, hy, hcount⟩ := Option.map_eq_some_iff.mp hread
  obtain ⟨owner, howner, hyards⟩ := plan_charges_producers hkeyed hvalid h
  obtain ⟨t, ht, -, hcharged, -⟩ := hyards _ y hy
  obtain ⟨t', ht', hunconquered⟩ := Outcome.exists_of_toOption
    (show (s.territory Samples.redProvince).toOption.map Territory.conqueredThisTurn =
      some false by decide +kernel)
  obtain rfl : t = t' := Except.ok.inj (ht.symm.trans ht')
  refine ⟨hkeyed, hvalid, plan, p', h, y, t, owner, hy, hcount, ht, hunconquered, howner, ?_⟩
  rcases hcharged with hproducer | ⟨hconquered, -⟩
  · exact hproducer
  · rw [hunconquered] at hconquered
    cases hconquered

end Planner

end Quartermaster
