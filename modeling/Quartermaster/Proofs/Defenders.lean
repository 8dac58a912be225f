import Quartermaster.Proofs.Admission
import Quartermaster.Proofs.Frontier
import Quartermaster.Samples

/-!
# Defenders

Filling a territory with its best defender. The rules are asked about one batch of each offer; one
offer is chosen, and batches of it are bought as long as the money and the capacity of the
territory last.

Money and capacity are what the loop looks at. The rest of what the rules had to say of the first
batch is true of all of them together (`maxDefenders_accepted`), but for the ceiling: a ceiling that
leaves room for one batch does not stop the second (`maxDefenders_over_ceiling`).
-/

namespace Quartermaster

variable {s : Snapshot} {arbiter : Arbiter} {player : PlayerId} {territory : TerritoryId}
  {t : Territory} {o : Offer} {offers : List Offer} {ps : List Piece}

namespace Planner

/-! ## The loop -/

section

variable {ledger : Ledger} {remaining : Capacity} {source source' : PieceSource} {n : Nat}

theorem bestDefender?_snoc (ledger : Ledger) (offers : List Offer) (o : Offer) :
    bestDefender? ledger (offers ++ [o]) =
      if (bestDefender? ledger offers).elim .zero Offer.defenseEfficiency < o.defenseEfficiency ∧
        ledger.affords o then some o else bestDefender? ledger offers := by
  unfold bestDefender?
  rw [List.foldl_append]
  rfl

theorem mem_of_bestDefender? (h : bestDefender? ledger offers = some o) : o ∈ offers := by
  induction offers using List.reverseRecOn with
  | nil => cases h
  | append_singleton offers last ih =>
    rw [bestDefender?_snoc] at h
    split at h
    · obtain rfl : last = o := Option.some.inj h
      exact List.mem_append_right _ (List.mem_singleton_self last)
    · exact List.mem_append_left _ (ih h)

/-- One turn of the loop ends it or buys a batch. -/
theorem buyRepeatedly_succ_eq_ok
    (h : buyRepeatedly o player (n + 1) ledger remaining source = (.ok ps, source')) :
    ps = [] ∨ ∃ left ledger' batch source₁ rest, remaining.consume? o.quantity = some left ∧
      ledger.purchase o = .ok ledger' ∧ o.materialize source player = .ok (batch, source₁) ∧
      buyRepeatedly o player n ledger' left source₁ = (.ok rest, source') ∧
      ps = batch ++ rest := by
  rw [buyRepeatedly] at h
  split at h
  · cases hleft : remaining.consume? o.quantity with
    | none =>
      rw [hleft] at h
      exact .inl (Except.ok.inj (congrArg Prod.fst h)).symm
    | some left =>
      simp only [hleft] at h
      cases hpaid : ledger.purchase o with
      | error fault => simp [hpaid] at h
      | ok ledger' =>
        cases hmade : o.materialize source player with
        | error fault => simp [hpaid, hmade] at h
        | ok made =>
          obtain ⟨batch, source₁⟩ := made
          simp only [hpaid, hmade] at h
          cases hrest : buyRepeatedly o player n ledger' left source₁ with
          | mk outcome source₂ =>
            cases outcome with
            | error fault => simp [hrest] at h
            | ok rest =>
              simp only [hrest, Prod.mk.injEq, Except.ok.injEq] at h
              obtain ⟨rfl, rfl⟩ := h
              exact .inr ⟨left, ledger', batch, source₁, rest, rfl, rfl, rfl, hrest, rfl⟩
  · exact .inl (Except.ok.inj (congrArg Prod.fst h)).symm

/-- All that is bought is of the one kind and fits the capacity. -/
theorem buyRepeatedly_spec
    (h : buyRepeatedly o player n ledger remaining source = (.ok ps, source')) :
    remaining.fits ps.length = true ∧ ∀ q ∈ ps, q.kind = o.kind ∧ q.owner = player := by
  have hnone : remaining.fits ([] : List Piece).length = true ∧
      ∀ q ∈ ([] : List Piece), q.kind = o.kind ∧ q.owner = player :=
    ⟨remaining.fits_zero, fun q hq => absurd hq List.not_mem_nil⟩
  induction n generalizing ledger remaining source ps with
  | zero =>
    obtain rfl : [] = ps := Except.ok.inj (congrArg Prod.fst h)
    exact hnone
  | succ n ih =>
    rcases buyRepeatedly_succ_eq_ok h with rfl | ⟨left, ledger', batch, source₁, rest, hleft, -,
      hmade, hrest, rfl⟩
    · exact hnone
    · have hzero : left.fits ([] : List Piece).length = true ∧
          ∀ q ∈ ([] : List Piece), q.kind = o.kind ∧ q.owner = player :=
        ⟨left.fits_zero, hnone.2⟩
      obtain ⟨hfits, hkinds⟩ := ih hrest hzero
      constructor
      · rw [List.length_append, Offer.length_of_materialize hmade]
        exact Capacity.fits_add_of_consume? hleft hfits
      · intro q hq
        rcases List.mem_append.mp hq with hfirst | hlater
        · exact Offer.kind_owner_of_materialize hmade hfirst
        · exact hkinds q hlater

end

/-- Behind defenders stands one offer that the rules let pass, and the loop that bought it. -/
theorem maxDefenders_eq_ok {p p' : Planner}
    (h : p.maxDefenders s arbiter player territory offers = (.ok ps, p')) :
    ∃ owner capacity batches source, s.player player = .ok owner ∧
      s.capacity territory player = .ok capacity ∧
      arbiter.permitted territory player [] offers p.source = (.ok batches, source) ∧
      (bestDefender? (.ofPlayer owner) (batches.map Prod.fst) = none ∧ ps = [] ∨
        ∃ o source', bestDefender? (.ofPlayer owner) (batches.map Prod.fst) = some o ∧
          buyRepeatedly o player (purchaseBound o (Ledger.ofPlayer owner).holdings capacity)
            (.ofPlayer owner) capacity source = (.ok ps, source')) := by
  unfold maxDefenders at h
  cases hplayer : s.player player with
  | error fault => simp [hplayer, bind, Except.bind] at h
  | ok owner =>
    cases hcapacity : s.capacity territory player with
    | error fault => simp [hplayer, hcapacity, bind, Except.bind] at h
    | ok capacity =>
      simp only [hplayer, hcapacity, bind, Except.bind, pure, Except.pure] at h
      cases hpermitted : arbiter.permitted territory player [] offers p.source with
      | mk outcome source =>
        cases outcome with
        | error fault => simp [hpermitted] at h
        | ok batches =>
          simp only [hpermitted] at h
          refine ⟨owner, capacity, batches, source, rfl, rfl, rfl, ?_⟩
          cases hbest : bestDefender? (.ofPlayer owner) (batches.map Prod.fst) with
          | none =>
            rw [hbest] at h
            exact .inl ⟨rfl, (Except.ok.inj (congrArg Prod.fst h)).symm⟩
          | some o =>
            simp only [hbest, Prod.mk.injEq] at h
            exact .inr ⟨o, _, rfl, Prod.ext h.1 rfl⟩

/-! ## What the rules say of the whole -/

/-- A ceiling does not stop the loop. A port makes five pieces, and there is money for five tanks:
two are allowed and one is on the board, so that one more may be placed. Five are bought, and the
rules refuse them. -/
theorem maxDefenders_over_ceiling :
    let s := Samples.tankPorts 5 2
    s.Keyed ∧ s.validate = .ok () ∧
    (∃ t, s.territory Samples.redCapital = .ok t ∧ t.isWater = false ∧
      t.isOwnedBy Samples.red = true) ∧
    ∃ catalog, Catalog.ofFrontier s Samples.red .productionUnits = .ok catalog ∧
    ∃ ps p', Samples.planner.maxDefenders s (.ofRules s) Samples.red Samples.redCapital
        catalog.land = (.ok ps, p') ∧
      ps.length = 5 ∧ s.countOwned Samples.red Samples.tank = 1 ∧
      PlaceTurn.check s { player := Samples.red } Samples.redCapital ps =
        .error (.buildLimitReached Samples.tank 2 1 5) := by
  intro s
  refine ⟨by decide +kernel, by decide +kernel, ?_, ?_⟩
  · obtain ⟨t, ht, hread⟩ := Outcome.exists_of_toOption
      (show (s.territory Samples.redCapital).toOption.map (fun t =>
        (t.isWater, t.isOwnedBy Samples.red)) = some (false, true) by decide +kernel)
    obtain ⟨hland, howned⟩ := Prod.mk.inj hread
    exact ⟨t, ht, hland, howned⟩
  · obtain ⟨catalog, hcatalog, hread⟩ := Outcome.exists_of_toOption
      (show (Catalog.ofFrontier s Samples.red .productionUnits).toOption.map (fun catalog =>
        (Samples.planner.maxDefenders s (.ofRules s) Samples.red Samples.redCapital
          catalog.land).1.toOption.map fun ps =>
            (ps.length, PlaceTurn.check s { player := Samples.red } Samples.redCapital ps)) =
        some (some (5, .error (.buildLimitReached Samples.tank 2 1 5))) by decide +kernel)
    obtain ⟨ps, p', hps, hread⟩ := Outcome.exists_run_of_toOption hread
    obtain ⟨hlength, hrefused⟩ := Prod.mk.inj hread
    exact ⟨catalog, hcatalog, ps, p', hps, hlength, by decide +kernel, hrefused⟩

/-- How far defenders may be placed. They are pieces of one kind, for the player, and the rules
refuse all of them together for one reason only: that with what the player has on the board they
come to more than the ceiling of the kind. -/
theorem maxDefenders_accepted {p p' : Planner} (ht : s.territory territory = .ok t)
    (hland : t.isWater = false)
    (h : p.maxDefenders s (.ofRules s) player territory offers = (.ok ps, p')) (hsome : ps ≠ []) :
    ∃ o ∈ offers, ∃ k, s.kind o.kind = .ok k ∧
      (∀ q ∈ ps, q.kind = o.kind ∧ q.owner = player) ∧
      (k.buildLimit = .unlimited ∧ PlaceTurn.check s { player } territory ps = .ok () ∨
        ∃ limit, k.buildLimit = .atMost limit ∧
          PlaceTurn.check s { player } territory ps =
            if s.countOwned player o.kind + ps.length ≤ limit then .ok ()
            else .error (.buildLimitReached o.kind limit (s.countOwned player o.kind)
              ps.length)) := by
  obtain ⟨owner, capacity, batches, source, -, hcapacity, hpermitted,
    ⟨-, hnone⟩ | ⟨o, source', hbest, hbuy⟩⟩ := maxDefenders_eq_ok h
  · exact absurd hnone hsome
  obtain ⟨⟨o, batch⟩, hbatch, rfl⟩ := List.mem_map.mp (mem_of_bestDefender? hbest)
  obtain ⟨hoffer, ⟨_, _, hmade⟩, hpermits⟩ := Arbiter.permitted_mem hpermitted hbatch
  obtain ⟨hfits, hkinds⟩ := buyRepeatedly_spec hbuy
  -- what the rules said of the first batch
  have hfirst : PlaceTurn.check s { player } territory batch = .ok () :=
    Arbiter.permits_eq_true_iff.mp hpermits
  obtain ⟨t', hsuits, room, hroom, -, -⟩ := PlaceTurn.check_eq_ok_iff.mp hfirst
  obtain rfl : t = t' := Except.ok.inj (ht.symm.trans hsuits.territory)
  obtain ⟨q, hq⟩ := List.exists_mem_of_ne_nil batch hsuits.nonempty
  obtain ⟨hkind, howner⟩ := Offer.kind_owner_of_materialize hmade hq
  obtain ⟨-, k, hk, -⟩ := hsuits.pieces q hq
  have hbuilt : k.buildLimit ≠ .forbidden := PlaceTurn.buildLimit_ne_forbidden hfirst hq hk
  rw [hkind] at hk
  -- the whole suits the land and fits it
  have hwhole : s.Suits player territory t ps := by
    refine hsuits.of_forall hsome fun r hr => ⟨q, hq, ?_, ?_⟩
    · rw [hkind, (hkinds r hr).1]
    · rw [howner, (hkinds r hr).2]
  have hfit : room.fits ps.length = true := by
    rw [PlaceTurn.roomFor_of_land hland, PlaceTurn.landRoom_eq_ok_iff] at hroom
    obtain ⟨-, c, hc, rfl⟩ := hroom
    obtain rfl : capacity = c := Except.ok.inj (hcapacity.symm.trans hc)
    rw [Room.fits_iff]
    show capacity.fits (0 + ps.length) = true
    rw [Nat.zero_add]
    exact hfits
  -- so that the ceiling of the one kind decides
  have hcheck : PlaceTurn.check s { player } territory ps =
      PlaceTurn.checkLimit s { player } o.kind ps.length :=
    PlaceTurn.check_of_forall_kind hwhole hroom hfit fun r hr => (hkinds r hr).1
  refine ⟨o, hoffer, k, hk, hkinds, ?_⟩
  rw [hcheck, PlaceTurn.checkLimit_eq hk]
  cases hlimit : k.buildLimit with
  | unlimited => exact .inl ⟨rfl, rfl⟩
  | forbidden => exact absurd hlimit hbuilt
  | atMost limit => exact .inr ⟨limit, rfl, rfl⟩

/-- With room for two tanks and a ceiling of three, one of them on the board, two tanks are bought
and may be placed. -/
theorem maxDefenders_accepted_tankPorts :
    let s := Samples.tankPorts 2 3
    ∃ t catalog ps p', s.territory Samples.redCapital = .ok t ∧ t.isWater = false ∧
      Catalog.ofFrontier s Samples.red .productionUnits = .ok catalog ∧
      Samples.planner.maxDefenders s (.ofRules s) Samples.red Samples.redCapital catalog.land =
        (.ok ps, p') ∧
      ps.length = 2 ∧
      PlaceTurn.check s { player := Samples.red } Samples.redCapital ps = .ok () := by
  intro s
  obtain ⟨t, ht, hland⟩ := Outcome.exists_of_toOption
    (show (s.territory Samples.redCapital).toOption.map Territory.isWater = some false by
      decide +kernel)
  obtain ⟨catalog, hcatalog, hread⟩ := Outcome.exists_of_toOption
    (show (Catalog.ofFrontier s Samples.red .productionUnits).toOption.map (fun catalog =>
      (catalog.land.map Offer.kind, (Samples.planner.maxDefenders s (.ofRules s) Samples.red
        Samples.redCapital catalog.land).1.toOption.map List.length)) =
      some ([Samples.tank], some 2) by decide +kernel)
  obtain ⟨hland', hread⟩ := Prod.mk.inj hread
  obtain ⟨ps, p', hps, hlength⟩ := Outcome.exists_run_of_toOption hread
  have hsome : ps ≠ [] := List.ne_nil_of_length_eq_add_one hlength
  obtain ⟨k, hk, hlimit⟩ := Outcome.exists_of_toOption
    (show (s.kind Samples.tank).toOption.map PieceKind.buildLimit = some (.atMost 3) by
      decide +kernel)
  obtain ⟨o, ho, k', hk', -, hcheck⟩ := maxDefenders_accepted ht hland hps hsome
  have hkind : o.kind = Samples.tank := by
    have hmem : o.kind ∈ catalog.land.map Offer.kind := List.mem_map_of_mem ho
    rw [hland'] at hmem
    exact List.mem_singleton.mp hmem
  rw [hkind] at hk' hcheck
  obtain rfl : k = k' := Except.ok.inj (hk.symm.trans hk')
  refine ⟨t, catalog, ps, p', ht, hland, hcatalog, hps, hlength, ?_⟩
  rcases hcheck with ⟨-, hok⟩ | ⟨limit, hceiling, hok⟩
  · exact hok
  · obtain rfl : 3 = limit := BuildLimit.atMost.inj (hlimit.symm.trans hceiling)
    have hroom : s.countOwned Samples.red Samples.tank + ps.length ≤ 3 := by
      rw [hlength]
      decide +kernel
    rw [hok, if_pos hroom]

end Planner

end Quartermaster
