import Quartermaster.Proofs.Numbering

/-!
# Ways that are barred

The rules bar a player's pieces from a territory in two ways: it is closed to everyone, or it is
among those that the player's pieces may not go into. Whether land pieces could move in is a
question that asks about both. Move options ask less: what a domain enters depends on no player,
and for ships not on whether the water is closed. So plans do offer ways that are barred
(`plan_ignores_bars`), and `plan_offers_barred_iff` says which.
-/

namespace Quartermaster

/-- Only ships go into what is closed. -/
theorem Domain.Enters.eq_sea {domain : Domain} {n : Territory} (h : domain.Enters n)
    (hclosed : n.isImpassable = true) : domain = .sea := by
  cases h with
  | sea => rfl
  | land _ hopen | air hopen => exact absurd (hclosed.symm.trans hopen) Bool.noConfusion

namespace Snapshot

variable {s : Snapshot} {owner : Player} {n : Territory} {here d : TerritoryId}

/-- The rules bar a player's pieces from a territory. -/
inductive Bars (s : Snapshot) (owner : Player) (d : TerritoryId) : Prop
  | closed {t : Territory} (ht : s.territory d = .ok t) (hclosed : t.isImpassable = true)
  | banned (hbanned : owner.isMovementBanned d = true)

theorem Keyed.territory_of_beside (hs : s.Keyed) (h : s.Beside here n) :
    s.territory n.id = .ok n := by
  obtain ⟨-, id, -, -, hn⟩ := h
  rwa [hs.territory_id hn]

theorem Keyed.bars_iff (hs : s.Keyed) (h : s.Beside here n) :
    s.Bars owner n.id ↔ owner.isMovementBanned n.id = true ∨ n.isImpassable = true := by
  have hn := hs.territory_of_beside h
  constructor
  · rintro (⟨ht, hclosed⟩ | hbanned)
    · obtain rfl := Except.ok.inj (hn.symm.trans ht)
      exact .inr hclosed
    · exact .inl hbanned
  · rintro (hbanned | hclosed)
    · exact .banned hbanned
    · exact .closed hn hclosed

/-- Where a recruit goes although it is barred: into what the player is banned from as into
anything else, and with a ship into closed waters. -/
theorem Keyed.reaches_barred_iff (hs : s.Keyed) {r : Recruit} (hd : d ≠ r.place) :
    s.Reaches r d ∧ s.Bars owner d ↔
      ∃ n k, s.Beside r.place n ∧ n.id = d ∧ s.kind r.piece.kind = .ok k ∧ k.domain.Enters n ∧
        (owner.isMovementBanned d = true ∨ k.domain = .sea ∧ n.isImpassable = true) := by
  constructor
  · rintro ⟨hhere | ⟨n, k, hn, rfl, hk, henters⟩, hbars⟩
    · exact absurd hhere hd
    · refine ⟨n, k, hn, rfl, hk, henters, ?_⟩
      exact ((hs.bars_iff hn).mp hbars).imp_right fun hclosed => ⟨henters.eq_sea hclosed, hclosed⟩
  · rintro ⟨n, k, hn, rfl, hk, henters, hbars⟩
    exact ⟨.inr ⟨n, k, hn, rfl, hk, henters⟩,
      (hs.bars_iff hn).mpr (hbars.imp_right And.right)⟩

end Snapshot

namespace Planner

variable {s : Snapshot} {arbiter : Arbiter} {player : PlayerId} {p p' : Planner} {plan : Plan}

/-- Each set of destinations in a plan is that of a recruit. Apart from where the recruit waits, the
barred territories in it are those beside it that its domain enters and that the player is banned
from, and, if it is a ship, the closed waters beside it. -/
theorem plan_offers_barred_iff (hs : s.Keyed) (h : p.plan s arbiter player = (.ok plan, p')) :
    ∃ owner, s.player player = .ok owner ∧ ∀ id ds,
      (plan.moveOptions.moves.get? id = some ds ∨
        plan.moveOptions.transportMoves.get? id = some ds) →
      ∃ r ∈ plan.yards.recruits, r.piece.id = id ∧ ∀ d, d ≠ r.place →
        (d ∈ ds.toList ∧ s.Bars owner d ↔
          ∃ n k, s.Beside r.place n ∧ n.id = d ∧ s.kind r.piece.kind = .ok k ∧
            k.domain.Enters n ∧
            (owner.isMovementBanned d = true ∨ k.domain = .sea ∧ n.isImpassable = true)) := by
  obtain ⟨-, start, -, -, -, hstart, -⟩ := plan_eq_ok h
  obtain ⟨owner, howner, -⟩ := openPass_eq_ok hstart
  refine ⟨owner, howner, fun id ds hget => ?_⟩
  obtain ⟨r, hr, hid, hds⟩ := (plan_describes h).exists_of_get? hget
  refine ⟨r, hr, hid, fun d hd => ?_⟩
  rw [hds]
  exact hs.reaches_barred_iff hd

/-- Red's pieces may not go into its own province, and nobody's into the east sea. -/
theorem bars_barredWays :
    let s := Samples.barredWays
    ∃ owner, s.player Samples.red = .ok owner ∧ s.Bars owner Samples.redProvince ∧
      s.Bars owner Samples.eastSea ∧ owner.isMovementBanned Samples.eastSea = false := by
  intro s
  obtain ⟨owner, howner, hbans⟩ := Outcome.exists_of_toOption
    (show (s.player Samples.red).toOption.map (fun owner =>
      (owner.isMovementBanned Samples.redProvince, owner.isMovementBanned Samples.eastSea)) =
        some (true, false) by decide +kernel)
  obtain ⟨t, ht, hclosed⟩ := Outcome.exists_of_toOption
    (show (s.territory Samples.eastSea).toOption.map Territory.isImpassable = some true by
      decide +kernel)
  obtain ⟨hbanned, hfree⟩ := Prod.mk.inj hbans
  exact ⟨owner, howner, .banned hbanned, .closed ht hclosed, hfree⟩

/-- The second piece bought is offered the east sea: it is a ship, and that sea is closed. -/
theorem plan_offers_barred_iff_barredWays :
    let s := Samples.barredWays
    s.Keyed ∧ ∃ plan p', Samples.planner.plan s (.ofRules s) Samples.red = (.ok plan, p') ∧
      ∃ r ∈ plan.yards.recruits, r.piece.id = ⟨PieceId.temporaryBase + 1⟩ ∧
        ∃ n k, s.Beside r.place n ∧ n.id = Samples.eastSea ∧ s.kind r.piece.kind = .ok k ∧
          k.domain = .sea ∧ n.isImpassable = true := by
  intro s
  have hkeyed : s.Keyed := by decide +kernel
  obtain ⟨plan, p', hplan, hread⟩ := Outcome.exists_run_of_toOption
    (show (Samples.planner.plan s (.ofRules s) Samples.red).1.toOption.map (fun plan =>
      ((plan.moveOptions.moves.get? ⟨PieceId.temporaryBase + 1⟩).map SortedSet.toList,
        plan.yards.recruits.all fun r => r.place != Samples.eastSea)) =
          some (some [Samples.westSea, Samples.eastSea], true) by decide +kernel)
  obtain ⟨hds, haway⟩ := Prod.mk.inj hread
  obtain ⟨ds, hget, hds⟩ := Option.map_eq_some_iff.mp hds
  obtain ⟨owner, howner, hall⟩ := plan_offers_barred_iff hkeyed hplan
  obtain ⟨r, hr, hid, hoffers⟩ := hall _ ds (.inl hget)
  obtain ⟨red, hred, -, hbars, hfree⟩ := bars_barredWays
  obtain rfl := Except.ok.inj (howner.symm.trans hred)
  have hmem : Samples.eastSea ∈ ds.toList := by
    rw [hds]
    decide
  have hplace : Samples.eastSea ≠ r.place := (bne_iff_ne.mp (List.all_eq_true.mp haway r hr)).symm
  obtain ⟨n, k, hn, hnid, hk, -, hbanned | ⟨hsea, hclosed⟩⟩ := (hoffers _ hplace).mp ⟨hmem, hbars⟩
  · exact absurd (hfree.symm.trans hbanned) Bool.noConfusion
  · exact ⟨hkeyed, plan, p', hplan, r, hr, hid, n, k, hn, hnid, hk, hsea, hclosed⟩

/-- Red buys an infantry for its capital and a destroyer for the west sea. The one is offered the
province that Red's pieces may not go into, the other the east sea, which is closed to all. The map
passes its checks. -/
theorem plan_ignores_bars :
    let s := Samples.barredWays
    s.Keyed ∧ s.validate = .ok () ∧ ∃ owner plan p', s.player Samples.red = .ok owner ∧
      Samples.planner.plan s (.ofRules s) Samples.red = (.ok plan, p') ∧
      s.Bars owner Samples.redProvince ∧ s.Bars owner Samples.eastSea ∧
      plan.yards.recruits.map Recruit.place = [Samples.redCapital, Samples.westSea] ∧
      plan.yards.recruits.map (fun r => (plan.moveOptions.moves.get? r.piece.id).map
        SortedSet.toList) = [some [Samples.redCapital, Samples.redProvince],
          some [Samples.westSea, Samples.eastSea]] := by
  intro s
  have hkeyed : s.Keyed := by decide +kernel
  have hvalid : s.validate = .ok () := by decide +kernel
  obtain ⟨owner, howner, hprovince, hsea, -⟩ := bars_barredWays
  obtain ⟨plan, p', hplan, hread⟩ := Outcome.exists_run_of_toOption
    (show (Samples.planner.plan s (.ofRules s) Samples.red).1.toOption.map (fun plan =>
      (plan.yards.recruits.map Recruit.place, plan.yards.recruits.map fun r =>
        (plan.moveOptions.moves.get? r.piece.id).map SortedSet.toList)) =
      some ([Samples.redCapital, Samples.westSea], [some [Samples.redCapital, Samples.redProvince],
        some [Samples.westSea, Samples.eastSea]]) by decide +kernel)
  obtain ⟨hplaces, hoffers⟩ := Prod.mk.inj hread
  exact ⟨hkeyed, hvalid, owner, plan, p', howner, hplan, hprovince, hsea, hplaces, hoffers⟩

end Planner

end Quartermaster
