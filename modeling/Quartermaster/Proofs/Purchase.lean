import Quartermaster.Proofs.Choice

/-!
# The purchases of a pass

A pass is told here as the list of batches that it bought. `Buys` says all that holds when one
batch is bought and what the pass is afterwards; `Bought` chains such steps. `plan_eq_ok` says
that behind every plan stands such a chain, from the opened pass to the one that the plan
reports, and `Bought.invariant` carries a property of passes along it. What is proved of plans is
proved of one step.

The loops of a planner are opened here once, one step at a time (`round_eq_ok`, `fill_succ_eq_ok`,
`fillPlaces_cons_eq_ok`, `phase_cons_eq_ok`), and what happens in them is read off these steps.

Nothing here depends on the arbiter or on how batches are chosen.
-/

namespace Quartermaster

/-- A bought batch: the yard that makes it, the place where it waits, and its pieces. -/
structure Purchase where
  yard : TerritoryId
  place : TerritoryId
  offer : Offer
  pieces : List Piece

/-- What holds when a pass buys a batch, and what the pass is afterwards. -/
structure Buys (arbiter : Arbiter) (pass : Pass) (b : Purchase) (next : Pass) : Prop where
  allowed : pass.census.allows b.offer = true
  made : ∃ source source', b.offer.materialize source pass.player = .ok (b.pieces, source')
  permitted :
    arbiter.permits b.place b.pieces pass.player (pass.yards.queuedFor b.place) = .ok true
  player : next.player = pass.player
  paid : pass.ledger.purchase b.offer = .ok next.ledger
  counted : next.census = pass.census.record b.offer.kind b.pieces.length
  queued : ∃ y y', pass.yards.get? b.yard = some y ∧ y.queue b.place b.pieces = .ok y' ∧
    next.yards = pass.yards.insert b.yard y'

/-- Batches bought one after the other, each of them eligible, and the passes before the first and
after the last. -/
inductive Bought (arbiter : Arbiter) (eligible : Purchase → Prop) :
    Pass → List Purchase → Pass → Prop
  | nil (pass : Pass) : Bought arbiter eligible pass [] pass
  | cons {pass next last : Pass} {b : Purchase} {bs : List Purchase} :
      Buys arbiter pass b next → eligible b → Bought arbiter eligible next bs last →
      Bought arbiter eligible pass (b :: bs) last

variable {arbiter : Arbiter} {eligible eligible' : Purchase → Prop} {pass next last : Pass}
  {bs bs' : List Purchase}

namespace Bought

theorem append (h : Bought arbiter eligible pass bs next)
    (h' : Bought arbiter eligible next bs' last) :
    Bought arbiter eligible pass (bs ++ bs') last := by
  induction h with
  | nil => exact h'
  | cons hbuys heligible _ ih => exact .cons hbuys heligible (ih h')

theorem imp (himp : ∀ b, eligible b → eligible' b) (h : Bought arbiter eligible pass bs last) :
    Bought arbiter eligible' pass bs last := by
  induction h with
  | nil pass => exact .nil pass
  | cons hbuys heligible _ ih => exact .cons hbuys (himp _ heligible) ih

/-- What every purchase preserves holds at the end if it held at the start. -/
theorem invariant {P : Pass → Prop} (h : Bought arbiter eligible pass bs last)
    (hstep : ∀ pass b next, Buys arbiter pass b next → eligible b → P pass → P next)
    (hpass : P pass) : P last := by
  induction h with
  | nil => exact hpass
  | cons hbuys heligible _ ih => exact ih (hstep _ _ _ hbuys heligible hpass)

theorem player_eq (h : Bought arbiter eligible pass bs last) : last.player = pass.player :=
  h.invariant (P := fun p => p.player = pass.player)
    (fun _ _ _ hbuys _ hp => hbuys.player.trans hp) rfl

end Bought

/-! ## Offers and batches -/

section

variable {territory : TerritoryId} {player : PlayerId} {already : List Piece} {offers : List Offer}
  {source source' : PieceSource} {batches : List (Offer × List Piece)}

/-- An offer is tried by making a batch of it and asking whether that may be placed. -/
theorem Arbiter.permitted_cons_eq_ok {o : Offer}
    (h : arbiter.permitted territory player already (o :: offers) source =
      (.ok batches, source')) :
    ∃ ps source₁ allowed rest, o.materialize source player = .ok (ps, source₁) ∧
      arbiter.permits territory ps player already = .ok allowed ∧
      arbiter.permitted territory player already offers source₁ = (.ok rest, source') ∧
      batches = if allowed then (o, ps) :: rest else rest := by
  rw [permitted, tryOffer] at h
  cases hmade : o.materialize source player with
  | error f => simp [hmade] at h
  | ok made =>
    obtain ⟨ps, source₁⟩ := made
    simp only [hmade] at h
    cases hallowed : arbiter.permits territory ps player already with
    | error f => simp [hallowed] at h
    | ok allowed =>
      simp only [hallowed] at h
      cases hrest : arbiter.permitted territory player already offers source₁ with
      | mk outcome source₂ =>
        cases outcome with
        | error f => simp [hrest] at h
        | ok rest =>
          simp only [hrest, Prod.mk.injEq, Except.ok.injEq] at h
          obtain ⟨rfl, rfl⟩ := h
          refine ⟨ps, source₁, allowed, rest, rfl, hallowed, hrest, ?_⟩
          cases allowed <;> rfl

theorem Arbiter.permitted_mem {batch : Offer × List Piece}
    (h : arbiter.permitted territory player already offers source = (.ok batches, source'))
    (hbatch : batch ∈ batches) :
    batch.1 ∈ offers ∧
      (∃ source source', batch.1.materialize source player = .ok (batch.2, source')) ∧
      arbiter.permits territory batch.2 player already = .ok true := by
  induction offers generalizing source batches with
  | nil =>
    obtain ⟨rfl, -⟩ : batches = [] ∧ source' = source := by
      simpa [permitted, eq_comm] using h
    cases hbatch
  | cons o offers ih =>
    obtain ⟨ps, source₁, allowed, rest, hmade, hallowed, hrest, rfl⟩ := permitted_cons_eq_ok h
    have tail : batch ∈ rest → batch.1 ∈ o :: offers ∧
        (∃ source source', batch.1.materialize source player = .ok (batch.2, source')) ∧
        arbiter.permits territory batch.2 player already = .ok true := by
      intro hmem
      obtain ⟨hoffer, hok⟩ := ih hrest hmem
      exact ⟨List.mem_cons_of_mem _ hoffer, hok⟩
    cases allowed with
    | false => exact tail hbatch
    | true =>
      rcases List.mem_cons.mp hbatch with rfl | hmem
      · exact ⟨List.mem_cons_self .., ⟨_, _, hmade⟩, hallowed⟩
      · exact tail hmem

/-- Every offer is tried, and kept with its batch if that may be placed. -/
theorem Arbiter.exists_mem_permitted {o : Offer}
    (h : arbiter.permitted territory player already offers source = (.ok batches, source'))
    (ho : o ∈ offers) :
    ∃ ps source source' allowed, o.materialize source player = .ok (ps, source') ∧
      arbiter.permits territory ps player already = .ok allowed ∧
      (allowed = true → (o, ps) ∈ batches) := by
  induction offers generalizing source batches with
  | nil => cases ho
  | cons first offers ih =>
    obtain ⟨ps, source₁, allowed, rest, hmade, hallowed, hrest, rfl⟩ := permitted_cons_eq_ok h
    rcases List.mem_cons.mp ho with rfl | hmem
    · refine ⟨ps, source, source₁, allowed, hmade, hallowed, ?_⟩
      rintro rfl
      exact List.mem_cons_self ..
    · obtain ⟨ps', source₃, source₄, allowed', hmade', hallowed', hkept⟩ := ih hrest hmem
      refine ⟨ps', source₃, source₄, allowed', hmade', hallowed', fun hyes => ?_⟩
      cases allowed with
      | false => exact hkept hyes
      | true => exact List.mem_cons_of_mem _ (hkept hyes)

end

namespace Planner

theorem mem_of_mem_buyable {offers : List Offer} {ledger : Ledger} {remaining : Capacity}
    {census : Census} {o : Offer} (h : o ∈ buyable offers ledger remaining census) :
    o ∈ offers ∧ ledger.affords o = true ∧ remaining.fits o.quantity = true ∧
      census.allows o = true := by
  simpa [buyable, List.mem_filter, and_assoc] using h

theorem not_scores_of_scored_eq_nil {role : Role} {batches : List (Offer × List Piece)}
    (h : scored role batches = []) : ∀ batch ∈ batches, ¬.zero < role.efficiency batch.1 := by
  intro batch hbatch hscore
  have hmem : (batch, role.efficiency batch.1) ∈ scored role batches :=
    List.mem_filter.mpr ⟨List.mem_map.mpr ⟨batch, hbatch, rfl⟩, decide_eq_true hscore⟩
  rw [h] at hmem
  cases hmem

theorem mem_of_mem_scored {role : Role} {batches : List (Offer × List Piece)}
    {batch : Offer × List Piece} (h : batch ∈ (scored role batches).map Prod.fst) :
    batch ∈ batches ∧ .zero < role.efficiency batch.1 := by
  obtain ⟨e, he, rfl⟩ := List.mem_map.mp h
  obtain ⟨he, hpos⟩ := List.mem_filter.mp he
  obtain ⟨b, hb, rfl⟩ := List.mem_map.mp he
  exact ⟨hb, of_decide_eq_true hpos⟩

theorem roundOffers_eq {yard : TerritoryId} {y : Yard} (hy : pass.yards.get? yard = some y)
    (offers : List Offer) :
    roundOffers yard offers pass = .ok (if y.remaining.isExhausted then []
      else buyable offers pass.ledger y.remaining pass.census) := by
  unfold roundOffers
  rw [hy]

/-- The offers tried in a round can be bought. -/
theorem mem_buyable_of_mem_roundOffers {yard : TerritoryId} {y : Yard}
    {offers candidates : List Offer} {o : Offer} (hy : pass.yards.get? yard = some y)
    (h : roundOffers yard offers pass = .ok candidates) (ho : o ∈ candidates) :
    o ∈ buyable offers pass.ledger y.remaining pass.census := by
  rw [roundOffers_eq hy, Except.ok.injEq] at h
  subst h
  split at ho
  · cases ho
  · exact ho

/-- The offers tried in a round are listed and within their ceilings. -/
theorem mem_of_mem_roundOffers {yard : TerritoryId} {offers candidates : List Offer} {o : Offer}
    (h : roundOffers yard offers pass = .ok candidates) (ho : o ∈ candidates) :
    o ∈ offers ∧ pass.census.allows o = true := by
  cases hy : pass.yards.get? yard with
  | none =>
    unfold roundOffers at h
    simp [hy] at h
  | some y =>
    obtain ⟨hoffer, -, -, hallowed⟩ := mem_of_mem_buyable (mem_buyable_of_mem_roundOffers hy h ho)
    exact ⟨hoffer, hallowed⟩

theorem buy_eq_ok {yard place : TerritoryId} {batch : Offer × List Piece}
    (h : buy yard place batch pass = .ok next) :
    next.player = pass.player ∧ pass.ledger.purchase batch.1 = .ok next.ledger ∧
      next.census = pass.census.record batch.1.kind batch.2.length ∧
      ∃ y y', pass.yards.get? yard = some y ∧ y.queue place batch.2 = .ok y' ∧
        next.yards = pass.yards.insert yard y' := by
  obtain ⟨ledger, hledger, h⟩ := Outcome.bind_eq_ok_iff.mp h
  cases hy : pass.yards.get? yard with
  | none => simp [hy, throw, throwThe, MonadExceptOf.throw] at h
  | some y =>
    simp only [hy] at h
    obtain ⟨y', hy', h⟩ := Outcome.bind_eq_ok_iff.mp h
    rw [Outcome.pure_eq_ok_iff] at h
    subst h
    exact ⟨rfl, hledger, rfl, y, y', rfl, hy', rfl⟩

/-! ## Rounds and phases -/

/-- A yard buys for defence exactly when land beside it is in enemy hands. -/
theorem roleOf_eq_ok_iff {s : Snapshot} {yard : TerritoryId} {player : PlayerId} {role : Role} :
    roleOf s yard player = .ok role ↔ ∃ around, s.neighbors yard = .ok around ∧
      role = if ∃ n ∈ around, n.isWater = false ∧ s.isEnemyTerritory n player = true then .defense
        else .attack := by
  unfold roleOf
  rw [Outcome.bind_eq_ok_iff]
  refine exists_congr fun around => and_congr_right fun _ => ?_
  have htest : (around.any fun n => !n.isWater && s.isEnemyTerritory n player) = true ↔
      ∃ n ∈ around, n.isWater = false ∧ s.isEnemyTerritory n player = true := by
    simp [List.any_eq_true]
  simp only [htest]
  split <;> rw [Outcome.pure_eq_ok_iff, eq_comm]

/-! ## Settings -/

theorem config_choose {κ : Type} (table : Selection.Table κ) (p : Planner) :
    (choose table p).2.config = p.config := by
  unfold choose
  split <;> rfl

theorem config_round (arbiter : Arbiter) (yard place : TerritoryId) (offers : List Offer)
    (role : Role) (pass : Pass) (p : Planner) :
    (round arbiter yard place offers role pass p).2.config = p.config := by
  unfold round
  cases roundOffers yard offers pass with
  | error f => rfl
  | ok candidates =>
    simp only
    cases arbiter.permitted place pass.player (pass.yards.queuedFor place) candidates p.source with
    | mk outcome source =>
      cases outcome with
      | error f => rfl
      | ok batches =>
        simp only
        split
        · rfl
        · have hchoose := config_choose (scored role batches) { p with source }
          cases hchoice : choose (scored role batches) { p with source } with
          | mk outcome p₁ =>
            rw [hchoice] at hchoose
            cases outcome <;> exact hchoose

theorem config_fill (arbiter : Arbiter) (yard place : TerritoryId) (offers : List Offer)
    (role : Role) (n : Nat) (pass : Pass) (p : Planner) :
    (fill arbiter yard place offers role n pass p).2.config = p.config := by
  induction n generalizing pass p with
  | zero => rfl
  | succ n ih =>
    have hkeeps := config_round arbiter yard place offers role pass p
    rw [fill]
    cases hround : round arbiter yard place offers role pass p with
    | mk outcome p₁ =>
      rw [hround] at hkeeps
      cases outcome with
      | error f => exact hkeeps
      | ok found =>
        cases found with
        | none => exact hkeeps
        | some next => exact (ih next p₁).trans hkeeps

theorem config_fillPlaces (arbiter : Arbiter) (yard : TerritoryId) (offers : List Offer)
    (role : Role) (places : List TerritoryId) (pass : Pass) (p : Planner) :
    (fillPlaces arbiter yard offers role places pass p).2.config = p.config := by
  induction places generalizing pass p with
  | nil => rfl
  | cons place places ih =>
    have hkeeps := config_fill arbiter yard place offers role p.config.maxRounds pass p
    rw [fillPlaces]
    cases hfill : fill arbiter yard place offers role p.config.maxRounds pass p with
    | mk outcome p₁ =>
      rw [hfill] at hkeeps
      cases outcome with
      | error f => exact hkeeps
      | ok next => exact (ih next p₁).trans hkeeps

theorem config_phase (s : Snapshot) (arbiter : Arbiter) (offers : List Offer)
    (places : Pass → TerritoryId → List TerritoryId) (yards : List TerritoryId) (pass : Pass)
    (p : Planner) :
    (phase s arbiter offers places yards pass p).2.config = p.config := by
  induction yards generalizing pass p with
  | nil => rfl
  | cons yard yards ih =>
    rw [phase]
    cases roleOf s yard pass.player with
    | error f => rfl
    | ok role =>
      have hkeeps := config_fillPlaces arbiter yard offers role (places pass yard) pass p
      simp only
      cases hfill : fillPlaces arbiter yard offers role (places pass yard) pass p with
      | mk outcome p₁ =>
        rw [hfill] at hkeeps
        cases outcome with
        | error f => exact hkeeps
        | ok next => exact (ih next p₁).trans hkeeps

/-! ## One step of each loop -/

section

variable {yard place : TerritoryId} {offers : List Offer} {role : Role} {p p' : Planner}

/-- A round that comes to an end has tried its offers. Either no batch scores and nothing is
bought, or the batch is bought that was chosen among those that score. -/
theorem round_eq_ok {found : Option Pass}
    (h : round arbiter yard place offers role pass p = (.ok found, p')) :
    ∃ candidates batches source', roundOffers yard offers pass = .ok candidates ∧
      arbiter.permitted place pass.player (pass.yards.queuedFor place) candidates p.source =
        (.ok batches, source') ∧
      (scored role batches = [] ∧ found = none ∨
        ∃ batch next, choose (scored role batches) { p with source := source' } =
            (.ok batch, p') ∧
          buy yard place batch pass = .ok next ∧ found = some next) := by
  unfold round at h
  cases hcand : roundOffers yard offers pass with
  | error f => simp [hcand] at h
  | ok candidates =>
    simp only [hcand] at h
    cases hperm : arbiter.permitted place pass.player (pass.yards.queuedFor place) candidates
        p.source with
    | mk outcome source =>
      cases outcome with
      | error f => simp [hperm] at h
      | ok batches =>
        simp only [hperm] at h
        refine ⟨candidates, batches, source, rfl, hperm, ?_⟩
        split at h
        · rename_i hempty
          simp only [Prod.mk.injEq, Except.ok.injEq] at h
          exact .inl ⟨List.isEmpty_iff.mp hempty, h.1.symm⟩
        · cases hchoice : choose (scored role batches) { p with source } with
          | mk outcome p₁ =>
            cases outcome with
            | error f => simp [hchoice] at h
            | ok batch =>
              simp only [hchoice, Prod.mk.injEq] at h
              obtain ⟨hbuy, rfl⟩ := h
              obtain ⟨next, hnext, hfound⟩ := Outcome.map_eq_ok_iff.mp hbuy
              exact .inr ⟨batch, next, rfl, hnext, hfound.symm⟩

theorem fill_succ_eq_ok {n : Nat}
    (h : fill arbiter yard place offers role (n + 1) pass p = (.ok last, p')) :
    (∃ p₁, round arbiter yard place offers role pass p = (.ok none, p₁) ∧ last = pass) ∨
      ∃ next p₁, round arbiter yard place offers role pass p = (.ok (some next), p₁) ∧
        fill arbiter yard place offers role n next p₁ = (.ok last, p') := by
  rw [fill] at h
  cases hround : round arbiter yard place offers role pass p with
  | mk outcome p₁ =>
    cases outcome with
    | error f => simp [hround] at h
    | ok found =>
      cases found with
      | none =>
        simp only [hround, Prod.mk.injEq, Except.ok.injEq] at h
        exact .inl ⟨p₁, rfl, h.1.symm⟩
      | some next =>
        simp only [hround] at h
        exact .inr ⟨next, p₁, rfl, h⟩

theorem fillPlaces_cons_eq_ok {places : List TerritoryId}
    (h : fillPlaces arbiter yard offers role (place :: places) pass p = (.ok last, p')) :
    ∃ next p₁, fill arbiter yard place offers role p.config.maxRounds pass p = (.ok next, p₁) ∧
      p₁.config = p.config ∧
      fillPlaces arbiter yard offers role places next p₁ = (.ok last, p') := by
  rw [fillPlaces] at h
  have hconfig := config_fill arbiter yard place offers role p.config.maxRounds pass p
  cases hfill : fill arbiter yard place offers role p.config.maxRounds pass p with
  | mk outcome p₁ =>
    rw [hfill] at hconfig
    cases outcome with
    | error f => simp [hfill] at h
    | ok next =>
      simp only [hfill] at h
      exact ⟨next, p₁, rfl, hconfig, h⟩

variable {s : Snapshot}

theorem phase_cons_eq_ok {places : Pass → TerritoryId → List TerritoryId}
    {yards : List TerritoryId}
    (h : phase s arbiter offers places (yard :: yards) pass p = (.ok last, p')) :
    ∃ role next p₁, roleOf s yard pass.player = .ok role ∧
      fillPlaces arbiter yard offers role (places pass yard) pass p = (.ok next, p₁) ∧
      p₁.config = p.config ∧
      phase s arbiter offers places yards next p₁ = (.ok last, p') := by
  rw [phase] at h
  cases hrole : roleOf s yard pass.player with
  | error f => simp [hrole] at h
  | ok role =>
    simp only [hrole] at h
    have hconfig := config_fillPlaces arbiter yard offers role (places pass yard) pass p
    cases hfill : fillPlaces arbiter yard offers role (places pass yard) pass p with
    | mk outcome p₁ =>
      rw [hfill] at hconfig
      cases outcome with
      | error f => simp [hfill] at h
      | ok next =>
        simp only [hfill] at h
        exact ⟨role, next, p₁, rfl, hfill, hconfig, h⟩

theorem runPhases_eq_ok {catalog : Catalog}
    (h : runPhases s arbiter catalog pass p = (.ok last, p')) :
    ∃ next p₁, phase s arbiter (catalog.land ++ catalog.air) (fun _ yard => [yard])
        pass.yards.keys pass p = (.ok next, p₁) ∧
      p₁.config = p.config ∧
      phase s arbiter catalog.sea seaZones pass.yards.keys next p₁ = (.ok last, p') := by
  unfold runPhases at h
  have hconfig := config_phase s arbiter (catalog.land ++ catalog.air) (fun _ yard => [yard])
    pass.yards.keys pass p
  cases hland : phase s arbiter (catalog.land ++ catalog.air) (fun _ yard => [yard])
      pass.yards.keys pass p with
  | mk outcome p₁ =>
    rw [hland] at hconfig
    cases outcome with
    | error f => simp [hland] at h
    | ok next =>
      simp only [hland] at h
      exact ⟨next, p₁, rfl, hconfig, h⟩

/-- A plan reports the pass that the phases end in. -/
theorem plan_run {player : PlayerId} {plan : Plan}
    (h : p.plan s arbiter player = (.ok plan, p')) :
    ∃ catalog start last p₁, Catalog.ofFrontier s player p.config.currency = .ok catalog ∧
      openPass s player = .ok start ∧ runPhases s arbiter catalog start p = (.ok last, p₁) ∧
      toPlan s last = .ok plan := by
  unfold Planner.plan at h
  split at h
  · simp at h
  · rename_i catalog start hopen
    obtain ⟨catalog', hcatalog, hopen⟩ := Outcome.bind_eq_ok_iff.mp hopen
    obtain ⟨start', hstart, hopen⟩ := Outcome.bind_eq_ok_iff.mp hopen
    simp only [Outcome.pure_eq_ok_iff, Prod.mk.injEq] at hopen
    obtain ⟨rfl, rfl⟩ := hopen
    cases hrun : runPhases s arbiter catalog' start' p with
    | mk outcome p₁ =>
      cases outcome with
      | error f => simp [hrun] at h
      | ok last =>
        simp only [hrun, Prod.mk.injEq] at h
        exact ⟨catalog', start', last, p₁, hcatalog, hstart, hrun, h.1⟩

end

/-! ## What rounds and phases buy -/

/-- Whether a batch scores in the role of the yard that makes it. -/
def Worthwhile (s : Snapshot) (player : PlayerId) (b : Purchase) : Prop :=
  ∃ role, roleOf s b.yard player = .ok role ∧ .zero < role.efficiency b.offer

/-- What a pass may buy: land and air offers for a yard's own land, ships for the sea beside it,
and only what scores in the yard's role. -/
structure Eligible (s : Snapshot) (catalog : Catalog) (player : PlayerId) (b : Purchase) :
    Prop where
  offered : b.place = b.yard ∧ b.offer ∈ catalog.land ++ catalog.air ∨
    b.place ≠ b.yard ∧ b.offer ∈ catalog.sea
  worthwhile : Worthwhile s player b

/-- The offers that are tried for a place of a yard: land and air offers for the yard's own land,
ships for any other place. -/
def offersFor (catalog : Catalog) (yard place : TerritoryId) : List Offer :=
  if place = yard then catalog.land ++ catalog.air else catalog.sea

section

variable {s : Snapshot} {catalog : Catalog} {player : PlayerId} {yard place : TerritoryId}
  {offers : List Offer} {role : Role} {p p' : Planner}

theorem offersFor_of_mem_singleton (catalog : Catalog) (h : place ∈ [yard]) :
    offersFor catalog yard place = catalog.land ++ catalog.air :=
  if_pos (List.mem_singleton.mp h)

theorem ne_of_mem_seaZones {zone : TerritoryId} (h : zone ∈ seaZones pass yard) :
    zone ≠ yard := by
  unfold seaZones at h
  split at h
  · cases h
  · obtain ⟨place, hplace, rfl⟩ := List.mem_map.mp h
    have htest := (List.mem_filter.mp hplace).2
    simp only [Bool.and_eq_true, bne_iff_ne] at htest
    exact htest.2

theorem offersFor_of_mem_seaZones (catalog : Catalog) (h : place ∈ seaZones pass yard) :
    offersFor catalog yard place = catalog.sea :=
  if_neg (ne_of_mem_seaZones h)

theorem eligible_iff {b : Purchase} :
    Eligible s catalog player b ↔
      b.offer ∈ offersFor catalog b.yard b.place ∧ Worthwhile s player b := by
  have hoffered : b.offer ∈ offersFor catalog b.yard b.place ↔
      b.place = b.yard ∧ b.offer ∈ catalog.land ++ catalog.air ∨
        b.place ≠ b.yard ∧ b.offer ∈ catalog.sea := by
    unfold offersFor
    split
    · rename_i hself
      simp [hself]
    · rename_i hother
      simp [hother]
  rw [hoffered]
  exact ⟨fun h => ⟨h.offered, h.worthwhile⟩, fun h => ⟨h.1, h.2⟩⟩

/-- Buying a batch that scores, of those that were tried in a round, is a purchase. -/
theorem buys_of_buy {candidates : List Offer} {batches : List (Offer × List Piece)}
    {batch : Offer × List Piece} {source source' : PieceSource}
    (hcand : roundOffers yard offers pass = .ok candidates)
    (hperm : arbiter.permitted place pass.player (pass.yards.queuedFor place) candidates source =
      (.ok batches, source'))
    (hscored : batch ∈ (scored role batches).map Prod.fst)
    (hbuy : buy yard place batch pass = .ok next) :
    batch.1 ∈ offers ∧ .zero < role.efficiency batch.1 ∧
      Buys arbiter pass ⟨yard, place, batch.1, batch.2⟩ next := by
  -- what was scored was permitted, and what was permitted was among the candidates
  obtain ⟨hbatch, hpos⟩ := mem_of_mem_scored hscored
  obtain ⟨hmem, hmade, hpermits⟩ := Arbiter.permitted_mem hperm hbatch
  obtain ⟨hoffer, hallowed⟩ := mem_of_mem_roundOffers hcand hmem
  obtain ⟨hplayer, hpaid, hcounted, hqueued⟩ := buy_eq_ok hbuy
  exact ⟨hoffer, hpos, hallowed, hmade, hpermits, hplayer, hpaid, hcounted, hqueued⟩

/-- A round that buys something buys one of the offers, for the place it was played for. -/
theorem round_eq_some (h : round arbiter yard place offers role pass p = (.ok (some next), p')) :
    ∃ b : Purchase, b.yard = yard ∧ b.place = place ∧ b.offer ∈ offers ∧
      .zero < role.efficiency b.offer ∧ Buys arbiter pass b next := by
  obtain ⟨candidates, batches, source', hcand, hperm, ⟨-, hnone⟩ | hbought⟩ := round_eq_ok h
  · cases hnone
  · obtain ⟨batch, next', hchoice, hbuy, hnext⟩ := hbought
    obtain rfl : next = next' := Option.some.inj hnext
    exact ⟨⟨yard, place, batch.1, batch.2⟩, rfl, rfl,
      buys_of_buy hcand hperm (choose_mem hchoice) hbuy⟩

/-- A round that buys nothing has found no batch that scores. -/
theorem round_eq_none (h : round arbiter yard place offers role pass p = (.ok none, p')) :
    ∃ candidates batches source', roundOffers yard offers pass = .ok candidates ∧
      arbiter.permitted place pass.player (pass.yards.queuedFor place) candidates p.source =
        (.ok batches, source') ∧
      ∀ batch ∈ batches, ¬.zero < role.efficiency batch.1 := by
  obtain ⟨candidates, batches, source', hcand, hperm, ⟨hempty, -⟩ | hbought⟩ := round_eq_ok h
  · exact ⟨candidates, batches, source', hcand, hperm, not_scores_of_scored_eq_nil hempty⟩
  · obtain ⟨batch, next, -, -, hsome⟩ := hbought
    cases hsome

theorem fill_bought {n : Nat}
    (h : fill arbiter yard place offers role n pass p = (.ok last, p')) :
    ∃ bs, Bought arbiter (fun b => b.yard = yard ∧ b.place = place ∧ b.offer ∈ offers ∧
      .zero < role.efficiency b.offer) pass bs last := by
  induction n generalizing pass p with
  | zero =>
    simp only [fill, Prod.mk.injEq, Except.ok.injEq] at h
    obtain ⟨rfl, -⟩ := h
    exact ⟨[], .nil pass⟩
  | succ n ih =>
    rcases fill_succ_eq_ok h with ⟨p₁, -, rfl⟩ | ⟨next, p₁, hround, hrest⟩
    · exact ⟨[], .nil last⟩
    · obtain ⟨b, hyard, hplace, hoffer, hpos, hbuys⟩ := round_eq_some hround
      obtain ⟨bs, hbs⟩ := ih hrest
      exact ⟨b :: bs, .cons hbuys ⟨hyard, hplace, hoffer, hpos⟩ hbs⟩

theorem fillPlaces_bought {places : List TerritoryId}
    (h : fillPlaces arbiter yard offers role places pass p = (.ok last, p')) :
    ∃ bs, Bought arbiter (fun b => b.yard = yard ∧ b.place ∈ places ∧ b.offer ∈ offers ∧
      .zero < role.efficiency b.offer) pass bs last := by
  induction places generalizing pass p with
  | nil =>
    simp only [fillPlaces, Prod.mk.injEq, Except.ok.injEq] at h
    obtain ⟨rfl, -⟩ := h
    exact ⟨[], .nil pass⟩
  | cons place places ih =>
    obtain ⟨next, p₁, hfill, -, hrest⟩ := fillPlaces_cons_eq_ok h
    obtain ⟨bs, hbs⟩ := fill_bought hfill
    obtain ⟨bs', hbs'⟩ := ih hrest
    refine ⟨bs ++ bs', .append (hbs.imp ?_) (hbs'.imp ?_)⟩
    · rintro b ⟨hyard, rfl, hrest⟩
      exact ⟨hyard, List.mem_cons_self .., hrest⟩
    · rintro b ⟨hyard, hplace, hrest⟩
      exact ⟨hyard, List.mem_cons_of_mem _ hplace, hrest⟩

/-- Where the offers tried for places are those for such places, what is bought is eligible. -/
theorem fillPlaces_eligible {places : List TerritoryId}
    (hplaces : ∀ place ∈ places, offersFor catalog yard place = offers)
    (hrole : roleOf s yard player = .ok role)
    (h : fillPlaces arbiter yard offers role places pass p = (.ok last, p')) :
    ∃ bs, Bought arbiter (Eligible s catalog player) pass bs last := by
  obtain ⟨bs, hbs⟩ := fillPlaces_bought h
  refine ⟨bs, hbs.imp ?_⟩
  rintro b ⟨rfl, hplace, hoffer, hpos⟩
  rw [← hplaces b.place hplace] at hoffer
  exact eligible_iff.mpr ⟨hoffer, role, hrole, hpos⟩

theorem phase_eligible {places : Pass → TerritoryId → List TerritoryId} {yards : List TerritoryId}
    (hplaces : ∀ q yard, ∀ place ∈ places q yard, offersFor catalog yard place = offers)
    (hplayer : pass.player = player)
    (h : phase s arbiter offers places yards pass p = (.ok last, p')) :
    ∃ bs, Bought arbiter (Eligible s catalog player) pass bs last := by
  induction yards generalizing pass p with
  | nil =>
    simp only [phase, Prod.mk.injEq, Except.ok.injEq] at h
    obtain ⟨rfl, -⟩ := h
    exact ⟨[], .nil pass⟩
  | cons yard yards ih =>
    obtain ⟨role, next, p₁, hrole, hfill, -, hrest⟩ := phase_cons_eq_ok h
    rw [hplayer] at hrole
    obtain ⟨bs, hbs⟩ := fillPlaces_eligible (hplaces pass yard) hrole hfill
    obtain ⟨bs', hbs'⟩ := ih (hbs.player_eq.trans hplayer) hrest
    exact ⟨bs ++ bs', hbs.append hbs'⟩

theorem runPhases_bought (hplayer : pass.player = player)
    (h : runPhases s arbiter catalog pass p = (.ok last, p')) :
    ∃ bs, Bought arbiter (Eligible s catalog player) pass bs last := by
  obtain ⟨next, p₁, hland, -, hsea⟩ := runPhases_eq_ok h
  obtain ⟨bs, hbs⟩ := phase_eligible (fun _ _ _ => offersFor_of_mem_singleton catalog) hplayer hland
  obtain ⟨bs', hbs'⟩ := phase_eligible (fun _ _ _ => offersFor_of_mem_seaZones catalog)
    (hbs.player_eq.trans hplayer) hsea
  exact ⟨bs ++ bs', hbs.append hbs'⟩

end

/-- Behind every plan stands a list of purchases that leads from the opened pass to the one
reported. -/
theorem plan_eq_ok {s : Snapshot} {player : PlayerId} {p p' : Planner} {plan : Plan}
    (h : p.plan s arbiter player = (.ok plan, p')) :
    ∃ catalog start bs last, Catalog.ofFrontier s player p.config.currency = .ok catalog ∧
      openPass s player = .ok start ∧
      Bought arbiter (Eligible s catalog player) start bs last ∧ toPlan s last = .ok plan := by
  obtain ⟨catalog, start, last, p₁, hcatalog, hstart, hrun, hplan⟩ := plan_run h
  have hplayer : start.player = player := by
    obtain ⟨yards, -, hrest⟩ := Outcome.bind_eq_ok_iff.mp hstart
    obtain ⟨_, -, hrest⟩ := Outcome.bind_eq_ok_iff.mp hrest
    rw [Outcome.pure_eq_ok_iff] at hrest
    subst hrest
    rfl
  obtain ⟨bs, hbs⟩ := runPhases_bought hplayer hrun
  exact ⟨catalog, start, bs, last, hcatalog, hstart, hbs, hplan⟩

end Planner

end Quartermaster
