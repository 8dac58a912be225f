import Quartermaster.Proofs.Antitone
import Quartermaster.Proofs.Budget
import Quartermaster.Proofs.Ceiling

/-!
# Saturated plans

Where no rule pays its buyer, a plan leaves nothing worth buying undone. A purchase only takes away
from what can be bought (`CanBuy.of_buys`): there is less money, less capacity and less room under
the ceilings, and the rules accept less. So what a fill could not buy any more when it ended cannot
be bought when the pass is over. And a fill ends for no other reason: each batch that scores has a
price in the currency of the scores, so the money runs out before the rounds do
(`fill_saturated`).
-/

namespace Quartermaster

variable {s : Snapshot} {player : PlayerId} {owner : Player} {currency : ResourceId}
  {catalog : Catalog} {arbiter : Arbiter} {o : Offer}

/-! ## What can still be bought -/

/-- A batch of an offer could be bought for a place of a yard now. -/
structure Pass.CanBuy (arbiter : Arbiter) (pass : Pass) (yard place : TerritoryId) (o : Offer) :
    Prop where
  affordable : pass.ledger.affords o = true
  fits : ∃ y, pass.yards.get? yard = some y ∧ y.remaining.fits o.quantity = true
  allowed : pass.census.allows o = true
  permitted : ∃ ps source source', o.materialize source pass.player = .ok (ps, source') ∧
    arbiter.permits place ps pass.player (pass.yards.queuedFor place) = .ok true

/-- What can be bought is among the offers that a round tries. -/
theorem Pass.CanBuy.mem_roundOffers {pass : Pass} {yard place : TerritoryId}
    (h : pass.CanBuy arbiter yard place o) {offers candidates : List Offer} (ho : o ∈ offers)
    {source source' : PieceSource} {ps : List Piece}
    (hmade : o.materialize source pass.player = .ok (ps, source'))
    (hcandidates : Planner.roundOffers yard offers pass = .ok candidates) : o ∈ candidates := by
  obtain ⟨y, hy, hfits⟩ := h.fits
  obtain ⟨hquantity, -⟩ := Offer.materialize_eq_ok_iff.mp hmade
  have hopen : y.remaining.isExhausted = false := by
    unfold Capacity.isExhausted
    rw [decide_eq_false_iff_not]
    intro hfull
    rw [hfull, Capacity.fits, decide_eq_true_iff] at hfits
    omega
  rw [Planner.roundOffers_eq hy, hopen, Except.ok.injEq] at hcandidates
  rw [← hcandidates]
  refine List.mem_filter.mpr ⟨ho, ?_⟩
  rw [h.affordable, hfits, h.allowed]
  rfl

/-- What can be bought after a purchase could be bought before it. -/
theorem Pass.CanBuy.of_buys {pass next : Pass} {b : Purchase} {yard place : TerritoryId}
    (h : Buys (.ofRules s) pass b next) (hcosts : ∀ c, 0 ≤ b.offer.costs.get c)
    (hbound : 2 * (pass.yards.queuedFor place).length + o.quantity ≤ Room.boundless)
    (ho : next.CanBuy (.ofRules s) yard place o) : pass.CanBuy (.ofRules s) yard place o := by
  constructor
  · exact Ledger.affords_of_purchase h.paid hcosts ho.affordable
  · obtain ⟨y, hy, hfits⟩ := ho.fits
    obtain ⟨z, z', hz, hqueue, hnext⟩ := h.queued
    rw [hnext] at hy
    by_cases hyard : yard = b.yard
    · subst hyard
      rw [SortedMap.get?_insert_self] at hy
      obtain rfl : z' = y := Option.some.inj hy
      obtain ⟨-, -, left, hleft, rfl⟩ := Yard.queue_eq_ok_iff.mp hqueue
      exact ⟨z, hz, Capacity.fits_of_consume? hleft hfits⟩
    · rw [SortedMap.get?_insert_of_ne _ _ hyard] at hy
      exact ⟨y, hy, hfits⟩
  · have hallowed := ho.allowed
    rw [h.counted] at hallowed
    exact Census.allows_of_record hallowed
  · obtain ⟨ps, source, source', hmade, hpermits⟩ := ho.permitted
    rw [h.player] at hmade hpermits
    refine ⟨ps, source, source', hmade, ?_⟩
    rw [← Offer.length_of_materialize hmade] at hbound
    exact Arbiter.permits_mono (.of_sublist (h.queuedFor_sublist place))
      (Offer.ne_nil_of_materialize hmade) (.of_sublist (List.Sublist.refl ps)) hbound hpermits

/-- With so many pieces of its kind there, the ceiling leaves room for a batch of an offer. -/
def Offer.FitsCeiling (o : Offer) (owned : Nat) : Prop :=
  match o.buildLimit with
  | .unlimited => True
  | .forbidden => False
  | .atMost limit => owned + o.quantity ≤ limit

theorem Census.allows_of_fitsCeiling {c : Census} (h : o.FitsCeiling (c.built o.kind)) :
    c.allows o = true := by
  rw [allows_iff]
  unfold Offer.FitsCeiling at h
  cases hlimit : o.buildLimit with
  | unlimited => exact .inl rfl
  | forbidden =>
    rw [hlimit] at h
    exact h.elim
  | atMost limit =>
    rw [hlimit] at h
    refine .inr ⟨limit, rfl, ?_⟩
    dsimp only at h
    omega

/-- None of the offers that score in a role can be bought for a place of a yard. -/
def Pass.Saturated (arbiter : Arbiter) (pass : Pass) (yard place : TerritoryId)
    (offers : List Offer) (role : Role) : Prop :=
  ∀ o ∈ offers, .zero < role.efficiency o → ¬pass.CanBuy arbiter yard place o

/-! ## What a pass can hold -/

namespace Planner

variable {pass next last : Pass} {yard place : TerritoryId} {role : Role}

section

variable (hsized : s.Sized) (hplayer : s.player player = .ok owner) (hpriced : owner.Priced)
  (hcatalog : Catalog.ofFrontier s player currency = .ok catalog)

include hplayer hpriced hcatalog

theorem Eligible.price_pos {b : Purchase} (h : Eligible s catalog player b) :
    0 < b.offer.costs.get currency := by
  obtain ⟨role, -, hscore⟩ := h.worthwhile
  exact Catalog.price_pos hplayer hpriced hcatalog h.mem_catalog hscore

theorem Reached.remainingOf_le (h : Reached s arbiter catalog player pass) :
    pass.ledger.remainingOf currency ≤ owner.holdings.get currency := by
  have hsolvent := h.solvent hplayer
  have hsum := hsolvent.conserved currency
  have hspent := h.spent_nonneg hplayer hpriced hcatalog currency
  unfold Ledger.remainingOf
  rw [hsolvent.unreserved, Holdings.get_empty]
  omega

include hsized

/-- Each unit of the currency that is spent buys at most as many pieces as a batch can have. -/
theorem Reached.length_queued_le (h : Reached s arbiter catalog player pass) :
    (pass.yards.queued.length : Int) ≤ wordValues 32 * pass.ledger.spent.get currency := by
  obtain ⟨start, bs, hstart, hbs⟩ := h
  refine hbs.invariant (P := fun pass =>
    (pass.yards.queued.length : Int) ≤ wordValues 32 * pass.ledger.spent.get currency) ?_ ?_
  · intro pass b next hbuys heligible hpass
    have hprice := heligible.price_pos hplayer hpriced hcatalog
    have hquantity := Catalog.quantity_lt hsized hcatalog heligible.mem_catalog
    have hlength : next.yards.queued.length = pass.yards.queued.length + b.offer.quantity := by
      rw [hbuys.queued_perm.length_eq, List.length_append, hbuys.length_pieces]
    have hspent := hbuys.get_spent currency
    have hword : wordValues 32 = 4294967296 := rfl
    rw [hword] at hpass hquantity ⊢
    omega
  · obtain ⟨p, -, -, -, hledger, -⟩ := openPass_eq_ok hstart
    rw [queued_eq_nil_of_openPass hstart, hledger]
    exact Int.le_of_eq rfl

/-- What waits in a place stays far below what a room without limit counts for. -/
theorem Reached.queuedFor_bound (h : Reached s arbiter catalog player pass)
    (ho : o ∈ catalog.toList) (place : TerritoryId) :
    2 * (pass.yards.queuedFor place).length + o.quantity ≤ Room.boundless := by
  have hlength := h.length_queued_le hsized hplayer hpriced hcatalog
  have hspent := Holdings.get_le_of_covers (h.solvent hplayer).covers_spent currency
  have hplace := (pass.yards.queuedFor_sublist place).length_le
  have hquantity := Catalog.quantity_lt hsized hcatalog ho
  have hheld := hsized.get_lt hplayer currency
  have hword : wordValues 32 = 4294967296 := rfl
  have hsign : wordValues 31 = 2147483648 := rfl
  have hboundless : Room.boundless = 18446744073709551615 := rfl
  rw [hword] at hlength hquantity
  rw [hsign] at hheld
  rw [hboundless]
  omega

/-- What cannot be bought in a pass cannot be bought after it. -/
theorem Reached.canBuy_of_bought {bs : List Purchase}
    (h : Reached s (.ofRules s) catalog player pass)
    (hbs : Bought (.ofRules s) (Eligible s catalog player) pass bs last)
    (ho : o ∈ catalog.toList) (hlast : last.CanBuy (.ofRules s) yard place o) :
    pass.CanBuy (.ofRules s) yard place o := by
  induction hbs with
  | nil pass => exact hlast
  | @cons pass next last b bs hbuys heligible _ ih =>
    have hnext : Reached s (.ofRules s) catalog player next :=
      h.bought (.cons hbuys heligible (.nil next)) fun _ hb => hb
    refine (ih hnext hlast).of_buys hbuys ?_ ?_
    · exact Catalog.costs_nonneg hplayer hpriced hcatalog heligible.mem_catalog
    · exact h.queuedFor_bound hsized hplayer hpriced hcatalog ho place

/-! ## Rounds -/

/-- A round that buys nothing has nothing to buy that scores. -/
theorem Reached.not_canBuy_of_round (h : Reached s (.ofRules s) catalog player pass)
    {offers : List Offer} {p p' : Planner}
    (hround : round (.ofRules s) yard place offers role pass p = (.ok none, p'))
    (ho : o ∈ offers) (hlisted : o ∈ catalog.toList) (hscore : .zero < role.efficiency o) :
    ¬pass.CanBuy (.ofRules s) yard place o := by
  intro hcan
  obtain ⟨candidates, batches, source', hcandidates, hpermitted, hnone⟩ := round_eq_none hround
  obtain ⟨ps, source, _, hmade, hpermits⟩ := hcan.permitted
  have hsome : ps ≠ [] := Offer.ne_nil_of_materialize hmade
  have hcandidate : o ∈ candidates := hcan.mem_roundOffers ho hmade hcandidates
  obtain ⟨ps', source₁, _, allowed, hmade', hallowed, hkept⟩ :=
    Arbiter.exists_mem_permitted hpermitted hcandidate
  -- the batch that was tried differs in its numbers only from the one that may be placed
  have hbound := h.queuedFor_bound hsized hplayer hpriced hcatalog hlisted place
  rw [← Offer.length_of_materialize hmade'] at hbound
  have hsame : (Arbiter.ofRules s).permits place ps' pass.player
      (pass.yards.queuedFor place) = .ok true :=
    Arbiter.permits_mono (.of_sublist (List.Sublist.refl _)) (Offer.ne_nil_of_materialize hmade')
      (Offer.among_of_materialize hmade' hmade) hbound hpermits
  rw [hsame, Except.ok.injEq] at hallowed
  exact hnone (o, ps') (hkept hallowed.symm) hscore

/-- A fill ends when nothing that scores can be bought, or else it has had no more rounds than
there was money. -/
theorem fill_saturated (h : Reached s (.ofRules s) catalog player pass)
    (hrole : roleOf s yard player = .ok role) {n : Nat} {p p' : Planner}
    (hfill : fill (.ofRules s) yard place (offersFor catalog yard place) role n pass p =
      (.ok last, p')) :
    last.Saturated (.ofRules s) yard place (offersFor catalog yard place) role ∨
      (n : Int) ≤ max 0 (pass.ledger.remainingOf currency) := by
  induction n generalizing pass p with
  | zero => exact .inr (Int.le_max_left 0 _)
  | succ n ih =>
    rcases fill_succ_eq_ok hfill with ⟨p₁, hround, rfl⟩ | ⟨next, p₁, hround, hrest⟩
    · refine .inl fun o ho hscore => ?_
      exact h.not_canBuy_of_round hsized hplayer hpriced hcatalog hround ho
        (mem_catalog_of_mem_offersFor ho) hscore
    · obtain ⟨b, rfl, rfl, hoffer, hscore, hbuys⟩ := round_eq_some hround
      have heligible : Eligible s catalog player b :=
        eligible_iff.mpr ⟨hoffer, role, hrole, hscore⟩
      have hnext := h.bought (.cons hbuys heligible (.nil next)) fun _ hb => hb
      have hprice := heligible.price_pos hplayer hpriced hcatalog
      obtain ⟨hcovered, hleft⟩ := Ledger.remainingOf_purchase hbuys.paid hprice
      -- the round has cost at least one unit, so one round fewer is paid for by what is left
      rcases ih hnext hrest with hsaturated | hrounds
      · exact .inl hsaturated
      · right
        omega

/-! ## Stretches of a pass -/

/-- What no purchase could add to once, none can add to later. -/
theorem Reached.saturated_of_bought {bs : List Purchase} {offers : List Offer}
    (h : Reached s (.ofRules s) catalog player pass)
    (hbs : Bought (.ofRules s) (Eligible s catalog player) pass bs last)
    (hoffers : offersFor catalog yard place = offers)
    (hpass : pass.Saturated (.ofRules s) yard place offers role) :
    last.Saturated (.ofRules s) yard place offers role := by
  intro o ho hscore hlast
  have hlisted : o ∈ catalog.toList := by
    rw [← hoffers] at ho
    exact mem_catalog_of_mem_offersFor ho
  exact hpass o ho hscore
    (h.canBuy_of_bought hsized hplayer hpriced hcatalog hbs hlisted hlast)

/-- Where there are more rounds than money, each place that was filled is saturated. -/
theorem fillPlaces_saturated (h : Reached s (.ofRules s) catalog player pass)
    (hrole : roleOf s yard player = .ok role) {places : List TerritoryId} {offers : List Offer}
    (hplaces : ∀ place ∈ places, offersFor catalog yard place = offers) {p p' : Planner}
    (hrounds : max 0 (owner.holdings.get currency) < p.config.maxRounds)
    (hfill : fillPlaces (.ofRules s) yard offers role places pass p = (.ok last, p')) :
    ∀ place ∈ places, last.Saturated (.ofRules s) yard place offers role := by
  induction places generalizing pass p with
  | nil => exact fun place hplace => absurd hplace List.not_mem_nil
  | cons place places ih =>
    obtain ⟨hhere, hrest⟩ := List.forall_mem_cons.mp hplaces
    obtain ⟨next, p₁, hone, hconfig, hothers⟩ := fillPlaces_cons_eq_ok hfill
    have hnext : Reached s (.ofRules s) catalog player next := by
      obtain ⟨bs, hbs⟩ := fill_bought hone
      refine h.bought hbs ?_
      rintro b ⟨rfl, rfl, hoffer, hscore⟩
      rw [← hhere] at hoffer
      exact eligible_iff.mpr ⟨hoffer, role, hrole, hscore⟩
    have hsaturated : next.Saturated (.ofRules s) yard place offers role := by
      rw [← hhere] at hone ⊢
      refine (fill_saturated hsized hplayer hpriced hcatalog h hrole hone).resolve_right ?_
      have hmoney := h.remainingOf_le hplayer hpriced hcatalog
      omega
    obtain ⟨bs, hbs⟩ := fillPlaces_eligible hrest hrole hothers
    rw [← hconfig] at hrounds
    rw [List.forall_mem_cons]
    exact ⟨hnext.saturated_of_bought hsized hplayer hpriced hcatalog hbs hhere hsaturated,
      ih hnext hrest hrounds hothers⟩

/-- After a phase each place that it names for a yard is saturated, if it names the same places
whatever the pass has bought so far. -/
theorem phase_saturated (h : Reached s (.ofRules s) catalog player pass) {offers : List Offer}
    {places : Pass → TerritoryId → List TerritoryId} {zones : TerritoryId → List TerritoryId}
    {yards : List TerritoryId}
    (hzones : ∀ q, Reached s (.ofRules s) catalog player q → ∀ yard, places q yard = zones yard)
    (hplaces : ∀ q yard, ∀ place ∈ places q yard, offersFor catalog yard place = offers)
    {p p' : Planner} (hrounds : max 0 (owner.holdings.get currency) < p.config.maxRounds)
    (hphase : phase s (.ofRules s) offers places yards pass p = (.ok last, p')) :
    ∀ yard ∈ yards, ∃ role, roleOf s yard player = .ok role ∧ ∀ place ∈ zones yard,
      last.Saturated (.ofRules s) yard place offers role := by
  induction yards generalizing pass p with
  | nil => exact fun yard hyard => absurd hyard List.not_mem_nil
  | cons yard yards ih =>
    obtain ⟨role, next, p₁, hrole, hone, hconfig, hothers⟩ := phase_cons_eq_ok hphase
    rw [h.player_eq] at hrole
    have hhere := hplaces pass yard
    obtain ⟨bs, hbs⟩ := fillPlaces_eligible hhere hrole hone
    have hnext := h.bought hbs fun _ hb => hb
    have hsaturated := fillPlaces_saturated hsized hplayer hpriced hcatalog h hrole hhere hrounds
      hone
    obtain ⟨bs', hbs'⟩ := phase_eligible hplaces hnext.player_eq hothers
    rw [← hconfig] at hrounds
    rw [List.forall_mem_cons]
    refine ⟨⟨role, hrole, fun place hplace => ?_⟩, ih hnext hrounds hothers⟩
    rw [← hzones pass h] at hplace
    exact hnext.saturated_of_bought hsized hplayer hpriced hcatalog hbs' (hhere place hplace)
      (hsaturated place hplace)

theorem runPhases_saturated {start : Pass} (hstart : openPass s player = .ok start)
    {p p' : Planner} (hrounds : max 0 (owner.holdings.get currency) < p.config.maxRounds)
    (hrun : runPhases s (.ofRules s) catalog start p = (.ok last, p')) :
    Reached s (.ofRules s) catalog player last ∧
      ∀ yard ∈ start.yards.keys, ∃ role, roleOf s yard player = .ok role ∧
        ∀ place ∈ yard :: seaZones start yard,
          last.Saturated (.ofRules s) yard place (offersFor catalog yard place) role := by
  have h : Reached s (.ofRules s) catalog player start := .of_openPass hstart
  have hself : ∀ q, Reached s (.ofRules s) catalog player q → ∀ yard,
      (fun (_ : Pass) (yard : TerritoryId) => [yard]) q yard = [yard] := fun _ _ _ => rfl
  have hzones : ∀ q, Reached s (.ofRules s) catalog player q → ∀ yard,
      seaZones q yard = seaZones start yard := by
    intro q hq yard
    rw [seaZones_eq, hq.cleared_yards hstart, ← seaZones_eq]
  obtain ⟨next, p₁, hland, hconfig, hsea⟩ := runPhases_eq_ok hrun
  obtain ⟨bs, hbs⟩ := phase_eligible (fun _ _ _ => offersFor_of_mem_singleton catalog)
    h.player_eq hland
  have hnext := h.bought hbs fun _ hb => hb
  obtain ⟨bs', hbs'⟩ := phase_eligible (fun _ _ _ => offersFor_of_mem_seaZones catalog)
    hnext.player_eq hsea
  have hhome := phase_saturated hsized hplayer hpriced hcatalog h hself
    (fun _ _ _ => offersFor_of_mem_singleton catalog) hrounds hland
  rw [← hconfig] at hrounds
  have hships := phase_saturated hsized hplayer hpriced hcatalog hnext hzones
    (fun _ _ _ => offersFor_of_mem_seaZones catalog) hrounds hsea
  refine ⟨hnext.bought hbs' fun _ hb => hb, ?_⟩
  intro yard hyard
  obtain ⟨role, hrole, hown⟩ := hhome yard hyard
  obtain ⟨role', hrole', hbeside⟩ := hships yard hyard
  obtain rfl : role = role' := Except.ok.inj (hrole.symm.trans hrole')
  refine ⟨role, hrole, ?_⟩
  rw [List.forall_mem_cons]
  constructor
  · -- the land phase left nothing for the yard itself, and the sea phase took only more away
    have hoffers := offersFor_of_mem_singleton catalog (List.mem_singleton_self yard)
    rw [hoffers]
    exact hnext.saturated_of_bought hsized hplayer hpriced hcatalog hbs' hoffers
      (hown yard (List.mem_singleton_self yard))
  · intro zone hzone
    rw [offersFor_of_mem_seaZones catalog hzone]
    exact hbeside zone hzone

end

/-! ## Whole plans -/

/-- Each place of a yard is its own land or one of the sea zones that it feeds. -/
theorem Reached.mem_seaZones (h : Reached s arbiter catalog player pass) {y : Yard}
    (hy : pass.yards.get? yard = some y) {q : Place} (hq : q ∈ y.places) :
    q.territory ∈ yard :: seaZones pass yard := by
  obtain ⟨t, ht, hland, hnew⟩ := h.exists_land hy
  by_cases hself : q.territory = yard
  · rw [hself]
    exact List.mem_cons_self ..
  · -- every place but the yard itself is water
    have hwater : q.isWater = true := by
      have hmem : { q with queue := [] } ∈ y.cleared.places :=
        List.mem_map_of_mem (f := fun p : Place => { p with queue := [] }) hq
      rw [Yard.places_of_ofTerritory hnew ht hland, List.mem_cons] at hmem
      rcases hmem with hhome | hzone
      · exact absurd (congrArg Place.territory hhome) hself
      · obtain ⟨z, -, hz⟩ := List.mem_map.mp hzone
        exact (congrArg Place.isWater hz).symm
    refine List.mem_cons_of_mem _ ?_
    unfold seaZones
    rw [hy]
    refine List.mem_map.mpr ⟨q, List.mem_filter.mpr ⟨hq, ?_⟩, rfl⟩
    simp [hwater, hself]

/-- What the report of a pass leaves room for could be bought in the pass. -/
theorem Reached.canBuy_of_toPlan (hs : s.Keyed) (hplayer : s.player player = .ok owner)
    (hcatalog : Catalog.ofFrontier s player currency = .ok catalog)
    (h : Reached s arbiter catalog player pass) {plan : Plan} (hplan : toPlan s pass = .ok plan)
    {y : Yard} (hy : plan.yards.get? yard = some y) (ho : o ∈ catalog.toList)
    (hcovers : (owner.holdings.subtract plan.spent).covers o.costs = true)
    (hfits : y.remaining.fits o.quantity = true)
    (hceiling : o.FitsCeiling
      (s.countOwned player o.kind + (plan.purchased.get? o.kind).getD 0))
    (hpermitted : ∃ ps source source', o.materialize source player = .ok (ps, source') ∧
      arbiter.permits place ps player (plan.yards.queuedFor place) = .ok true) :
    pass.CanBuy arbiter yard place o := by
  obtain ⟨-, hyards, hspent, hpurchased⟩ := toPlan_eq_ok hplan
  rw [hyards] at hy hpermitted
  constructor
  · rw [hspent] at hcovers
    exact (h.solvent hplayer).affords_of_covers hcovers
  · exact ⟨y, hy, hfits⟩
  · -- the census of the pass counts what the report adds to the board
    obtain ⟨-, k, hk, -⟩ := Catalog.kind_of_mem hs hcatalog ho
    have hcount : pass.census.built o.kind =
        s.countOwned player o.kind + (plan.purchased.get? o.kind).getD 0 := by
      rw [h.counted hs o.kind k hk, h.player_eq, hpurchased]
      congr 1
      exact (Stack.getD_countBy Piece.kind _ o.kind).symm
    rw [← hcount] at hceiling
    exact Census.allows_of_fitsCeiling hceiling
  · rw [h.player_eq]
    exact hpermitted

/-- Nothing worth buying is left undone. Where no rule pays its buyer and there are more rounds
than units of the currency of the scores, no offer for a place of a plan that scores in the role
of the yard could still be bought: the money that is left does not cover it, or what is left of
the capacity, or the ceiling of its kind, has no room for it, or the rules refuse it there. -/
theorem plan_saturated (hs : s.Keyed) (hsized : s.Sized) (hplayer : s.player player = .ok owner)
    (hpriced : owner.Priced) {p p' : Planner} {plan : Plan}
    (hrounds : max 0 (owner.holdings.get p.config.currency) < p.config.maxRounds)
    (h : p.plan s (.ofRules s) player = (.ok plan, p')) :
    ∃ catalog, Catalog.ofFrontier s player p.config.currency = .ok catalog ∧
      ∀ id y, plan.yards.get? id = some y →
        ∃ role, roleOf s id player = .ok role ∧
          ∀ q ∈ y.places, ∀ o ∈ offersFor catalog id q.territory, .zero < role.efficiency o →
            ¬((owner.holdings.subtract plan.spent).covers o.costs = true ∧
              y.remaining.fits o.quantity = true ∧
              o.FitsCeiling (s.countOwned player o.kind + (plan.purchased.get? o.kind).getD 0) ∧
              ∃ ps source source', o.materialize source player = .ok (ps, source') ∧
                (Arbiter.ofRules s).permits q.territory ps player
                  (plan.yards.queuedFor q.territory) = .ok true) := by
  obtain ⟨catalog, start, last, p₁, hcatalog, hstart, hrun, hplan⟩ := plan_run h
  obtain ⟨hlast, hsaturated⟩ :=
    runPhases_saturated hsized hplayer hpriced hcatalog hstart hrounds hrun
  refine ⟨catalog, hcatalog, ?_⟩
  intro id y hy
  obtain ⟨-, hyards, -⟩ := toPlan_eq_ok hplan
  have hyard : last.yards.get? id = some y := by
    rw [← hyards]
    exact hy
  have hopen : id ∈ start.yards.keys := by
    obtain ⟨y', hy', -⟩ := (hlast.feeds_self hyard).of_cleared (hlast.cleared_yards hstart)
    exact SortedMap.mem_keys_iff.mpr ⟨y', hy'⟩
  obtain ⟨role, hrole, hplaces⟩ := hsaturated id hopen
  refine ⟨role, hrole, ?_⟩
  intro q hq o ho hscore
  rintro ⟨hcovers, hfits, hceiling, hpermitted⟩
  have hplace : q.territory ∈ id :: seaZones start id := by
    rw [seaZones_eq, ← hlast.cleared_yards hstart, ← seaZones_eq]
    exact hlast.mem_seaZones hyard hq
  exact hplaces q.territory hplace o ho hscore
    (hlast.canBuy_of_toPlan hs hplayer hcatalog hplan hy (mem_catalog_of_mem_offersFor ho)
      hcovers hfits hceiling hpermitted)

/-- On the separate seas there are 18 units left over, and still nothing that could be bought. -/
theorem plan_saturated_separateSeas :
    Samples.separateSeas.Keyed ∧ Samples.separateSeas.Sized ∧
    ∃ owner, Samples.separateSeas.player Samples.red = .ok owner ∧ owner.Priced ∧
      max 0 (owner.holdings.get .productionUnits) < Samples.planner.config.maxRounds ∧
      ∃ plan p', Samples.planner.plan Samples.separateSeas (.ofRules Samples.separateSeas)
          Samples.red = (.ok plan, p') ∧
        (owner.holdings.subtract plan.spent).get .productionUnits = 18 ∧
        ∃ catalog, Catalog.ofFrontier Samples.separateSeas Samples.red .productionUnits =
            .ok catalog ∧
          ∀ id y, plan.yards.get? id = some y →
            ∃ role, roleOf Samples.separateSeas id Samples.red = .ok role ∧
              ∀ q ∈ y.places, ∀ o ∈ offersFor catalog id q.territory,
                .zero < role.efficiency o →
                  ¬((owner.holdings.subtract plan.spent).covers o.costs = true ∧
                    y.remaining.fits o.quantity = true ∧
                    o.FitsCeiling (Samples.separateSeas.countOwned Samples.red o.kind +
                      (plan.purchased.get? o.kind).getD 0) ∧
                    ∃ ps source source', o.materialize source Samples.red = .ok (ps, source') ∧
                      (Arbiter.ofRules Samples.separateSeas).permits q.territory ps Samples.red
                        (plan.yards.queuedFor q.territory) = .ok true) := by
  have hkeyed : Samples.separateSeas.Keyed := by decide +kernel
  have hsized : Samples.separateSeas.Sized := by decide +kernel
  obtain ⟨owner, howner, hfacts⟩ := Outcome.exists_of_toOption
    (show (Samples.separateSeas.player Samples.red).toOption.map
      (fun p => (p.holdings.get .productionUnits, decide p.Priced)) = some (40, true) by
        decide +kernel)
  obtain ⟨hholdings, hpriced⟩ := Prod.mk.inj hfacts
  obtain ⟨plan, p', h, hspent⟩ := Outcome.exists_run_of_toOption
    (show (Samples.planner.plan Samples.separateSeas (.ofRules Samples.separateSeas)
      Samples.red).1.toOption.map (fun plan => plan.spent.get .productionUnits) = some 22 by
        decide +kernel)
  have hrounds : max 0 (owner.holdings.get .productionUnits) <
      Samples.planner.config.maxRounds := by
    rw [hholdings]
    decide
  have hleft : (owner.holdings.subtract plan.spent).get .productionUnits = 18 := by
    rw [Holdings.get_subtract, hholdings, hspent]
    rfl
  have hcurrency : Samples.planner.config.currency = .productionUnits := rfl
  -- with the currency left to the configuration, comparing the catalogs would build them
  have hundone := plan_saturated hkeyed hsized howner (of_decide_eq_true hpriced) hrounds h
  rw [hcurrency] at hundone
  exact ⟨hkeyed, hsized, owner, howner, of_decide_eq_true hpriced, hrounds, plan, p', h, hleft,
    hundone⟩

end Planner

end Quartermaster
