import Quartermaster.Proofs.Acceptance
import Quartermaster.Proofs.Recount
import Quartermaster.Proofs.Saturation

/-!
# Planning without chance

A planner that always takes the best draws no number. Its generator might as well be another one
(`plan_reseed`), and each fill buys in order of merit (`plan_by_merit`): what is chosen in a round
is the first of the best of what can be bought, and since a purchase only takes away from what can
be bought, no later choice is better. An offer that was bought and then passed over could not be
bought any more, and cannot come back.
-/

namespace Quartermaster

variable {s : Snapshot} {player : PlayerId} {owner : Player} {currency : ResourceId}
  {catalog : Catalog} {arbiter : Arbiter} {yard place : TerritoryId} {offers : List Offer}
  {role : Role} {pass next last : Pass}

namespace Planner

/-! ## Other seeds -/

/-- The planner with another seed in its settings and another generator. -/
def reseed (seed : Option Nat) (g : Generator) (p : Planner) : Planner :=
  { p with config := { p.config with seed }, generator := g }

/-- What a run ends in, with its planner reseeded. -/
def reseeded {α : Type} (seed : Option Nat) (g : Generator) (run : α × Planner) : α × Planner :=
  (run.1, run.2.reseed seed g)

section

variable (seed : Option Nat) (g : Generator) {p : Planner} (h : p.config.randomize = false)

include h

theorem choose_reseed {κ : Type} (table : Selection.Table κ) :
    choose table (p.reseed seed g) = reseeded seed g (choose table p) := by
  have h' : (p.reseed seed g).config.randomize = false := h
  unfold choose
  rw [h, h']
  rfl

theorem round_reseed : round arbiter yard place offers role pass (p.reseed seed g) =
    reseeded seed g (round arbiter yard place offers role pass p) := by
  have hsource : (p.reseed seed g).source = p.source := rfl
  unfold round
  rw [hsource]
  cases roundOffers yard offers pass with
  | error f => rfl
  | ok candidates =>
    dsimp only
    cases arbiter.permitted place pass.player (pass.yards.queuedFor place) candidates p.source with
    | mk outcome source =>
      cases outcome with
      | error f => rfl
      | ok batches =>
        have hchoose := choose_reseed seed g (p := { p with source }) h (scored role batches)
        have hmoved : { p.reseed seed g with source } = { p with source }.reseed seed g := rfl
        dsimp only
        rw [hmoved, hchoose]
        split
        · rfl
        · cases choose (scored role batches) { p with source } with
          | mk outcome p₁ => cases outcome <;> rfl

theorem fill_reseed (n : Nat) : fill arbiter yard place offers role n pass (p.reseed seed g) =
    reseeded seed g (fill arbiter yard place offers role n pass p) := by
  induction n generalizing pass p with
  | zero => rfl
  | succ n ih =>
    have hconfig := config_round arbiter yard place offers role pass p
    rw [fill, fill, round_reseed seed g h]
    cases hround : round arbiter yard place offers role pass p with
    | mk outcome p₁ =>
      rw [hround] at hconfig
      cases outcome with
      | error f => rfl
      | ok found =>
        cases found with
        | none => rfl
        | some next => exact ih (hconfig ▸ h)

theorem fillPlaces_reseed (places : List TerritoryId) :
    fillPlaces arbiter yard offers role places pass (p.reseed seed g) =
      reseeded seed g (fillPlaces arbiter yard offers role places pass p) := by
  induction places generalizing pass p with
  | nil => rfl
  | cons place places ih =>
    have hrounds : (p.reseed seed g).config.maxRounds = p.config.maxRounds := rfl
    have hconfig := config_fill arbiter yard place offers role p.config.maxRounds pass p
    rw [fillPlaces, fillPlaces, hrounds, fill_reseed seed g h]
    cases hfill : fill arbiter yard place offers role p.config.maxRounds pass p with
    | mk outcome p₁ =>
      rw [hfill] at hconfig
      cases outcome with
      | error f => rfl
      | ok next => exact ih (hconfig ▸ h)

theorem phase_reseed (places : Pass → TerritoryId → List TerritoryId) (yards : List TerritoryId) :
    phase s arbiter offers places yards pass (p.reseed seed g) =
      reseeded seed g (phase s arbiter offers places yards pass p) := by
  induction yards generalizing pass p with
  | nil => rfl
  | cons yard yards ih =>
    rw [phase, phase]
    cases roleOf s yard pass.player with
    | error f => rfl
    | ok role =>
      have hconfig := config_fillPlaces arbiter yard offers role (places pass yard) pass p
      dsimp only
      rw [fillPlaces_reseed seed g h]
      cases hfill : fillPlaces arbiter yard offers role (places pass yard) pass p with
      | mk outcome p₁ =>
        rw [hfill] at hconfig
        cases outcome with
        | error f => rfl
        | ok next => exact ih (hconfig ▸ h)

theorem runPhases_reseed : runPhases s arbiter catalog pass (p.reseed seed g) =
    reseeded seed g (runPhases s arbiter catalog pass p) := by
  have hconfig := config_phase s arbiter (catalog.land ++ catalog.air) (fun _ yard => [yard])
    pass.yards.keys pass p
  unfold runPhases
  dsimp only
  rw [phase_reseed seed g h]
  cases hland : phase s arbiter (catalog.land ++ catalog.air) (fun _ yard => [yard])
      pass.yards.keys pass p with
  | mk outcome p₁ =>
    rw [hland] at hconfig
    cases outcome with
    | error f => rfl
    | ok next => exact phase_reseed seed g (hconfig ▸ h) ..

/-- Without chance a seed changes nothing in a plan, and nothing in the planner but itself. -/
theorem plan_reseed (player : PlayerId) : (p.reseed seed g).plan s arbiter player =
    reseeded seed g (p.plan s arbiter player) := by
  have hcurrency : (p.reseed seed g).config.currency = p.config.currency := rfl
  unfold plan
  rw [hcurrency]
  split
  · rfl
  · rename_i catalog start _
    rw [runPhases_reseed seed g h]
    cases runPhases s arbiter catalog start p with
    | mk outcome p₁ => cases outcome <;> rfl

end

/-! ## What a fill buys -/

/-- The batch that a round takes, if it takes one. -/
def taken? (arbiter : Arbiter) (yard place : TerritoryId) (offers : List Offer) (role : Role)
    (pass : Pass) (p : Planner) : Option (Offer × List Piece) :=
  match roundOffers yard offers pass with
  | .error _ => none
  | .ok candidates =>
    match arbiter.permitted place pass.player (pass.yards.queuedFor place) candidates p.source with
    | (.error _, _) => none
    | (.ok batches, source) => (choose (scored role batches) { p with source }).1.toOption

/-- What a fill buys, whatever it ends in: each batch with the pass in which it was chosen. -/
def fillPurchases (arbiter : Arbiter) (yard place : TerritoryId) (offers : List Offer)
    (role : Role) : Nat → Pass → Planner → List (Pass × Purchase)
  | 0, _, _ => []
  | n + 1, pass, p =>
    match taken? arbiter yard place offers role pass p,
      round arbiter yard place offers role pass p with
    | some batch, (.ok (some next), p) =>
      (pass, { yard, place, offer := batch.1, pieces := batch.2 }) ::
        fillPurchases arbiter yard place offers role n next p
    | _, _ => []

section

variable {p p' : Planner}

/-- A round that buys something buys the batch that it takes. -/
theorem taken?_of_round
    (h : round arbiter yard place offers role pass p = (.ok (some next), p')) :
    ∃ batch, taken? arbiter yard place offers role pass p = some batch ∧
      batch.1 ∈ offers ∧ .zero < role.efficiency batch.1 ∧
      Buys arbiter pass { yard, place, offer := batch.1, pieces := batch.2 } next := by
  obtain ⟨candidates, batches, source, hcandidates, hpermitted, ⟨-, hnone⟩ | hbought⟩ :=
    round_eq_ok h
  · cases hnone
  · obtain ⟨batch, next', hchoice, hbuy, hnext⟩ := hbought
    obtain rfl : next = next' := Option.some.inj hnext
    refine ⟨batch, ?_, buys_of_buy hcandidates hpermitted (choose_mem hchoice) hbuy⟩
    unfold taken?
    simp only [hcandidates, hpermitted, hchoice]
    rfl

/-- What can be bought passes the filter of a round and is accepted by the rules. -/
theorem canBuy_iff {o : Offer} {y : Yard} (hy : pass.yards.get? yard = some y) :
    pass.CanBuy arbiter yard place o ↔
      (pass.ledger.affords o && y.remaining.fits o.quantity && pass.census.allows o) = true ∧
        arbiter.Accepts place pass.player (pass.yards.queuedFor place) o := by
  simp only [Bool.and_eq_true, and_assoc]
  constructor
  · rintro ⟨hafford, ⟨y', hy', hfits⟩, hallowed, haccepted⟩
    obtain rfl : y = y' := Option.some.inj (hy.symm.trans hy')
    exact ⟨hafford, hfits, hallowed, haccepted⟩
  · rintro ⟨hafford, hfits, hallowed, haccepted⟩
    exact ⟨hafford, ⟨y, hy, hfits⟩, hallowed, haccepted⟩

theorem taken?_eq_some {batch : Offer × List Piece}
    (h : taken? arbiter yard place offers role pass p = some batch) :
    ∃ candidates batches source, roundOffers yard offers pass = .ok candidates ∧
      arbiter.permitted place pass.player (pass.yards.queuedFor place) candidates p.source =
        (.ok batches, source) ∧
      (choose (scored role batches) { p with source }).1 = .ok batch := by
  unfold taken? at h
  cases hcandidates : roundOffers yard offers pass with
  | error f => simp [hcandidates] at h
  | ok candidates =>
    simp only [hcandidates] at h
    cases hpermitted : arbiter.permitted place pass.player (pass.yards.queuedFor place) candidates
        p.source with
    | mk outcome source =>
      cases outcome with
      | error f => simp [hpermitted] at h
      | ok batches =>
        simp only [hpermitted] at h
        refine ⟨candidates, batches, source, rfl, hpermitted, ?_⟩
        cases hchoice : (choose (scored role batches) { p with source }).1 with
        | error f =>
          rw [hchoice] at h
          cases h
        | ok found =>
          rw [hchoice] at h
          exact congrArg Except.ok (Option.some.inj h)

/-- The best of the scored batches is that of the first of the best offers that were tried. -/
theorem foremost_of_best {batches : List (Offer × List Piece)} {batch : Offer × List Piece}
    (h : Selection.best (scored role batches) = .ok batch) :
    Selection.Foremost role.efficiency (fun o => .zero < role.efficiency o)
      (batches.map Prod.fst) batch.1 := by
  obtain ⟨weight, hheaviest⟩ := Selection.best_foremost h
  obtain ⟨found, hfound, hfirst⟩ := hheaviest.of_filter.of_map
  obtain rfl : found = batch := congrArg Prod.fst hfound
  refine Selection.Foremost.map Prod.fst (hfirst.congr fun b _ => ?_)
  rw [and_true, decide_eq_true_iff]

/-- Without chance a round takes the first of the best of what can be bought. -/
theorem foremost_of_taken? (h : p.config.randomize = false) {batch : Offer × List Piece}
    (htaken : taken? (.ofRules s) yard place offers role pass p = some batch) :
    Selection.Foremost role.efficiency (pass.CanBuy (.ofRules s) yard place) offers batch.1 := by
  obtain ⟨candidates, batches, source, hcandidates, hpermitted, hchoice⟩ := taken?_eq_some htaken
  have hbest : Selection.best (scored role batches) = .ok batch := by
    unfold choose at hchoice
    rwa [if_neg (by simp [h])] at hchoice
  have hfirst := Arbiter.foremost_of_permitted hpermitted (foremost_of_best hbest)
  cases hy : pass.yards.get? yard with
  | none =>
    unfold roundOffers at hcandidates
    simp [hy] at hcandidates
  | some y =>
    rw [roundOffers_eq hy, Except.ok.injEq] at hcandidates
    subst hcandidates
    -- a full yard has no candidates at all
    split at hfirst
    · exact absurd hfirst.mem List.not_mem_nil
    · refine (hfirst.of_filter.congr fun o _ => ?_).of_pos
      rw [canBuy_iff hy, and_assoc]

/-! ## Fills -/

/-- A fill buys nothing, or it buys what a round takes and goes on from there. -/
theorem fillPurchases_succ (arbiter : Arbiter) (yard place : TerritoryId) (offers : List Offer)
    (role : Role) (n : Nat) (pass : Pass) (p : Planner) :
    fillPasses arbiter yard place offers role (n + 1) pass p = [pass] ∧
        fillPurchases arbiter yard place offers role (n + 1) pass p = [] ∨
      ∃ batch next p₁, taken? arbiter yard place offers role pass p = some batch ∧
        round arbiter yard place offers role pass p = (.ok (some next), p₁) ∧
        fillPasses arbiter yard place offers role (n + 1) pass p =
          pass :: fillPasses arbiter yard place offers role n next p₁ ∧
        fillPurchases arbiter yard place offers role (n + 1) pass p =
          (pass, { yard, place, offer := batch.1, pieces := batch.2 }) ::
            fillPurchases arbiter yard place offers role n next p₁ := by
  rw [fillPasses, fillPurchases]
  cases hround : round arbiter yard place offers role pass p with
  | mk outcome p₁ =>
    rcases outcome with f | _ | next
    · cases taken? arbiter yard place offers role pass p <;> exact .inl ⟨rfl, rfl⟩
    · cases taken? arbiter yard place offers role pass p <;> exact .inl ⟨rfl, rfl⟩
    · obtain ⟨batch, htaken, -⟩ := taken?_of_round hround
      rw [htaken]
      exact .inr ⟨batch, next, p₁, rfl, rfl, rfl, rfl⟩

/-- Without chance each purchase of a fill is of the first of the best of what could be bought. -/
theorem foremost_of_mem_fillPurchases (h : p.config.randomize = false) {n : Nat}
    {e : Pass × Purchase}
    (he : e ∈ fillPurchases (.ofRules s) yard place offers role n pass p) :
    Selection.Foremost role.efficiency (e.1.CanBuy (.ofRules s) yard place) offers e.2.offer := by
  induction n generalizing pass p with
  | zero => cases he
  | succ n ih =>
    rcases fillPurchases_succ (.ofRules s) yard place offers role n pass p with
      ⟨-, hnone⟩ | ⟨batch, next, p₁, htaken, hround, -, hsome⟩
    · rw [hnone] at he
      cases he
    · rw [hsome, List.mem_cons] at he
      rcases he with rfl | he
      · exact foremost_of_taken? h htaken
      · have hconfig := config_round (.ofRules s) yard place offers role pass p
        rw [hround] at hconfig
        exact ih (hconfig ▸ h) he

section

variable (hrole : roleOf s yard player = .ok role)

include hrole

/-- The passes that a fill goes through are those before its purchases, and the one that these lead
to. -/
theorem fillPasses_eq (n : Nat) :
    ∃ last, fillPasses arbiter yard place (offersFor catalog yard place) role n pass p =
        (fillPurchases arbiter yard place (offersFor catalog yard place) role n pass p).map
          Prod.fst ++ [last] ∧
      Bought arbiter (Eligible s catalog player) pass
        ((fillPurchases arbiter yard place (offersFor catalog yard place) role n pass p).map
          Prod.snd) last := by
  induction n generalizing pass p with
  | zero => exact ⟨pass, rfl, .nil pass⟩
  | succ n ih =>
    rcases fillPurchases_succ arbiter yard place (offersFor catalog yard place) role n pass p with
      ⟨hpasses, hnone⟩ | ⟨batch, next, p₁, htaken, hround, hpasses, hsome⟩
    · rw [hpasses, hnone]
      exact ⟨pass, rfl, .nil pass⟩
    · obtain ⟨batch', htaken', hoffer, hscore, hbuys⟩ := taken?_of_round hround
      obtain rfl : batch = batch' := Option.some.inj (htaken.symm.trans htaken')
      obtain ⟨last, hrest, hbs⟩ := @ih next p₁
      rw [hpasses, hsome, hrest]
      exact ⟨last, rfl, .cons hbuys (eligible_iff.mpr ⟨hoffer, role, hrole, hscore⟩) hbs⟩

section

variable (hsized : s.Sized) (hplayer : s.player player = .ok owner) (hpriced : owner.Priced)
  (hcatalog : Catalog.ofFrontier s player currency = .ok catalog)

include hsized hplayer hpriced hcatalog

/-- What can be bought at any point of a fill can be bought where it starts. -/
theorem canBuy_of_mem_fillPurchases (h : Reached s (.ofRules s) catalog player pass) {n : Nat}
    {e : Pass × Purchase} {o : Offer}
    (he : e ∈ fillPurchases (.ofRules s) yard place (offersFor catalog yard place) role n pass p)
    (ho : o ∈ catalog.toList) (hcan : e.1.CanBuy (.ofRules s) yard place o) :
    pass.CanBuy (.ofRules s) yard place o := by
  induction n generalizing pass p with
  | zero => cases he
  | succ n ih =>
    rcases fillPurchases_succ (.ofRules s) yard place (offersFor catalog yard place) role n pass p
      with ⟨-, hnone⟩ | ⟨batch, next, p₁, -, hround, -, hsome⟩
    · rw [hnone] at he
      cases he
    · rw [hsome, List.mem_cons] at he
      rcases he with rfl | he
      · exact hcan
      · obtain ⟨b, rfl, rfl, hoffer, hscore, hbuys⟩ := round_eq_some hround
        have hstep : Bought (.ofRules s) (Eligible s catalog player) pass [b] next :=
          .cons hbuys (eligible_iff.mpr ⟨hoffer, role, hrole, hscore⟩) (.nil next)
        exact h.canBuy_of_bought hsized hplayer hpriced hcatalog hstep ho
          (ih (h.of_round rfl hrole hround) he)

/-- In the course of a fill offers only drop out. -/
theorem pairwise_canBuy_fillPurchases (h : Reached s (.ofRules s) catalog player pass) (n : Nat) :
    (fillPurchases (.ofRules s) yard place (offersFor catalog yard place) role n pass p).Pairwise
      fun e e' => ∀ o ∈ catalog.toList, e'.1.CanBuy (.ofRules s) yard place o →
        e.1.CanBuy (.ofRules s) yard place o := by
  induction n generalizing pass p with
  | zero => exact .nil
  | succ n ih =>
    rcases fillPurchases_succ (.ofRules s) yard place (offersFor catalog yard place) role n pass p
      with ⟨-, hnone⟩ | ⟨batch, next, p₁, -, hround, -, hsome⟩
    · rw [hnone]
      exact .nil
    · rw [hsome]
      refine .cons (fun e he o ho hcan => ?_) (ih (h.of_round rfl hrole hround))
      refine canBuy_of_mem_fillPurchases hrole hsized hplayer hpriced hcatalog h (n := n + 1)
        (p := p) (e := e) ?_ ho hcan
      rw [hsome]
      exact List.mem_cons_of_mem _ he

end

end

end

/-! ## Order of merit -/

section

variable {bought : List (Pass × Purchase)}
  (hfirst : ∀ e ∈ bought,
    Selection.Foremost role.efficiency (e.1.CanBuy arbiter yard place) offers e.2.offer)
  (hdrops : bought.Pairwise fun e e' => ∀ o ∈ offers,
    e'.1.CanBuy arbiter yard place o → e.1.CanBuy arbiter yard place o)

include hfirst hdrops

/-- Where the first of the best is bought each time and offers only drop out, scores never rise:
what is chosen later could be bought before. -/
theorem pairwise_efficiency :
    (bought.map fun e => role.efficiency e.2.offer).Pairwise fun a b => b ≤ a := by
  rw [List.pairwise_map]
  refine hdrops.imp_of_mem fun {e e'} he he' hdrop => ?_
  have hlater := hfirst e' he'
  exact (hfirst e he).score_le hlater.mem (hdrop _ hlater.mem hlater.holds)

/-- An offer that is bought before another one and after it is that one: either could be bought
where the other was chosen. -/
theorem offer_eq_of_returns {a b : Offer}
    (hbetween : [a, b, a].Sublist (bought.map fun e => e.2.offer)) : b = a := by
  obtain ⟨es, hes, hsame⟩ := List.sublist_map_iff.mp hbetween
  obtain ⟨e₁, es₁, rfl, rfl, hsame₁⟩ := List.map_eq_cons_iff.mp hsame.symm
  obtain ⟨e₂, es₂, rfl, rfl, hsame₂⟩ := List.map_eq_cons_iff.mp hsame₁
  obtain ⟨e₃, es, rfl, hthird, -⟩ := List.map_eq_cons_iff.mp hsame₂
  have hmem : ∀ e ∈ e₁ :: e₂ :: e₃ :: es, Selection.Foremost role.efficiency
      (e.1.CanBuy arbiter yard place) offers e.2.offer := fun e he => hfirst e (hes.subset he)
  simp only [List.forall_mem_cons] at hmem
  obtain ⟨h₁, h₂, h₃, -⟩ := hmem
  have hpairs := hdrops.sublist hes
  simp only [List.pairwise_cons, List.forall_mem_cons] at hpairs
  obtain ⟨⟨hdrop₁₂, -⟩, ⟨hdrop₂₃, -⟩, -⟩ := hpairs
  have hback : e₂.1.CanBuy arbiter yard place e₁.2.offer := by
    rw [← hthird]
    exact hdrop₂₃ _ h₃.mem h₃.holds
  have hforth : e₁.1.CanBuy arbiter yard place e₂.2.offer := hdrop₁₂ _ h₂.mem h₂.holds
  exact (h₁.eq h₂ hforth hback).symm

end

/-- Without chance the seed plays no part in a plan, and each fill buys in order of merit. The
purchases of a fill, which lead through the passes that it goes through, are each of the first of
the best of what could be bought; so their scores never rise, and an offer between two purchases of
which there was another is that other. -/
theorem plan_by_merit (hsized : s.Sized) (hplayer : s.player player = .ok owner)
    (hpriced : owner.Priced) {config : PlannerConfig} (hchance : config.randomize = false) :
    (∀ arbiter seed seed' entropy entropy',
      ((ofConfig { config with seed } entropy).plan s arbiter player).1 =
        ((ofConfig { config with seed := seed' } entropy').plan s arbiter player).1) ∧
    ∀ catalog pass yard place role, Catalog.ofFrontier s player config.currency = .ok catalog →
      Reached s (.ofRules s) catalog player pass → roleOf s yard player = .ok role →
      ∀ p : Planner, p.config = config → ∀ n,
        let offers := offersFor catalog yard place
        let bought := fillPurchases (.ofRules s) yard place offers role n pass p
        (∃ last, fillPasses (.ofRules s) yard place offers role n pass p =
            bought.map Prod.fst ++ [last] ∧
          Bought (.ofRules s) (Eligible s catalog player) pass (bought.map Prod.snd) last) ∧
        (∀ e ∈ bought, Selection.Foremost role.efficiency (e.1.CanBuy (.ofRules s) yard place)
          offers e.2.offer) ∧
        (bought.map fun e => role.efficiency e.2.offer).Pairwise (fun a b => b ≤ a) ∧
        ∀ a b, [a, b, a].Sublist (bought.map fun e => e.2.offer) → b = a := by
  constructor
  · intro arbiter seed seed' entropy entropy'
    let p : Planner := ofConfig { config with seed } entropy
    let g : Generator := PlannerConfig.generator { config with seed := seed' } entropy'
    have hreseed : (p.reseed seed' g).plan s arbiter player =
        reseeded seed' g (p.plan s arbiter player) := plan_reseed seed' g hchance player
    exact (congrArg Prod.fst hreseed).symm
  · intro catalog pass yard place role hcatalog hreached hrole p hconfig n offers bought
    have hfirst : ∀ e ∈ bought, Selection.Foremost role.efficiency
        (e.1.CanBuy (.ofRules s) yard place) offers e.2.offer :=
      fun e he => foremost_of_mem_fillPurchases (hconfig ▸ hchance) he
    have hdrops : bought.Pairwise fun e e' => ∀ o ∈ offers,
        e'.1.CanBuy (.ofRules s) yard place o → e.1.CanBuy (.ofRules s) yard place o :=
      (pairwise_canBuy_fillPurchases hrole hsized hplayer hpriced hcatalog hreached n).imp
        fun hdrop o ho => hdrop o (mem_catalog_of_mem_offersFor ho)
    exact ⟨fillPasses_eq hrole n, hfirst, pairwise_efficiency hfirst hdrops,
      fun a b => offer_eq_of_returns hfirst hdrops⟩

/-- A port makes four pieces, and two tanks at most: tanks score best for an attack, and infantry
comes in when the ceiling of tanks is reached. -/
theorem plan_by_merit_twinPorts :
    let s := Samples.withCeiling (Samples.twinPorts [Samples.westSea] [Samples.eastSea] 4 40
      [Samples.saleOf "buyInfantry" Samples.infantry 1 3, Samples.saleOf "buyTank" Samples.tank 1 6]
      []) Samples.tank (.atMost 2)
    let config := Samples.planner.config
    s.Sized ∧ config.randomize = false ∧
    (∃ owner, s.player Samples.red = .ok owner ∧ owner.Priced) ∧
    ((ofConfig { config with seed := some 1 } 0).plan s (.ofRules s) Samples.red).1 =
      ((ofConfig { config with seed := some 2 } 0).plan s (.ofRules s) Samples.red).1 ∧
    ∃ catalog start, Catalog.ofFrontier s Samples.red config.currency = .ok catalog ∧
      openPass s Samples.red = .ok start ∧ roleOf s Samples.redCapital Samples.red = .ok .attack ∧
      let bought := fillPurchases (.ofRules s) Samples.redCapital Samples.redCapital
        (offersFor catalog Samples.redCapital Samples.redCapital) .attack 1000 start
        Samples.planner
      (bought.map fun e => e.2.offer.kind) =
        [Samples.tank, Samples.tank, Samples.infantry, Samples.infantry] ∧
      (bought.map fun e => e.2.offer.attackEfficiency).Pairwise (fun a b => b ≤ a) := by
  intro s config
  have hsized : s.Sized := by decide +kernel
  obtain ⟨owner, howner, hpriced⟩ := Outcome.exists_of_toOption
    (show (s.player Samples.red).toOption.map (fun p => decide p.Priced) = some true by
      decide +kernel)
  have hrole : roleOf s Samples.redCapital Samples.red = .ok .attack := by decide +kernel
  obtain ⟨catalog, hcatalog, hread⟩ := Outcome.exists_of_toOption
    (show (Catalog.ofFrontier s Samples.red config.currency).toOption.map (fun catalog =>
      (openPass s Samples.red).toOption.map fun start =>
        (fillPurchases (.ofRules s) Samples.redCapital Samples.redCapital
          (offersFor catalog Samples.redCapital Samples.redCapital) .attack 1000 start
          Samples.planner).map fun e => e.2.offer.kind) =
      some (some [Samples.tank, Samples.tank, Samples.infantry, Samples.infantry]) by
        decide +kernel)
  obtain ⟨start, hstart, hread⟩ := Outcome.exists_of_toOption hread
  have hchance : config.randomize = false := rfl
  obtain ⟨hseeds, hfills⟩ := plan_by_merit hsized howner (of_decide_eq_true hpriced) hchance
  obtain ⟨-, -, hscores, -⟩ := hfills catalog start Samples.redCapital Samples.redCapital .attack
    hcatalog (.of_openPass hstart) hrole Samples.planner rfl 1000
  exact ⟨hsized, rfl, ⟨owner, howner, of_decide_eq_true hpriced⟩, hseeds _ _ _ _ _, catalog, start,
    hcatalog, hstart, hrole, hread, hscores⟩

end Planner

end Quartermaster
