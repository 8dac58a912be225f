import Quartermaster.Proofs.Opening
import Quartermaster.Proofs.View
import Quartermaster.Samples

/-!
# What a plan depends on

A plan for a player depends on nothing that the player does not see (`plan_seenBy`): neither on
the pieces and records of others, nor on names, nor on the round. So on two boards that look alike
to the player every planner makes the same plan or meets the same fault (`plan_eq_of_alike`).

The one thing that is seen beyond the player's own pieces are those of the number inside the
player's record, where that is another number than the one it is entered under
(`plan_ne_of_alike_misfiledPorts`).
-/

namespace Quartermaster

variable {s s' : Snapshot} {player : PlayerId}

/-! ## Opening a pass -/

theorem Yard.ofTerritory_seenBy (territory : TerritoryId) (c : Capacity) :
    Yard.ofTerritory (s.seenBy player) territory c = Yard.ofTerritory s territory c := by
  unfold ofTerritory
  simp only [Snapshot.territory_seenBy, Snapshot.neighbors_seenBy, Outcome.map_bind,
    Territory.seenBy_isWater, List.filter_map, List.map_map, Function.comp_def,
    Territory.seenBy_id]
  rfl

theorem Census.ofSnapshot_seenBy (h : s.Tallied) (toPlace : List Piece) (yards : Yards) :
    ofSnapshot (s.seenBy player) player toPlace yards = ofSnapshot s player toPlace yards := by
  have hboard : ofBoard (s.seenBy player) player = ofBoard s player := by
    unfold ofBoard
    simp only [Snapshot.countOwned_seenBy h]
    rfl
  unfold ofSnapshot
  rw [hboard]

theorem Catalog.ofFrontier_seenBy (currency : ResourceId) :
    ofFrontier (s.seenBy player) player currency = ofFrontier s player currency := by
  have hrules : ∀ (rules : List ProductionRule) (c : Catalog),
      insertRules (s.seenBy player) currency c rules = insertRules s currency c rules := by
    intro rules
    induction rules with
    | nil => exact fun c => rfl
    | cons r rules ih =>
      intro c
      rw [insertRules, insertRules]
      simp only [ih]
      rfl
  unfold ofFrontier
  rw [Snapshot.player_seenBy]
  simp only [hrules]

namespace Planner

theorem yardIn?_seenBy (placesAnywhere : Bool) (t : Territory) :
    yardIn? (s.seenBy player) player placesAnywhere (t.seenBy (s.selves player)) =
      yardIn? s player placesAnywhere t := by
  unfold yardIn?
  simp only [Snapshot.hasOwnedLandFactory_seenBy, Territory.seenBy_id,
    Snapshot.canMoveLandPieces_seenBy, Snapshot.capacity_seenBy, Yard.ofTerritory_seenBy]

theorem openYards_seenBy (placesAnywhere : Bool) (ts : List Territory) (yards : Yards) :
    openYards (s.seenBy player) player placesAnywhere
        (ts.map (Territory.seenBy (s.selves player))) yards =
      openYards s player placesAnywhere ts yards := by
  induction ts generalizing yards with
  | nil => rfl
  | cons t ts ih =>
    rw [List.map_cons, openYards, openYards, yardIn?_seenBy]
    simp only [ih, Territory.seenBy_id]

theorem findYards_seenBy : findYards (s.seenBy player) player = findYards s player := by
  unfold findYards
  rw [Snapshot.player_seenBy, Snapshot.territoriesOwnedBy_seenBy]
  simp only [openYards_seenBy]

theorem openPass_seenBy (h : s.Tallied) : openPass (s.seenBy player) player = openPass s player := by
  unfold openPass
  rw [findYards_seenBy, Snapshot.player_seenBy]
  simp only [Census.ofSnapshot_seenBy h]

theorem roleOf_seenBy (territory : TerritoryId) :
    roleOf (s.seenBy player) territory player = roleOf s territory player := by
  unfold roleOf
  rw [Snapshot.neighbors_seenBy, Outcome.map_bind]
  simp only [List.any_map]
  rfl

/-! ## Rounds and phases -/

/-- Two arbiters that answer one player alike. -/
def Agree (player : PlayerId) (arbiter arbiter' : Arbiter) : Prop :=
  ∀ place ps already, arbiter place ps player already = arbiter' place ps player already

section

variable {arbiter arbiter' : Arbiter} (hagree : Agree player arbiter arbiter')

include hagree

theorem permitted_congr (place : TerritoryId) (already : List Piece) (offers : List Offer)
    (source : PieceSource) : arbiter.permitted place player already offers source =
      arbiter'.permitted place player already offers source := by
  induction offers generalizing source with
  | nil => rfl
  | cons o os ih =>
    have htry : arbiter.tryOffer o place player already source =
        arbiter'.tryOffer o place player already source := by
      unfold Arbiter.tryOffer Arbiter.permits
      simp only [hagree _ _ _]
    rw [Arbiter.permitted, Arbiter.permitted, htry]
    simp only [ih]

variable {pass : Pass} {yard place : TerritoryId} {offers : List Offer} {role : Role}

theorem round_congr (hplayer : pass.player = player) (p : Planner) :
    round arbiter yard place offers role pass p = round arbiter' yard place offers role pass p := by
  unfold round
  simp only [hplayer, permitted_congr hagree]

theorem fill_congr (hplayer : pass.player = player) (n : Nat) (p : Planner) :
    fill arbiter yard place offers role n pass p = fill arbiter' yard place offers role n pass p := by
  induction n generalizing pass p with
  | zero => rfl
  | succ n ih =>
    rw [fill, fill, ← round_congr hagree hplayer]
    cases hround : round arbiter yard place offers role pass p with
    | mk outcome p₁ =>
      cases outcome with
      | error f => rfl
      | ok found =>
        cases found with
        | none => rfl
        | some next =>
          -- the arbiters agree for one player only, whose pass it stays
          obtain ⟨b, -, -, -, -, hbuys⟩ := round_eq_some hround
          exact ih (hbuys.player.trans hplayer) p₁

theorem fillPlaces_congr (hplayer : pass.player = player) (places : List TerritoryId)
    (p : Planner) : fillPlaces arbiter yard offers role places pass p =
      fillPlaces arbiter' yard offers role places pass p := by
  induction places generalizing pass p with
  | nil => rfl
  | cons place places ih =>
    rw [fillPlaces, fillPlaces, ← fill_congr hagree hplayer]
    cases hfill : fill arbiter yard place offers role p.config.maxRounds pass p with
    | mk outcome p₁ =>
      cases outcome with
      | error f => rfl
      | ok next =>
        obtain ⟨bs, hbs⟩ := fill_bought hfill
        exact ih (hbs.player_eq.trans hplayer) p₁

variable {catalog : Catalog}

/-- Phases of arbiters that agree differ in nothing, and no more do those of a snapshot and its
view. -/
theorem phase_congr (hplayer : pass.player = player)
    (places : Pass → TerritoryId → List TerritoryId) (yards : List TerritoryId) (p : Planner) :
    phase (s.seenBy player) arbiter offers places yards pass p =
      phase s arbiter' offers places yards pass p := by
  induction yards generalizing pass p with
  | nil => rfl
  | cons yard yards ih =>
    rw [phase, phase, hplayer, roleOf_seenBy]
    cases roleOf s yard player with
    | error f => rfl
    | ok role =>
      dsimp only
      rw [fillPlaces_congr hagree hplayer]
      cases hfill : fillPlaces arbiter' yard offers role (places pass yard) pass p with
      | mk outcome p₁ =>
        cases outcome with
        | error f => rfl
        | ok next =>
          obtain ⟨bs, hbs⟩ := fillPlaces_bought hfill
          exact ih (hbs.player_eq.trans hplayer) p₁

theorem runPhases_congr (hplayer : pass.player = player) (p : Planner) :
    runPhases (s.seenBy player) arbiter catalog pass p = runPhases s arbiter' catalog pass p := by
  unfold runPhases
  dsimp only
  rw [phase_congr hagree hplayer]
  cases hland : phase s arbiter' (catalog.land ++ catalog.air) (fun _ yard => [yard])
      pass.yards.keys pass p with
  | mk outcome p₁ =>
    cases outcome with
    | error f => rfl
    | ok next =>
      obtain ⟨bs, hbs⟩ :=
        phase_eligible (fun _ _ _ => offersFor_of_mem_singleton catalog) hplayer hland
      exact phase_congr hagree (hbs.player_eq.trans hplayer) ..

end

end Planner

/-! ## Reports -/

namespace MoveOptions

theorem idsWhere_map_seenBy (owners : List PlayerId) (around : List Territory)
    (test : Territory → Bool) : idsWhere (around.map (Territory.seenBy owners)) test =
      idsWhere around fun t => test (t.seenBy owners) := by
  unfold idsWhere
  rw [List.filter_map, List.map_map]
  rfl

theorem addPiece_seenBy (place : Place) (isWater : Bool) (around : List Territory) (q : Piece)
    (k : PieceKind) (m : MoveOptions) :
    addPiece (s.seenBy player) player place isWater
        (around.map (Territory.seenBy (s.selves player))) q k m =
      addPiece s player place isWater around q k m := by
  have henter : ∀ t : Territory,
      k.domain.canEnter (t.seenBy (s.selves player)) = k.domain.canEnter t := by
    intro t
    cases k.domain <;> rfl
  unfold addPiece
  simp only [idsWhere_map_seenBy, henter]
  rfl

theorem addPieces_seenBy (place : Place) (isWater : Bool) (around : List Territory)
    (ps : List Piece) (m : MoveOptions) :
    addPieces (s.seenBy player) player place isWater
        (around.map (Territory.seenBy (s.selves player))) ps m =
      addPieces s player place isWater around ps m := by
  induction ps generalizing m with
  | nil => rfl
  | cons q ps ih =>
    rw [addPieces, addPieces]
    simp only [addPiece_seenBy, ih]
    rfl

theorem ofYards_seenBy (yards : Yards) :
    ofYards (s.seenBy player) player yards = ofYards s player yards := by
  have hplaces : ∀ (places : List Place) (m : MoveOptions),
      addPlaces (s.seenBy player) player places m = addPlaces s player places m := by
    intro places
    induction places with
    | nil => exact fun m => rfl
    | cons place places ih =>
      intro m
      rw [addPlaces, addPlaces]
      simp only [Snapshot.territory_seenBy, Snapshot.neighbors_seenBy, Outcome.map_bind,
        Territory.seenBy_isWater, addPieces_seenBy, ih]
  exact hplaces _ _

end MoveOptions

namespace Planner

variable {p : Planner}

theorem toPlan_seenBy {pass : Pass} (hplayer : pass.player = player) :
    toPlan (s.seenBy player) pass = toPlan s pass := by
  unfold toPlan
  rw [hplayer, MoveOptions.ofYards_seenBy]

theorem agree_seenBy (h : s.Tallied) :
    Agree player (.ofRules (s.seenBy player)) (.ofRules s) := by
  intro place ps already
  refine PlaceTurn.check_seenBy h ?_ place ps
  unfold PlaceTurn.withPlaced
  split <;> rfl

/-- A plan depends on what the player sees, and on nothing else. -/
theorem plan_seenBy (h : s.Tallied) :
    p.plan (s.seenBy player) (.ofRules (s.seenBy player)) player = p.plan s (.ofRules s) player := by
  unfold Planner.plan
  rw [Catalog.ofFrontier_seenBy, openPass_seenBy h]
  cases hopen : (do
      let catalog ← Catalog.ofFrontier s player p.config.currency
      return (catalog, ← openPass s player) : Except Fault (Catalog × Pass)) with
  | error f => rfl
  | ok opened =>
    obtain ⟨catalog, start⟩ := opened
    obtain ⟨_, -, hrest⟩ := Outcome.bind_eq_ok_iff.mp hopen
    obtain ⟨start', hstart, heq⟩ := Outcome.bind_eq_ok_iff.mp hrest
    obtain rfl : start' = start := congrArg Prod.snd (Outcome.pure_eq_ok_iff.mp heq)
    obtain ⟨-, -, -, hplayer, -⟩ := openPass_eq_ok hstart
    dsimp only
    rw [runPhases_congr (agree_seenBy h) hplayer]
    cases hrun : runPhases s (.ofRules s) catalog start' p with
    | mk outcome p₁ =>
      cases outcome with
      | error f => rfl
      | ok last =>
        obtain ⟨bs, hbs⟩ := runPhases_bought hplayer hrun
        exact congrArg (·, p₁) (toPlan_seenBy (hbs.player_eq.trans hplayer))

end Planner

/-! ## Boards that look alike -/

/-- Two territories with the same pieces of each listed owner, in the same order, that differ in
nothing else but their names and what the ruleset says beyond production and passage. -/
structure Territory.Alike (owners : List PlayerId) (t t' : Territory) : Prop where
  id : t.id = t'.id
  isWater : t.isWater = t'.isWater
  owner : t.owner = t'.owner
  neighbors : t.neighbors = t'.neighbors
  conqueredThisTurn : t.conqueredThisTurn = t'.conqueredThisTurn
  production : t.production = t'.production
  isOriginalFactory : t.isOriginalFactory = t'.isOriginalFactory
  isImpassable : t.isImpassable = t'.isImpassable
  pieces : ∀ o ∈ owners, (t.stack.pieces.filter fun q => q.owner == o) =
    t'.stack.pieces.filter fun q => q.owner == o

instance (owners : List PlayerId) (t t' : Territory) : Decidable (t.Alike owners t') :=
  decidable_of_iff
    (t.id = t'.id ∧ t.isWater = t'.isWater ∧ t.owner = t'.owner ∧ t.neighbors = t'.neighbors ∧
      t.conqueredThisTurn = t'.conqueredThisTurn ∧ t.production = t'.production ∧
      t.isOriginalFactory = t'.isOriginalFactory ∧ t.isImpassable = t'.isImpassable ∧
      ∀ o ∈ owners, (t.stack.pieces.filter fun q => q.owner == o) =
        t'.stack.pieces.filter fun q => q.owner == o)
    ⟨fun ⟨h₁, h₂, h₃, h₄, h₅, h₆, h₇, h₈, h₉⟩ => ⟨h₁, h₂, h₃, h₄, h₅, h₆, h₇, h₈, h₉⟩,
      fun ⟨h₁, h₂, h₃, h₄, h₅, h₆, h₇, h₈, h₉⟩ => ⟨h₁, h₂, h₃, h₄, h₅, h₆, h₇, h₈, h₉⟩⟩

/-- Two snapshots with one ruleset, the same alliances and the same record of a player, in which
the same territories are alike for the listed owners. -/
structure Snapshot.Alike (player : PlayerId) (owners : List PlayerId) (s s' : Snapshot) : Prop where
  roster : s.roster = s'.roster
  alliances : s.alliances = s'.alliances
  player : s.players.get? player = s'.players.get? player
  keys : s.territories.keys = s'.territories.keys
  territories : ∀ e ∈ s.territories.entries, ∀ e' ∈ s'.territories.entries, e.1 = e'.1 →
    e.2.Alike owners e'.2

instance (player : PlayerId) (owners : List PlayerId) (s s' : Snapshot) :
    Decidable (s.Alike player owners s') :=
  decidable_of_iff
    (s.roster = s'.roster ∧ s.alliances = s'.alliances ∧
      s.players.get? player = s'.players.get? player ∧
      s.territories.keys = s'.territories.keys ∧
      ∀ e ∈ s.territories.entries, ∀ e' ∈ s'.territories.entries, e.1 = e'.1 →
        e.2.Alike owners e'.2)
    ⟨fun ⟨h₁, h₂, h₃, h₄, h₅⟩ => ⟨h₁, h₂, h₃, h₄, h₅⟩,
      fun ⟨h₁, h₂, h₃, h₄, h₅⟩ => ⟨h₁, h₂, h₃, h₄, h₅⟩⟩

theorem Territory.Alike.seenBy_eq {owners listed : List PlayerId} {t t' : Territory}
    (h : t.Alike listed t') (hlisted : ∀ o ∈ owners, o ∈ listed) :
    t.seenBy owners = t'.seenBy owners := by
  have hstack : t.stack.ofOwners owners = t'.stack.ofOwners owners := by
    unfold Stack.ofOwners
    exact congrArg Stack.mk (List.flatMap_congr fun o ho => h.pieces o (hlisted o ho))
  unfold seenBy
  rw [h.id, h.isWater, h.owner, h.neighbors, h.conqueredThisTurn, h.production,
    h.isOriginalFactory, h.isImpassable, hstack]

/-- Boards that look alike for all numbers that a player goes by are one view. -/
theorem Snapshot.Alike.seenBy_eq {owners : List PlayerId} (h : s.Alike player owners s')
    (howners : ∀ o ∈ s.selves player, o ∈ owners) : s.seenBy player = s'.seenBy player := by
  have hselves : s.selves player = s'.selves player := by
    unfold selves
    rw [h.player]
  have hterritories : s.territories.map (Territory.seenBy (s.selves player)) =
      s'.territories.map (Territory.seenBy (s.selves player)) := by
    ext1 id
    rw [SortedMap.get?_map, SortedMap.get?_map]
    have hkeys : (∃ t, s.territories.get? id = some t) ↔ ∃ t', s'.territories.get? id = some t' := by
      rw [← SortedMap.mem_keys_iff, ← SortedMap.mem_keys_iff, h.keys]
    cases hget : s.territories.get? id with
    | none =>
      rw [hget] at hkeys
      cases hget' : s'.territories.get? id with
      | none => rfl
      | some t' => exact absurd (hkeys.mpr ⟨t', hget'⟩) (by simp)
    | some t =>
      obtain ⟨t', hget'⟩ := hkeys.mp ⟨t, hget⟩
      have halike := h.territories _ (SortedMap.get?_eq_some_iff.mp hget) _
        (SortedMap.get?_eq_some_iff.mp hget') rfl
      rw [hget']
      exact congrArg some (halike.seenBy_eq howners)
  unfold seenBy
  rw [h.roster, h.alliances, h.player, hterritories, hselves]

namespace Planner

variable {p : Planner} {owners : List PlayerId}

/-- On boards that look alike to a player, down to the pieces of every number that it goes by, a
planner makes the same plan or meets the same fault, and is left in the same state. -/
theorem plan_eq_of_alike (h : s.Alike player owners s') (hplayer : player ∈ owners)
    (hrecord : ∀ r, s.player player = .ok r → r.id ∈ owners) (ht : s.Tallied) (ht' : s'.Tallied) :
    p.plan s (.ofRules s) player = p.plan s' (.ofRules s') player := by
  have howners : ∀ o ∈ s.selves player, o ∈ owners := by
    intro o ho
    rcases Snapshot.mem_selves_iff.mp ho with rfl | ⟨r, hr, rfl⟩
    · exact hplayer
    · exact hrecord r hr
  rw [← plan_seenBy ht, ← plan_seenBy ht', h.seenBy_eq howners]

/-- Red's plan does not show that tanks of Blue's have come and that Blue is rich. -/
theorem plan_eq_of_alike_visitedPorts :
    let s := Samples.visitedPorts [] 0
    let s' := Samples.visitedPorts [Samples.piece 50 Samples.tank Samples.blue] 99
    s ≠ s' ∧ s.Alike Samples.red [Samples.red] s' ∧ s.Tallied ∧ s'.Tallied ∧
      ∃ plan p', plan.totalPieces = 4 ∧
        Samples.planner.plan s (.ofRules s) Samples.red = (.ok plan, p') ∧
        Samples.planner.plan s' (.ofRules s') Samples.red = (.ok plan, p') := by
  intro s s'
  have hne : s ≠ s' := by decide +kernel
  have halike : s.Alike Samples.red [Samples.red] s' := by decide +kernel
  have ht : s.Tallied := by decide +kernel
  have ht' : s'.Tallied := by decide +kernel
  have hself : Samples.red ∈ [Samples.red] := List.mem_singleton_self _
  have hrecord : ∀ r, s.player Samples.red = .ok r → r.id ∈ [Samples.red] := by
    intro r hr
    obtain ⟨r', hr', hid⟩ := Outcome.exists_of_toOption
      (show (s.player Samples.red).toOption.map Player.id = some Samples.red by decide +kernel)
    obtain rfl : r = r' := Except.ok.inj (hr.symm.trans hr')
    exact List.mem_singleton.mpr hid
  obtain ⟨plan, p', hplan, htotal⟩ := Outcome.exists_run_of_toOption
    (show (Samples.planner.plan s (.ofRules s) Samples.red).1.toOption.map Plan.totalPieces =
      some 4 by decide +kernel)
  have heq : Samples.planner.plan s (.ofRules s) Samples.red =
      Samples.planner.plan s' (.ofRules s') Samples.red :=
    plan_eq_of_alike halike hself hrecord ht ht'
  exact ⟨hne, halike, ht, ht', plan, p', htotal, hplan, heq.symm.trans hplan⟩

/-- Where Red's record carries Blue's number, Red can make pieces in a port while a factory of
Blue's is there. -/
theorem plan_ne_of_alike_misfiledPorts :
    let s := Samples.misfiledPorts [Samples.piece 50 Samples.factory Samples.blue]
    let s' := Samples.misfiledPorts []
    s.Alike Samples.red [Samples.red] s' ∧ s.Tallied ∧ s'.Tallied ∧
      Samples.planner.plan s (.ofRules s) Samples.red ≠
        Samples.planner.plan s' (.ofRules s') Samples.red := by
  intro s s'
  refine ⟨by decide +kernel, by decide +kernel, by decide +kernel, fun heq => ?_⟩
  have hbuys : (Samples.planner.plan s (.ofRules s) Samples.red).1.toOption.map
      Plan.totalPieces = some 2 := by decide +kernel
  have hnothing : (Samples.planner.plan s' (.ofRules s') Samples.red).1.toOption.map
      Plan.totalPieces = some 0 := by decide +kernel
  rw [heq, hnothing] at hbuys
  cases hbuys

end Planner

end Quartermaster
