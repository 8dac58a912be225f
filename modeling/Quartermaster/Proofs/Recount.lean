import Quartermaster.Proofs.Ceiling

/-!
# Recounts

The census of a pass is kept up batch by batch and never taken anew. It is what a new count would
give all the same: in every pass that a planner goes through, on the way to a plan or to a fault,
the census is the one taken of the board and the queues at that moment (`census_recounts`).

`passes` lists what a planner goes through, by the recursion of its loops.
-/

namespace Quartermaster

variable {s : Snapshot} {player : PlayerId} {t : KindId}

/-! ## Counting piece by piece -/

namespace Census

theorem get?_record (c : Census) (kind t : KindId) (n : Nat) :
    (c.record kind n).counts.get? t =
      if t = kind then some (c.built t + n) else c.counts.get? t := by
  unfold record
  split
  · rename_i h
    subst h
    exact SortedMap.get?_update_self ..
  · rename_i h
    exact SortedMap.get?_update_of_ne _ _ h

/-- Counting piece by piece makes an entry for the kinds that occur, and only how often they occur
matters. -/
theorem get?_foldl_record (ps : List Piece) (c : Census) (t : KindId) :
    (ps.foldl (fun c p => c.record p.kind 1) c).counts.get? t =
      if ps.countP (fun p => p.kind = t) = 0 then c.counts.get? t
      else some (c.built t + ps.countP fun p => p.kind = t) := by
  induction ps using List.reverseRecOn with
  | nil => rfl
  | append_singleton ps p ih =>
    rw [List.foldl_append, List.countP_append, List.countP_singleton]
    show (record _ p.kind 1).counts.get? t = _
    rw [get?_record]
    by_cases h : p.kind = t
    · simp [h, built_foldl_record, Nat.add_assoc]
    · simp [h, Ne.symm h, ih]

variable {toPlace ps : List Piece} {yards yards' : Yards} {kind : KindId}

/-- Of a batch more in the queues, a new count makes what `record` makes of the old one. -/
theorem ofSnapshot_of_perm (hperm : yards'.queued.Perm (yards.queued ++ ps)) (hsome : ps ≠ [])
    (hps : ∀ q ∈ ps, q.kind = kind ∧ q.owner = player) :
    ofSnapshot s player toPlace yards' =
      (ofSnapshot s player toPlace yards).record kind ps.length := by
  have hown : ps.filter (fun q => q.owner == player) = ps :=
    List.filter_eq_self.mpr fun q hq => beq_iff_eq.mpr (hps q hq).2
  have hcount : ∀ t, ((toPlace ++ yards'.queued).filter fun q => q.owner == player).countP
        (fun q => q.kind = t) =
      ((toPlace ++ yards.queued).filter fun q => q.owner == player).countP (fun q => q.kind = t) +
        if t = kind then ps.length else 0 := by
    intro t
    have hall := ((hperm.append_left toPlace).filter fun q => q.owner == player).countP_eq
      fun q => decide (q.kind = t)
    rw [hall, ← List.append_assoc, List.filter_append, hown, List.countP_append,
      Stack.countP_of_forall fun q hq => (hps q hq).1]
  have hlength := List.length_pos_of_ne_nil hsome
  have hentries : ∀ t, (ofSnapshot s player toPlace yards').counts.get? t =
      ((ofSnapshot s player toPlace yards).record kind ps.length).counts.get? t := by
    intro t
    rw [get?_record]
    unfold ofSnapshot
    rw [built_foldl_record, get?_foldl_record, get?_foldl_record, hcount]
    by_cases h : t = kind
    · rw [if_pos h, if_pos h, if_neg (by omega), Nat.add_assoc]
    · rw [if_neg h, if_neg h, Nat.add_zero]
  -- a census is sorted by kind, so the order of counting leaves no trace in it
  exact congrArg Census.mk (SortedMap.ext hentries)

end Census

/-! ## The census of a pass -/

namespace Planner

variable {arbiter : Arbiter} {catalog : Catalog} {pass next last : Pass}

/-- The census of a pass is what a new count makes. -/
theorem Reached.census_eq (h : Reached s arbiter catalog player pass) :
    pass.census = .ofSnapshot s player [] pass.yards := by
  obtain ⟨start, bs, hstart, hbs⟩ := h
  obtain ⟨-, -, -, hplayer, -, hcensus⟩ := openPass_eq_ok hstart
  refine (hbs.invariant (P := fun q => q.player = player ∧
    q.census = .ofSnapshot s player [] q.yards) ?_ ⟨hplayer, hcensus⟩).2
  rintro q b next hbuys - ⟨hplayer, hcensus⟩
  have hps : ∀ piece ∈ b.pieces, piece.kind = b.offer.kind ∧ piece.owner = player := by
    intro piece hpiece
    rw [← hplayer]
    exact hbuys.kind_owner_of_mem hpiece
  -- an empty batch would make an entry of zero in the census and none in the new count
  have hsome : b.pieces ≠ [] := by
    obtain ⟨_, _, hmade⟩ := hbuys.made
    exact Offer.ne_nil_of_materialize hmade
  refine ⟨hbuys.player.trans hplayer, ?_⟩
  rw [hbuys.counted, hcensus, Census.ofSnapshot_of_perm hbuys.queued_perm hsome hps]

theorem Reached.owner_queued (h : Reached s arbiter catalog player pass) :
    ∀ q ∈ pass.yards.queued, q.owner = player := by
  obtain ⟨start, bs, hstart, hbs⟩ := h
  obtain ⟨-, -, -, hplayer, -⟩ := openPass_eq_ok hstart
  refine (hbs.invariant (P := fun pass => pass.player = player ∧
    ∀ q ∈ pass.yards.queued, q.owner = player) ?_ ⟨hplayer, ?_⟩).2
  · rintro pass b next hbuys - ⟨hplayer, hqueued⟩
    refine ⟨hbuys.player.trans hplayer, fun q hq => ?_⟩
    rcases List.mem_append.mp (hbuys.queued_perm.mem_iff.mp hq) with hold | hnew
    · exact hqueued q hold
    · exact (hbuys.kind_owner_of_mem hnew).2.trans hplayer
  · rw [queued_eq_nil_of_openPass hstart]
    exact fun q hq => absurd hq List.not_mem_nil

/-- Of a kind that stands under its own number, the census of a pass counts the player's pieces on
the board and all that waits. -/
theorem Reached.built_eq (h : Reached s arbiter catalog player pass) (htallied : s.Tallied)
    {k : PieceKind} (hk : s.kind t = .ok k) (hid : k.id = t) :
    pass.census.built t =
      s.piecesOf player t + pass.yards.queued.countP fun q => q.kind = t := by
  have hown : pass.yards.queued.filter (fun q => q.owner == player) = pass.yards.queued :=
    List.filter_eq_self.mpr fun q hq => beq_iff_eq.mpr (h.owner_queued q hq)
  rw [h.census_eq, Census.built_ofSnapshot player [] pass.yards hk hid, List.nil_append, hown,
    Snapshot.countOwned_eq_piecesOf htallied]

/-! ## The passes that a planner goes through -/

/-- What a fill goes through: the pass that it starts from, and one more after each batch. -/
def fillPasses (arbiter : Arbiter) (yard place : TerritoryId) (offers : List Offer) (role : Role) :
    Nat → Pass → Planner → List Pass
  | 0, pass, _ => [pass]
  | n + 1, pass, p =>
    pass :: match round arbiter yard place offers role pass p with
      | (.ok (some next), p) => fillPasses arbiter yard place offers role n next p
      | _ => []

def fillPlacesPasses (arbiter : Arbiter) (yard : TerritoryId) (offers : List Offer) (role : Role) :
    List TerritoryId → Pass → Planner → List Pass
  | [], pass, _ => [pass]
  | place :: places, pass, p =>
    fillPasses arbiter yard place offers role p.config.maxRounds pass p ++
      match fill arbiter yard place offers role p.config.maxRounds pass p with
      | (.ok next, p) => fillPlacesPasses arbiter yard offers role places next p
      | _ => []

def phasePasses (s : Snapshot) (arbiter : Arbiter) (offers : List Offer)
    (places : Pass → TerritoryId → List TerritoryId) :
    List TerritoryId → Pass → Planner → List Pass
  | [], pass, _ => [pass]
  | yard :: yards, pass, p =>
    match roleOf s yard pass.player with
    | .error _ => [pass]
    | .ok role =>
      fillPlacesPasses arbiter yard offers role (places pass yard) pass p ++
        match fillPlaces arbiter yard offers role (places pass yard) pass p with
        | (.ok next, p) => phasePasses s arbiter offers places yards next p
        | _ => []

/-- What a planner goes through in a pass for a player, whether it ends in a plan or in a fault:
first with land and air in one order of the yards, and then with ships in another. -/
def passes (s : Snapshot) (arbiter : Arbiter) (player : PlayerId)
    (landOrder seaOrder : List TerritoryId) (p : Planner) : List Pass :=
  match Catalog.ofFrontier s player p.config.currency, openPass s player with
  | .ok catalog, .ok start =>
    let offers := catalog.land ++ catalog.air
    phasePasses s arbiter offers (fun _ yard => [yard]) landOrder start p ++
      match phase s arbiter offers (fun _ yard => [yard]) landOrder start p with
      | (.ok next, p) => phasePasses s arbiter catalog.sea seaZones seaOrder next p
      | _ => []
  | _, _ => []

section

variable {yard place : TerritoryId} {offers : List Offer} {role : Role} {p p' : Planner}
  {places landOrder seaOrder : List TerritoryId}

/-! What a loop ends with is the last pass that it goes through. -/

theorem mem_fillPasses_of_fill {n : Nat}
    (h : fill arbiter yard place offers role n pass p = (.ok last, p')) :
    last ∈ fillPasses arbiter yard place offers role n pass p := by
  induction n generalizing pass p with
  | zero =>
    simp only [fill, Prod.mk.injEq, Except.ok.injEq] at h
    exact List.mem_singleton.mpr h.1.symm
  | succ n ih =>
    rw [fillPasses, List.mem_cons]
    rcases fill_succ_eq_ok h with ⟨p₁, -, hlast⟩ | ⟨next, p₁, hround, hrest⟩
    · exact .inl hlast
    · rw [hround]
      exact .inr (ih hrest)

theorem mem_fillPlacesPasses_of_fillPlaces
    (h : fillPlaces arbiter yard offers role places pass p = (.ok last, p')) :
    last ∈ fillPlacesPasses arbiter yard offers role places pass p := by
  induction places generalizing pass p with
  | nil =>
    simp only [fillPlaces, Prod.mk.injEq, Except.ok.injEq] at h
    exact List.mem_singleton.mpr h.1.symm
  | cons place places ih =>
    obtain ⟨next, p₁, hfill, -, hrest⟩ := fillPlaces_cons_eq_ok h
    rw [fillPlacesPasses, hfill, List.mem_append]
    exact .inr (ih hrest)

theorem mem_phasePasses_of_phase {around : Pass → TerritoryId → List TerritoryId}
    {yards : List TerritoryId}
    (h : phase s arbiter offers around yards pass p = (.ok last, p')) :
    last ∈ phasePasses s arbiter offers around yards pass p := by
  induction yards generalizing pass p with
  | nil =>
    simp only [phase, Prod.mk.injEq, Except.ok.injEq] at h
    exact List.mem_singleton.mpr h.1.symm
  | cons yard yards ih =>
    obtain ⟨role, next, p₁, hrole, hfill, -, hrest⟩ := phase_cons_eq_ok h
    rw [phasePasses, hrole]
    simp only [hfill]
    exact List.mem_append_right _ (ih hrest)

/-- A plan reports a pass that the planner went through, with the yards in the order of their
numbers both times. -/
theorem exists_mem_passes_of_plan {plan : Plan} (h : p.plan s arbiter player = (.ok plan, p')) :
    ∃ start last, openPass s player = .ok start ∧
      last ∈ p.passes s arbiter player start.yards.keys start.yards.keys ∧
      toPlan s last = .ok plan := by
  obtain ⟨catalog, start, last, p₁, hcatalog, hstart, hrun, hplan⟩ := plan_run h
  obtain ⟨next, p₂, hland, -, hsea⟩ := runPhases_eq_ok hrun
  refine ⟨start, last, hstart, ?_, hplan⟩
  unfold passes
  rw [hcatalog, hstart]
  simp only [hland]
  exact List.mem_append_right _ (mem_phasePasses_of_phase hsea)

/-! Purchases lead to all of them. -/

theorem Reached.of_mem_fillPasses (h : Reached s arbiter catalog player pass)
    (hoffers : offersFor catalog yard place = offers) (hrole : roleOf s yard player = .ok role)
    {n : Nat} {q : Pass} (hq : q ∈ fillPasses arbiter yard place offers role n pass p) :
    Reached s arbiter catalog player q := by
  induction n generalizing pass p with
  | zero =>
    rw [List.mem_singleton.mp hq]
    exact h
  | succ n ih =>
    rw [fillPasses, List.mem_cons] at hq
    rcases hq with rfl | hq
    · exact h
    · split at hq
      · rename_i next p₁ hround
        exact ih (h.of_round hoffers hrole hround) hq
      · cases hq

theorem Reached.of_mem_fillPlacesPasses (h : Reached s arbiter catalog player pass)
    (hplaces : ∀ place ∈ places, offersFor catalog yard place = offers)
    (hrole : roleOf s yard player = .ok role) {q : Pass}
    (hq : q ∈ fillPlacesPasses arbiter yard offers role places pass p) :
    Reached s arbiter catalog player q := by
  induction places generalizing pass p with
  | nil =>
    rw [List.mem_singleton.mp hq]
    exact h
  | cons place places ih =>
    obtain ⟨hhere, hrest⟩ := List.forall_mem_cons.mp hplaces
    rw [fillPlacesPasses, List.mem_append] at hq
    rcases hq with hq | hq
    · exact h.of_mem_fillPasses hhere hrole hq
    · split at hq
      · rename_i next p₁ hfill
        exact ih (h.of_mem_fillPasses hhere hrole (mem_fillPasses_of_fill hfill)) hrest hq
      · cases hq

theorem Reached.of_mem_phasePasses (h : Reached s arbiter catalog player pass)
    {around : Pass → TerritoryId → List TerritoryId} {yards : List TerritoryId}
    (hplaces : ∀ q yard, ∀ place ∈ around q yard, offersFor catalog yard place = offers) {q : Pass}
    (hq : q ∈ phasePasses s arbiter offers around yards pass p) :
    Reached s arbiter catalog player q := by
  induction yards generalizing pass p with
  | nil =>
    rw [List.mem_singleton.mp hq]
    exact h
  | cons yard yards ih =>
    rw [phasePasses, h.player_eq] at hq
    split at hq
    · rw [List.mem_singleton.mp hq]
      exact h
    · rename_i role hrole
      rcases List.mem_append.mp hq with hq | hq
      · exact h.of_mem_fillPlacesPasses (hplaces pass yard) hrole hq
      · split at hq
        · rename_i next p₁ hfill
          have hlast := mem_fillPlacesPasses_of_fillPlaces hfill
          exact ih (h.of_mem_fillPlacesPasses (hplaces pass yard) hrole hlast) hq
        · cases hq

theorem exists_reached_of_mem_passes (h : pass ∈ p.passes s arbiter player landOrder seaOrder) :
    ∃ catalog, Catalog.ofFrontier s player p.config.currency = .ok catalog ∧
      Reached s arbiter catalog player pass := by
  unfold passes at h
  split at h
  · rename_i catalog start hcatalog hstart
    refine ⟨catalog, hcatalog, ?_⟩
    have hopened : Reached s arbiter catalog player start := .of_openPass hstart
    rcases List.mem_append.mp h with h | h
    · exact hopened.of_mem_phasePasses (fun _ _ _ => offersFor_of_mem_singleton catalog) h
    · split at h
      · rename_i next p₁ hland
        have hnext := hopened.of_mem_phasePasses
          (fun _ _ _ => offersFor_of_mem_singleton catalog) (mem_phasePasses_of_phase hland)
        exact hnext.of_mem_phasePasses (fun _ _ _ => offersFor_of_mem_seaZones catalog) h
      · cases h
  · cases h

/-- In every pass that a planner goes through, in whatever orders it takes the yards, the census is
the one that a new count of the board and the queues makes. Of each kind that stands under its own
number it counts the player's pieces in all stacks and all that waits in any place. -/
theorem census_recounts (h : pass ∈ p.passes s arbiter player landOrder seaOrder) :
    pass.census = .ofSnapshot s player [] pass.yards ∧
      (s.Tallied → ∀ t k, s.kind t = .ok k → k.id = t →
        pass.census.built t =
          s.piecesOf player t + pass.yards.queued.countP fun q => q.kind = t) := by
  obtain ⟨catalog, -, hreached⟩ := exists_reached_of_mem_passes h
  exact ⟨hreached.census_eq, fun htallied t k hk hid => hreached.built_eq htallied hk hid⟩

/-- On the separate seas one infantry stands on the board and the ceiling of three leaves room for
two more. -/
theorem census_recounts_separateSeas :
    let s := Samples.separateSeas
    let ports := [Samples.redCapital, Samples.redProvince]
    s.Tallied ∧ (openPass s Samples.red).toOption.map (·.yards.keys) = some ports ∧
      ∃ pass ∈ Samples.planner.passes s (.ofRules s) Samples.red ports ports,
        (pass.yards.queued.countP fun q => q.kind = Samples.infantry) = 2 ∧
        pass.census = .ofSnapshot s Samples.red [] pass.yards ∧
        pass.census.built Samples.infantry = 3 := by
  intro s ports
  have htallied : s.Tallied := by decide +kernel
  have hports : (openPass s Samples.red).toOption.map (·.yards.keys) = some ports := by
    decide +kernel
  have hsome : ((Samples.planner.passes s (.ofRules s) Samples.red ports ports).any fun pass =>
      (pass.yards.queued.countP fun q => q.kind = Samples.infantry) == 2) = true := by
    decide +kernel
  obtain ⟨pass, hpass, hqueued⟩ := List.any_eq_true.mp hsome
  have hqueued := beq_iff_eq.mp hqueued
  obtain ⟨k, hk, hid⟩ := Outcome.exists_of_toOption
    (show (s.kind Samples.infantry).toOption.map PieceKind.id = some Samples.infantry by
      decide +kernel)
  have hboard : s.piecesOf Samples.red Samples.infantry = 1 := by decide +kernel
  obtain ⟨hcensus, hcount⟩ := census_recounts hpass
  refine ⟨htallied, hports, pass, hpass, hqueued, hcensus, ?_⟩
  rw [hcount htallied _ k hk hid, hboard, hqueued]

end

end Planner

end Quartermaster
