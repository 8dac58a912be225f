import Quartermaster.Proofs.Frontier
import Quartermaster.Proofs.Opening
import Quartermaster.Proofs.Rules
import Quartermaster.Samples

/-!
# Ceilings of kinds

No plan breaks the ceiling of a kind. The arbiter sees one place at a time and so cannot hold a
ceiling that counts the whole board; the census does. Through a pass it counts what is on the
board and in all queues (`Pass.Counted`), and since a batch is bought only where the census leaves
room for the whole of it, what waits stays within the ceilings (`Snapshot.WithinCeilings`).
-/

namespace Quartermaster

variable {s : Snapshot} {player : PlayerId} {t : KindId}

/-! ## What a census counts -/

namespace Census

theorem built_record (c : Census) (kind t : KindId) (n : Nat) :
    (c.record kind n).built t = c.built t + if t = kind then n else 0 := by
  unfold built record SortedMap.update
  split
  · rename_i h
    subst h
    rw [SortedMap.get?_insert_self]
    rfl
  · rename_i h
    rw [SortedMap.get?_insert_of_ne _ _ h]
    rfl

theorem built_foldl_record (ps : List Piece) (c : Census) (t : KindId) :
    (ps.foldl (fun c p => c.record p.kind 1) c).built t =
      c.built t + ps.countP fun p => p.kind = t := by
  induction ps generalizing c with
  | nil => rfl
  | cons p ps ih =>
    rw [List.foldl_cons, ih, built_record, List.countP_cons]
    by_cases h : p.kind = t
    · subst h
      simp only [if_true, decide_true]
      omega
    · rw [if_neg (Ne.symm h), if_neg (by simpa using h)]
      rfl

/-- Kinds that occur in the list are counted, and those that a census counts already keep their
count. -/
theorem built_foldl_board (s : Snapshot) (player : PlayerId) (ks : List PieceKind) (c : Census)
    (t : KindId) (hc : c.built t = 0 ∨ c.built t = s.countOwned player t) :
    (ks.foldl (fun c k =>
      let count := s.countOwned player k.id
      if 0 < count then (⟨c.counts.insert k.id count⟩ : Census) else c) c).built t =
        if t ∈ ks.map PieceKind.id then s.countOwned player t else c.built t := by
  induction ks generalizing c with
  | nil => simp
  | cons k ks ih =>
    rw [List.foldl_cons]
    by_cases hpos : 0 < s.countOwned player k.id
    · simp only [hpos, if_true]
      by_cases hk : t = k.id
      · subst hk
        have hbuilt : (⟨c.counts.insert k.id (s.countOwned player k.id)⟩ : Census).built k.id =
            s.countOwned player k.id := by
          unfold built
          rw [SortedMap.get?_insert_self]
          rfl
        rw [ih _ (.inr hbuilt), hbuilt]
        simp
      · have hbuilt : (⟨c.counts.insert k.id (s.countOwned player k.id)⟩ : Census).built t =
            c.built t := by
          unfold built
          rw [SortedMap.get?_insert_of_ne _ _ hk]
        rw [ih _ (by rwa [hbuilt]), hbuilt]
        simp [hk]
    · simp only [hpos, if_false]
      rw [ih c hc]
      by_cases hk : t = k.id
      · -- a kind of which the player has nothing gets no entry
        subst hk
        have hzero : c.built k.id = s.countOwned player k.id := by omega
        simp [hzero]
      · simp [hk]

theorem built_ofBoard (player : PlayerId) {k : PieceKind} (hk : s.kind t = .ok k)
    (hid : k.id = t) : (ofBoard s player).built t = s.countOwned player t := by
  have hmem : t ∈ s.roster.toList.map PieceKind.id := by
    have hvalue : k ∈ s.roster.toList :=
      SortedMap.mem_values_iff.mpr ⟨t, Snapshot.kind_eq_ok_iff.mp hk⟩
    rw [← hid]
    exact List.mem_map_of_mem hvalue
  unfold ofBoard
  rw [built_foldl_board s player _ empty t (.inl rfl), if_pos hmem]

theorem built_ofSnapshot (player : PlayerId) (toPlace : List Piece) (yards : Yards)
    {k : PieceKind} (hk : s.kind t = .ok k) (hid : k.id = t) :
    (ofSnapshot s player toPlace yards).built t = s.countOwned player t +
      ((toPlace ++ yards.queued).filter fun p => p.owner == player).countP fun p => p.kind = t := by
  unfold ofSnapshot
  rw [built_foldl_record, built_ofBoard player hk hid]

theorem allows_iff {c : Census} {o : Offer} :
    c.allows o = true ↔ o.buildLimit = .unlimited ∨
      ∃ limit, o.buildLimit = .atMost limit ∧ o.quantity ≤ limit - c.built o.kind := by
  unfold allows
  cases o.buildLimit <;> simp

theorem allows_of_record {c : Census} {o : Offer} {kind : KindId} {n : Nat}
    (h : (c.record kind n).allows o = true) : c.allows o = true := by
  rw [allows_iff] at h ⊢
  rcases h with hfree | ⟨limit, hlimit, hroom⟩
  · exact .inl hfree
  · refine .inr ⟨limit, hlimit, ?_⟩
    rw [built_record] at hroom
    omega

end Census

/-! ## Pieces within the ceilings -/

/-- Together with what the player has on the board, new pieces are within the ceilings. -/
def Snapshot.WithinCeilings (s : Snapshot) (player : PlayerId) (ps : List Piece) : Prop :=
  ∀ t k, s.kind t = .ok k →
    match k.buildLimit with
    | .unlimited => True
    | .forbidden => (ps.countP fun p => p.kind = t) = 0
    | .atMost limit =>
      0 < (ps.countP fun p => p.kind = t) →
        s.countOwned player t + (ps.countP fun p => p.kind = t) ≤ limit

theorem Snapshot.withinCeilings_nil (s : Snapshot) (player : PlayerId) :
    s.WithinCeilings player [] := by
  intro t k _
  cases k.buildLimit with
  | unlimited => trivial
  | forbidden => rfl
  | atMost limit => exact fun h => absurd h (Nat.lt_irrefl 0)

theorem Snapshot.WithinCeilings.of_kind {ps : List Piece} {t : KindId} {k : PieceKind}
    (h : s.WithinCeilings player ps) (hk : s.kind t = .ok k) :
    (k.buildLimit = .forbidden → (ps.countP fun p => p.kind = t) = 0) ∧
      ∀ limit, k.buildLimit = .atMost limit → 0 < (ps.countP fun p => p.kind = t) →
        s.countOwned player t + (ps.countP fun p => p.kind = t) ≤ limit := by
  have hwithin := h t k hk
  constructor
  · intro hforbidden
    rw [hforbidden] at hwithin
    exact hwithin
  · intro limit hlimit
    rw [hlimit] at hwithin
    exact hwithin

/-- Fewer pieces of every kind are within the ceilings too. -/
theorem Snapshot.WithinCeilings.of_countP_le {ps qs : List Piece}
    (h : s.WithinCeilings player ps)
    (hle : ∀ t, (qs.countP fun p => p.kind = t) ≤ ps.countP fun p => p.kind = t) :
    s.WithinCeilings player qs := by
  intro t k hk
  have hps := h t k hk
  have ht := hle t
  cases hlimit : k.buildLimit with
  | unlimited => trivial
  | forbidden =>
    rw [hlimit] at hps
    exact Nat.le_zero.mp (hps ▸ ht)
  | atMost limit =>
    rw [hlimit] at hps
    intro hpos
    have hbound := hps (Nat.lt_of_lt_of_le hpos ht)
    omega

/-! ## Ceilings in a turn -/

section

variable {turn : PlaceTurn} {ps qs : List Piece}

/-- Where what is placed and what is asked for are within the ceilings together, no ceiling stands
in the way. -/
theorem PlaceTurn.checkLimits_of_withinCeilings
    (hplaced : ∀ kind, turn.placedOfKind kind = qs.countP fun q => q.kind = kind)
    (hkinds : ∀ q ∈ ps, ∃ k, s.kind q.kind = .ok k)
    (h : s.WithinCeilings turn.player (qs ++ ps)) :
    turn.checkLimits s (Stack.countBy Piece.kind ps).entries = .ok () := by
  rw [checkLimits_countBy_iff]
  intro t hpos
  obtain ⟨q, hq, hkind⟩ := List.countP_pos_iff.mp hpos
  obtain ⟨k, hk⟩ := hkinds q hq
  rw [of_decide_eq_true hkind] at hk
  refine checkLimit_eq_ok_iff.mpr ⟨k, hk, ?_⟩
  have hlimit := h t k hk
  rw [List.countP_append, ← hplaced] at hlimit
  cases hbuild : k.buildLimit with
  | unlimited => trivial
  | forbidden =>
    simp only [hbuild] at hlimit
    omega
  | atMost limit =>
    simp only [hbuild] at hlimit
    show s.countOwned turn.player t + turn.placedOfKind t + _ ≤ limit
    rw [Nat.add_assoc]
    exact hlimit (by omega)

/-- What the ceilings let through is within them together with what is placed. -/
theorem Snapshot.WithinCeilings.of_checkLimits (h : s.WithinCeilings turn.player qs)
    (hplaced : ∀ kind, turn.placedOfKind kind = qs.countP fun q => q.kind = kind)
    (hcheck : turn.checkLimits s (Stack.countBy Piece.kind ps).entries = .ok ()) :
    s.WithinCeilings turn.player (qs ++ ps) := by
  rw [PlaceTurn.checkLimits_countBy_iff] at hcheck
  intro t k hk
  have hold := h t k hk
  rw [List.countP_append]
  by_cases hnone : (ps.countP fun q => q.kind = t) = 0
  · -- nothing more of this kind
    rw [hnone, Nat.add_zero]
    exact hold
  · obtain ⟨k', hk', hroom⟩ :=
      PlaceTurn.checkLimit_eq_ok_iff.mp (hcheck t (Nat.pos_of_ne_zero hnone))
    obtain rfl : k = k' := Except.ok.inj (hk.symm.trans hk')
    rw [hplaced] at hroom
    cases hbuild : k.buildLimit with
    | unlimited => trivial
    | forbidden =>
      rw [hbuild] at hroom
      exact absurd hroom id
    | atMost limit =>
      rw [hbuild] at hroom
      intro _
      show _ ≤ limit
      dsimp only at hroom
      omega

end

/-! ## Ceilings in a pass -/

/-- The census of a pass counts the player's pieces on the board and in the queues, of every
known kind. -/
def Pass.Counted (s : Snapshot) (pass : Pass) : Prop :=
  ∀ t k, s.kind t = .ok k → pass.census.built t =
    s.countOwned pass.player t + pass.yards.queued.countP fun p => p.kind = t

variable {arbiter : Arbiter} {pass next last : Pass} {b : Purchase} {bs : List Purchase}

/-- A batch adds to the queues of its own kind, and by its length. -/
theorem Buys.countP_queued (h : Buys arbiter pass b next) (t : KindId) :
    (next.yards.queued.countP fun p => p.kind = t) =
      (pass.yards.queued.countP fun p => p.kind = t) +
        if t = b.offer.kind then b.pieces.length else 0 := by
  rw [h.queued_perm.countP_eq, List.countP_append, h.countP_pieces]

theorem Pass.Counted.buys (hpass : pass.Counted s) (h : Buys arbiter pass b next) :
    next.Counted s := by
  intro t k hk
  rw [h.counted, Census.built_record, hpass t k hk, h.player, h.countP_queued, Nat.add_assoc]

theorem Snapshot.WithinCeilings.buys {k : PieceKind}
    (hpass : s.WithinCeilings pass.player pass.yards.queued) (hcount : pass.Counted s)
    (h : Buys arbiter pass b next) (hk : s.kind b.offer.kind = .ok k)
    (hlimit : b.offer.buildLimit = k.buildLimit) :
    s.WithinCeilings next.player next.yards.queued := by
  intro t k' hk'
  rw [h.player, h.countP_queued]
  by_cases ht : t = b.offer.kind
  · -- the kind that was bought: the census left room for the batch
    subst ht
    obtain rfl : k = k' := Except.ok.inj (hk.symm.trans hk')
    have hbuilt := hcount _ k hk
    rcases Census.allows_iff.mp h.allowed with hfree | ⟨limit, hmax, hroom⟩
    · rw [← hlimit, hfree]
      trivial
    · rw [← hlimit, hmax, if_pos rfl, h.length_pieces]
      rw [hbuilt] at hroom
      have hsome := h.quantity_pos
      intro _
      show _ ≤ limit
      omega
  · rw [if_neg ht, Nat.add_zero]
    exact hpass t k' hk'

/-- What a pass has queued is within the ceilings, and the census knows it. -/
theorem Bought.withinCeilings {catalog : Catalog} {currency : ResourceId} (hs : s.Keyed)
    (hcatalog : Catalog.ofFrontier s player currency = .ok catalog)
    (h : Bought arbiter (Planner.Eligible s catalog player) pass bs last)
    (hcount : pass.Counted s) (hpass : s.WithinCeilings pass.player pass.yards.queued) :
    last.Counted s ∧ s.WithinCeilings last.player last.yards.queued := by
  refine h.invariant
    (P := fun q => q.Counted s ∧ s.WithinCeilings q.player q.yards.queued) ?_ ⟨hcount, hpass⟩
  rintro q b next hbuys heligible ⟨hcount, hwithin⟩
  obtain ⟨-, k, hk, hlimit⟩ := Catalog.kind_of_mem hs hcatalog heligible.mem_catalog
  exact ⟨hcount.buys hbuys, hwithin.buys hcount hbuys hk hlimit⟩

theorem Planner.counted_of_openPass (hs : s.Keyed) {start : Pass}
    (h : openPass s player = .ok start) : start.Counted s := by
  obtain ⟨-, -, -, hplayer, -, hcensus⟩ := openPass_eq_ok h
  intro t k hk
  rw [hcensus, hplayer, Census.built_ofSnapshot player [] start.yards hk (hs.kind_id hk),
    queued_eq_nil_of_openPass h]
  rfl

namespace Planner

variable {p p' : Planner} {plan : Plan}

theorem Reached.counted (hs : s.Keyed) {catalog : Catalog}
    (h : Reached s arbiter catalog player pass) :
    pass.Counted s := by
  obtain ⟨start, bs, hstart, hbs⟩ := h
  exact hbs.invariant (P := fun q => q.Counted s) (fun _ _ _ hbuys _ hq => hq.buys hbuys)
    (counted_of_openPass hs hstart)

theorem plan_withinCeilings (hs : s.Keyed) (h : p.plan s arbiter player = (.ok plan, p')) :
    s.WithinCeilings player plan.queued := by
  obtain ⟨catalog, start, bs, last, hcatalog, hstart, hbs, hplan⟩ := plan_eq_ok h
  obtain ⟨-, -, -, hplayer, -⟩ := openPass_eq_ok hstart
  obtain ⟨-, hyards, -⟩ := toPlan_eq_ok hplan
  have hnew : s.WithinCeilings start.player start.yards.queued := by
    rw [queued_eq_nil_of_openPass hstart]
    exact s.withinCeilings_nil start.player
  have hlast := (hbs.withinCeilings hs hcatalog (counted_of_openPass hs hstart) hnew).2
  rw [hbs.player_eq, hplayer] at hlast
  unfold Plan.queued
  rwa [hyards]

/-- No plan breaks a ceiling. What a plan reports as bought of a kind is what waits of it in all
the queues; of a forbidden kind that is nothing, and of a kind with a ceiling, if anything was
bought, what the player has on the whole board and what waits are within it. -/
theorem plan_keeps_ceilings (hs : s.Keyed) (h : p.plan s arbiter player = (.ok plan, p'))
    (t : KindId) :
    (plan.purchased.get? t).getD 0 = (plan.queued.countP fun q => q.kind = t) ∧
      ∀ k, s.kind t = .ok k →
        (k.buildLimit = .forbidden → (plan.purchased.get? t).getD 0 = 0) ∧
        ∀ limit, k.buildLimit = .atMost limit → 0 < (plan.purchased.get? t).getD 0 →
          s.countOwned player t + (plan.purchased.get? t).getD 0 ≤ limit ∧
          (s.Tallied → s.piecesOf player t + (plan.purchased.get? t).getD 0 ≤ limit) := by
  have hcount : (plan.purchased.get? t).getD 0 = plan.queued.countP fun q => q.kind = t := by
    obtain ⟨-, -, -, last, -, -, -, hplan⟩ := plan_eq_ok h
    obtain ⟨-, hyards, -, hpurchased⟩ := toPlan_eq_ok hplan
    unfold Plan.queued
    rw [hpurchased, hyards]
    exact Stack.getD_countBy Piece.kind _ t
  refine ⟨hcount, ?_⟩
  rw [hcount]
  intro k hk
  obtain ⟨hforbidden, hlimit⟩ := (plan_withinCeilings hs h).of_kind hk
  refine ⟨hforbidden, ?_⟩
  intro limit hbuild hpos
  have hbound := hlimit limit hbuild hpos
  refine ⟨hbound, fun htallied => ?_⟩
  rw [← Snapshot.countOwned_eq_piecesOf htallied]
  exact hbound

/-- With one infantry on the board and a ceiling of three, the plan buys two more. -/
theorem plan_keeps_ceilings_separateSeas :
    Samples.separateSeas.Keyed ∧
    ∃ plan p', Samples.planner.plan Samples.separateSeas (.ofRules Samples.separateSeas)
        Samples.red = (.ok plan, p') ∧
      (plan.purchased.get? Samples.infantry).getD 0 = 2 ∧
      Samples.separateSeas.piecesOf Samples.red Samples.infantry = 1 ∧
      Samples.separateSeas.countOwned Samples.red Samples.infantry + 2 ≤ 3 ∧
      Samples.separateSeas.piecesOf Samples.red Samples.infantry + 2 ≤ 3 := by
  have hkeyed : Samples.separateSeas.Keyed := by decide +kernel
  have htallied : Samples.separateSeas.Tallied := by decide +kernel
  obtain ⟨k, hk, hlimit⟩ := Outcome.exists_of_toOption
    (show (Samples.separateSeas.kind Samples.infantry).toOption.map PieceKind.buildLimit =
      some (.atMost 3) by decide +kernel)
  obtain ⟨plan, p', h, hcount⟩ := Outcome.exists_run_of_toOption
    (show (Samples.planner.plan Samples.separateSeas (.ofRules Samples.separateSeas)
      Samples.red).1.toOption.map
        (fun plan => (plan.purchased.get? Samples.infantry).getD 0) = some 2 by decide +kernel)
  obtain ⟨-, hceiling⟩ := plan_keeps_ceilings hkeyed h Samples.infantry
  obtain ⟨hboard, hpieces⟩ := (hceiling k hk).2 3 hlimit (by rw [hcount]; decide)
  rw [hcount] at hboard hpieces
  exact ⟨hkeyed, plan, p', h, hcount, by decide +kernel, hboard, hpieces htallied⟩

end Planner

end Quartermaster
