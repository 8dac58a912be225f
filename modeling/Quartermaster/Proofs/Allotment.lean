import Mathlib.Order.Bounds.Basic
import Mathlib.Order.MinMax
import Quartermaster.Proofs.Legality
import Quartermaster.Samples

/-!
# What a territory may make

`Snapshot.Allots` is the rule of production as the rulebook has it: an original factory site with a
factory that was the player's from the start is bounded by the player's cap alone, a player who may
place anywhere has no bound elsewhere, and for all others the best factory at work decides. The
founding factory has to belong where it stands; the best factory may be of any domain.

The rule allots one capacity and no other, and that is the capacity of the territory unless an
output on which it hangs leaves its word (`capacity_eq_allotted`). The rule looks at the player's
factories at work as a set, so neither the order of a stack nor any piece that does not make others
has a say. An output beyond its word there can be: the rule allots two pieces more than the best
factory makes, and the word ends before (`capacity_overflows_vastProvince`).
-/

namespace Quartermaster

namespace Snapshot

variable {s s' : Snapshot} {id : TerritoryId} {player : PlayerId} {t : Territory} {p : Player}
  {c c' : Capacity} {ps : List Piece} {q : Piece} {k : PieceKind}

/-! ## The rule -/

/-- What each factory makes that a player has at work in a territory. -/
def outputs (s : Snapshot) (t : Territory) (p : Player) : Set Int :=
  {n | ∃ q k, s.Works t.stack.pieces p.id q k ∧
    n = k.fixedOutput.getD t.production - q.damage +
      if p.techs.increasedProduction = true ∧ 3 ≤ t.production then 2 else 0}

/-- The capacity that the rule of production allots to a player in a territory. -/
structure Allots (s : Snapshot) (t : Territory) (p : Player) (c : Capacity) : Prop where
  capped : s.Founded t p.id → ∀ cap, p.placementCap = some cap →
    ∃ n : Nat, c = .limited n ∧ (n : Int) = max 0 cap
  uncapped : s.Founded t p.id → p.placementCap = none → c = .unlimited
  anywhere : ¬s.Founded t p.id → p.placesAnywhere = true → c = .unlimited
  made : ¬s.Founded t p.id → p.placesAnywhere = false →
    ∃ n : Nat, c = .limited n ∧ IsGreatest (insert 0 (s.outputs t p)) (n : Int)

theorem Allots.unique (h : s.Allots t p c) (h' : s.Allots t p c') : c = c' := by
  by_cases hfounded : s.Founded t p.id
  · cases hcap : p.placementCap with
    | none => rw [h.uncapped hfounded hcap, h'.uncapped hfounded hcap]
    | some cap =>
      obtain ⟨n, rfl, hn⟩ := h.capped hfounded cap hcap
      obtain ⟨n', rfl, hn'⟩ := h'.capped hfounded cap hcap
      rw [Int.ofNat_inj.mp (hn.trans hn'.symm)]
  · cases hany : p.placesAnywhere with
    | true => rw [h.anywhere hfounded hany, h'.anywhere hfounded hany]
    | false =>
      obtain ⟨n, rfl, hn⟩ := h.made hfounded hany
      obtain ⟨n', rfl, hn'⟩ := h'.made hfounded hany
      rw [Int.ofNat_inj.mp (hn.unique hn')]

/-! ## Capacity by the rule -/

/-- The greatest of some outputs, if any of them is positive. -/
theorem isGreatest_insert_zero (made : List Int) :
    IsGreatest (insert 0 {n | n ∈ made}) (max (made.max?.getD 0) 0) := by
  cases hmax : made.max? with
  | none =>
    rw [List.max?_eq_none_iff] at hmax
    subst hmax
    refine ⟨.inl (max_self 0), ?_⟩
    rintro n (rfl | hn)
    · exact le_max_right _ _
    · exact absurd hn List.not_mem_nil
  | some best =>
    obtain ⟨hbest, hle⟩ := List.max?_eq_some_iff.mp hmax
    refine ⟨?_, ?_⟩
    · show max best 0 ∈ _
      rcases max_choice best 0 with h | h
      · rw [h]
        exact .inr hbest
      · exact .inl h
    · rintro n (rfl | hn)
      · exact le_max_right _ _
      · exact (hle n hn).trans (le_max_left _ _)

theorem mem_outputs_iff {n : Int} :
    n ∈ s.outputs t p ↔ ∃ q k, s.Works t.stack.pieces p.id q k ∧ n = exactOutput t p q k := Iff.rfl

/-- The best output, or zero, whatever a word can hold. -/
theorem isGreatest_outputs {es : List (Piece × PieceKind)}
    (hes : s.withKinds (workers t.stack.pieces p.id) = .ok es) :
    IsGreatest (insert 0 (s.outputs t p))
      (max (((es.filter fun e => e.2.isFactory).map fun e => exactOutput t p e.1 e.2).max?.getD 0)
        0) := by
  have houtputs : ∀ n, n ∈ s.outputs t p ↔
      n ∈ (es.filter fun e => e.2.isFactory).map fun e => exactOutput t p e.1 e.2 := by
    intro n
    rw [mem_outputs_iff, List.mem_map]
    simp only [works_iff, List.mem_filter, Prod.exists, mem_withKinds hes, and_assoc, eq_comm]
  rw [Set.ext houtputs]
  exact isGreatest_insert_zero _

namespace Allots

theorem of_founded (h : s.Founded t p.id) :
    s.Allots t p (p.placementCap.elim .unlimited .ofInt) where
  capped _ cap hcap := by
    rw [hcap]
    exact ⟨cap.toNat, rfl, Int.toNat_eq_max cap ▸ max_comm cap 0⟩
  uncapped _ hcap := by rw [hcap, Option.elim_none]
  anywhere h' := absurd h h'
  made h' := absurd h h'

theorem of_placesAnywhere (h : ¬s.Founded t p.id) (hany : p.placesAnywhere = true) :
    s.Allots t p .unlimited where
  capped h' := absurd h' h
  uncapped h' := absurd h' h
  anywhere _ _ := rfl
  made _ hbounded := absurd (hany.symm.trans hbounded) (by decide)

theorem of_output (h : ¬s.Founded t p.id) (hbounded : p.placesAnywhere = false) {made : Int}
    (hmade : IsGreatest (insert 0 (s.outputs t p)) made) : s.Allots t p (.ofInt made) where
  capped h' := absurd h' h
  uncapped h' := absurd h' h
  anywhere _ hany := absurd (hany.symm.trans hbounded) (by decide)
  made _ _ := by
    refine ⟨made.toNat, rfl, ?_⟩
    rwa [Int.toNat_of_nonneg (hmade.2 (Set.mem_insert 0 _))]

end Allots

section

variable (hkinds : ∀ q ∈ workers t.stack.pieces p.id, ∃ k, s.kind q.kind = .ok k)

include hkinds

/-- The potential of a territory is the best of its outputs, or zero if none is positive. -/
theorem productionPotential_isGreatest {made : Int}
    (h : s.productionPotential t.stack t p {} = .ok made) :
    IsGreatest (insert 0 (s.outputs t p)) made := by
  have hfits := (exists_productionPotential_iff hkinds).mp ⟨made, h⟩
  obtain ⟨found, hfound, hmade⟩ := Outcome.bind_eq_ok_iff.mp h
  rw [Outcome.pure_eq_ok_iff] at hmade
  subst hmade
  have houtputs : ∀ n, n ∈ s.outputs t p ↔ n ∈ found.filterMap fun made => made := by
    intro n
    refine Iff.trans ?_ (mem_outputs hfound).symm
    exact exists_congr fun q => exists_congr fun k =>
      and_congr_right fun hworks => (and_iff_right (hfits q k hworks)).symm
  rw [Set.ext houtputs]
  exact isGreatest_insert_zero _

theorem exists_allots : ∃ c, s.Allots t p c := by
  by_cases hfounded : s.Founded t p.id
  · exact ⟨_, .of_founded hfounded⟩
  cases hany : p.placesAnywhere with
  | true => exact ⟨_, .of_placesAnywhere hfounded hany⟩
  | false =>
    obtain ⟨es, hes⟩ := exists_withKinds_of_kinds hkinds
    exact ⟨_, .of_output hfounded hany (isGreatest_outputs hes)⟩

/-- A territory that has a capacity has the one that the rule allots. -/
theorem allots_of_capacity (ht : s.territory id = .ok t) (hp : s.player p.id = .ok p)
    (h : s.capacity id p.id = .ok c) : s.Allots t p c := by
  by_cases hfounded : s.Founded t p.id
  · rw [capacity_of_founded ht hp hkinds hfounded, Except.ok.injEq] at h
    exact h ▸ .of_founded hfounded
  cases hany : p.placesAnywhere with
  | true =>
    rw [capacity_of_placesAnywhere ht hp hkinds hfounded hany, Except.ok.injEq] at h
    exact h ▸ .of_placesAnywhere hfounded hany
  | false =>
    rw [capacity_of_output ht hp hkinds hfounded hany, Outcome.map_eq_ok_iff] at h
    obtain ⟨made, hmade, rfl⟩ := h
    exact .of_output hfounded hany (productionPotential_isGreatest hkinds hmade)

end

/-! ## Pieces without a part in production -/

/-- A piece that makes nothing for a player: not the player's, aboard a transport, or of a kind
that makes no pieces. -/
def Idle (s : Snapshot) (player : PlayerId) (q : Piece) : Prop :=
  q.owner ≠ player ∨ q.isTransported = true ∨ ∃ k, s.kind q.kind = .ok k ∧ k.isFactory = false

theorem Works.not_idle (h : s.Works ps player q k) : ¬s.Idle player q := by
  rintro (hother | haboard | ⟨k', hk', hidle⟩)
  · exact hother h.owned
  · rw [h.free] at haboard
    cases haboard
  · rw [h.known, Except.ok.injEq] at hk'
    subst hk'
    rw [h.factory] at hidle
    cases hidle

/-- Idle pieces that come and go leave the factories at work as they are. -/
theorem works_iff_of_perm {qs comers goers : List Piece}
    (hidle : ∀ q ∈ comers ++ goers, s.Idle player q) (hperm : (qs ++ goers).Perm (ps ++ comers)) :
    s.Works qs player q k ↔ s.Works ps player q k := by
  have hmove : ∀ {ps qs comers goers : List Piece}, (∀ q ∈ comers, s.Idle player q) →
      (qs ++ goers).Perm (ps ++ comers) → s.Works qs player q k → s.Works ps player q k := by
    intro ps qs comers goers hcomers hperm h
    rcases List.mem_append.mp (hperm.subset (List.mem_append_left _ h.present)) with hq | hq
    · exact { h with present := hq }
    · exact absurd (hcomers q hq) h.not_idle
  rw [List.forall_mem_append] at hidle
  exact ⟨hmove hidle.1 hperm, hmove hidle.2 hperm.symm⟩

theorem works_iff_of_roster (h : s.roster = s'.roster) :
    s.Works ps player q k ↔ s'.Works ps player q k := by
  have hkind : s.kind = s'.kind := congrArg Roster.kind h
  exact ⟨fun hq => { hq with known := hkind ▸ hq.known },
    fun hq => { hq with known := hkind ▸ hq.known }⟩

theorem founded_congr {st : Stack}
    (hworks : ∀ q k, s'.Works st.pieces player q k ↔ s.Works t.stack.pieces player q k) :
    s'.Founded (t.withStack st) player ↔ s.Founded t player := by
  constructor
  · rintro ⟨hsite, q, k, hq, hhome⟩
    exact ⟨hsite, q, k, (hworks q k).mp hq, hhome⟩
  · rintro ⟨hsite, q, k, hq, hhome⟩
    exact ⟨hsite, q, k, (hworks q k).mpr hq, hhome⟩

section

variable {st : Stack}
  (hworks : ∀ q k, s'.Works st.pieces p.id q k ↔ s.Works t.stack.pieces p.id q k)

include hworks

/-- The rule looks at the factories at work as a set. -/
theorem Allots.congr (h : s.Allots t p c) : s'.Allots (t.withStack st) p c := by
  have houtputs : s'.outputs (t.withStack st) p = s.outputs t p := by
    ext n
    exact exists_congr fun q => exists_congr fun k => and_congr_left fun _ => hworks q k
  constructor <;> rw [founded_congr hworks]
  · exact h.capped
  · exact h.uncapped
  · exact h.anywhere
  · rw [houtputs]
    exact h.made

theorem overflows_congr : s'.Overflows (t.withStack st) p ↔ s.Overflows t p := by
  constructor
  · rintro ⟨hunfounded, hbounded, q, k, hq, hbeyond⟩
    exact ⟨mt (founded_congr hworks).mpr hunfounded, hbounded, q, k, (hworks q k).mp hq,
      fun h => hbeyond ⟨h.damaged, h.whole⟩⟩
  · rintro ⟨hunfounded, hbounded, q, k, hq, hbeyond⟩
    exact ⟨mt (founded_congr hworks).mp hunfounded, hbounded, q, k, (hworks q k).mpr hq,
      fun h => hbeyond ⟨h.damaged, h.whole⟩⟩

/-- Two stacks with the same factories at work give a territory the same capacity, or none. -/
theorem capacity_congr (ht : s.territory id = .ok t) (ht' : s'.territory id = .ok (t.withStack st))
    (hp : s.player p.id = .ok p) (hp' : s'.player p.id = .ok p)
    (hkinds : ∀ q ∈ workers t.stack.pieces p.id, ∃ k, s.kind q.kind = .ok k)
    (hkinds' : ∀ q ∈ workers st.pieces p.id, ∃ k, s'.kind q.kind = .ok k) (c : Capacity) :
    s'.capacity id p.id = .ok c ↔ s.capacity id p.id = .ok c := by
  have hover := overflows_congr hworks
  rcases capacity_cases rfl ht hp hkinds with ⟨hfits, c₀, hc₀⟩ | ⟨hbeyond, step, hstep⟩ <;>
    rcases capacity_cases rfl ht' hp' hkinds' with ⟨hfits', c₁, hc₁⟩ | ⟨hbeyond', step', hstep'⟩
  · have hallots := (allots_of_capacity hkinds ht hp hc₀).congr hworks
    rw [hc₀, hc₁, (allots_of_capacity hkinds' ht' hp' hc₁).unique hallots]
  · exact absurd (hover.mp hbeyond') hfits
  · exact absurd (hover.mpr hbeyond) hfits'
  · rw [hstep, hstep']
    exact iff_of_false nofun nofun

end

/-- The rule of production allots one capacity to a player in a territory, and this is the capacity
there unless an output on which it hangs leaves its word; then there is none. That does not change
when the pieces are put in another order and when idle pieces come or go. -/
theorem capacity_eq_allotted (hs : s.Keyed) (ht : s.territory id = .ok t)
    (hp : s.player player = .ok p)
    (hkinds : ∀ q ∈ t.stack.pieces, q.owner = player → q.isTransported = false →
      ∃ k, s.kind q.kind = .ok k) :
    ∃ c, (∀ c', s.Allots t p c' ↔ c' = c) ∧
      (¬s.Overflows t p → s.capacity id player = .ok c) ∧
      (s.Overflows t p → ∃ step, s.capacity id player = .error (.overflow step)) ∧
      ∀ ps comers goers : List Piece, (∀ q ∈ comers ++ goers, s.Idle player q) →
        (ps ++ goers).Perm (t.stack.pieces ++ comers) →
          ∃ s', s.modifyTerritory id (fun t => t.withStack ⟨ps⟩) = .ok s' ∧
            ∀ c', s'.capacity id player = .ok c' ↔ s.capacity id player = .ok c' := by
  obtain rfl : p.id = player := hs.player_id hp
  have hknown : ∀ q ∈ workers t.stack.pieces p.id, ∃ k, s.kind q.kind = .ok k := by
    intro q hq
    obtain ⟨hq, howned, hfree⟩ := mem_workers.mp hq
    exact hkinds q hq howned hfree
  obtain ⟨c, hallots⟩ := exists_allots hknown
  refine ⟨c, fun c' => ⟨fun h => h.unique hallots, fun h => h ▸ hallots⟩, ?_, ?_, ?_⟩
  · intro hfits
    rcases capacity_cases rfl ht hp hknown with ⟨-, c', hc'⟩ | ⟨hbeyond, -⟩
    · rw [hc', (allots_of_capacity hknown ht hp hc').unique hallots]
    · exact absurd hbeyond hfits
  · intro hbeyond
    rcases capacity_cases rfl ht hp hknown with ⟨hfits, -⟩ | ⟨-, hstep⟩
    · exact absurd hbeyond hfits
    · exact hstep
  intro ps comers goers hidle hperm
  let s' : Snapshot := { s with territories := s.territories.insert id (t.withStack ⟨ps⟩) }
  have hmodify : s.modifyTerritory id (fun t => t.withStack ⟨ps⟩) = .ok s' :=
    Outcome.bind_eq_ok_iff.mpr ⟨t, ht, rfl⟩
  have ht' : s'.territory id = .ok (t.withStack ⟨ps⟩) :=
    territory_eq_ok_iff.mpr (SortedMap.get?_insert_self ..)
  have hworks : ∀ q k, s'.Works ps p.id q k ↔ s.Works t.stack.pieces p.id q k := fun q k =>
    (works_iff_of_roster (show s'.roster = s.roster from rfl)).trans
      (works_iff_of_perm hidle hperm)
  -- the kinds of the comers that are at work are known, or they would not be idle
  have hknown' : ∀ q ∈ workers ps p.id, ∃ k, s'.kind q.kind = .ok k := by
    intro q hq
    obtain ⟨hq, howned, hfree⟩ := mem_workers.mp hq
    rcases List.mem_append.mp (hperm.subset (List.mem_append_left _ hq)) with hold | hnew
    · exact hkinds q hold howned hfree
    · rcases hidle q (List.mem_append_left _ hnew) with hother | haboard | ⟨k, hk, -⟩
      · exact absurd howned hother
      · rw [hfree] at haboard
        cases haboard
      · exact ⟨k, hk⟩
  exact ⟨s', hmodify, capacity_congr hworks ht ht' hp hp hknown hknown'⟩

/-- The shipyard stands on dry land, so it does not found the foundry, though it was Red's from the
start; but it makes 6 and 2 more, which is the most there. That does not change when Blue's factory
goes, infantry comes, and the others change places. -/
theorem capacity_eq_allotted_mixedWorks :
    let s := Samples.mixedWorks
    let infantry := Samples.piece 6 Samples.infantry Samples.red
    let pieces := infantry :: (Samples.foundry.stack.pieces.take 4).reverse
    s.Keyed ∧ s.capacity Samples.redCapital Samples.red = .ok (.limited 8) ∧
      ∃ s', s.modifyTerritory Samples.redCapital (fun t => t.withStack ⟨pieces⟩) = .ok s' ∧
        s'.capacity Samples.redCapital Samples.red = .ok (.limited 8) := by
  intro s infantry pieces
  have hkeyed : s.Keyed := by decide +kernel
  have hcapacity : s.capacity Samples.redCapital Samples.red = .ok (.limited 8) := by
    decide +kernel
  have hkinds : ∀ q ∈ Samples.foundry.stack.pieces, q.owner = Samples.red →
      q.isTransported = false → ∃ k, s.kind q.kind = .ok k := by
    have hknown : ∀ q ∈ Samples.foundry.stack.pieces, s.roster.contains q.kind = true := by
      decide +kernel
    exact fun q hq _ _ => exists_kind_of_contains (hknown q hq)
  obtain ⟨-, -, -, -, hstays⟩ := capacity_eq_allotted hkeyed
    (show s.territory Samples.redCapital = .ok Samples.foundry from rfl)
    (show s.player Samples.red = .ok _ from rfl) hkinds
  let guest := Samples.piece 5 Samples.factory Samples.blue
  have hguest : s.Idle Samples.red guest := .inl (by decide)
  have hinfantry : s.Idle Samples.red infantry := .inr (.inr ⟨_, rfl, rfl⟩)
  have hidle : ∀ q ∈ [infantry] ++ [guest], s.Idle Samples.red q := by
    rintro q hq
    rcases List.mem_pair.mp hq with rfl | rfl
    · exact hinfantry
    · exact hguest
  obtain ⟨s', hmodify, hsame⟩ := hstays pieces [infantry] [guest] hidle (by decide +kernel)
  exact ⟨hkeyed, hcapacity, s', hmodify, (hsame _).mpr hcapacity⟩

/-- Red's province makes as much as a word holds, and Red's technology makes 2 more. The rule
allots that to Red, and no capacity is found. -/
theorem capacity_overflows_vastProvince :
    let s := Samples.vastProvince
    s.Keyed ∧ s.validate = .ok () ∧
      ∃ t p, s.territory Samples.redProvince = .ok t ∧ s.player Samples.red = .ok p ∧
        (∀ q ∈ t.stack.pieces, ∃ k, s.kind q.kind = .ok k) ∧
        s.Allots t p (.limited (wordValues 31 + 1)) ∧
        s.capacity Samples.redProvince Samples.red = .error (.overflow .addition) := by
  intro s
  let t := Samples.port Samples.redProvince "Red Province" (wordValues 31 - 1) [Samples.westSea] []
  let p : Player := {
    id := Samples.red, name := "Red", isComputer := true, holdings := Samples.price 6,
    frontier := [Samples.saleOf "buyTank" Samples.tank 1 6]
    techs := { increasedProduction := true } }
  have ht : s.territory Samples.redProvince = .ok t := rfl
  have hp : s.player Samples.red = .ok p := rfl
  have hkinds : ∀ q ∈ t.stack.pieces, ∃ k, s.kind q.kind = .ok k := by
    have hknown : ∀ q ∈ t.stack.pieces, s.roster.contains q.kind = true := by decide +kernel
    exact fun q hq => exists_kind_of_contains (hknown q hq)
  have hunfounded : ¬s.Founded t p.id := fun h => Bool.false_ne_true h.site
  have hallots : s.Allots t p (.limited (wordValues 31 + 1)) :=
    .of_output hunfounded rfl (isGreatest_outputs rfl)
  exact ⟨by decide +kernel, by decide +kernel, t, p, ht, hp, hkinds, hallots, by decide +kernel⟩

end Snapshot

end Quartermaster
