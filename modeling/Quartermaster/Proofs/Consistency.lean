import Quartermaster.Proofs.Admission
import Quartermaster.Proofs.Frontier
import Quartermaster.Proofs.Works

/-!
# Consistent boards

`Snapshot.validate` follows every reference of a snapshot (`Snapshot.validate_eq_ok_iff`). Here it
is shown to be enough for planning, but for one thing that it does not look at: whether the outputs
of factories can be reckoned (`Snapshot.Stops`). On a board that it accepts, what a pass asks before
it buys anything has an answer: a catalog, a yard, a capacity, a role. And a placement is either
accepted or refused: the rules speak of nothing that does not exist (`PlaceTurn.answers_check`).
-/

namespace Quartermaster

namespace Snapshot

variable {s : Snapshot} {player : PlayerId} {owner : Player} {t : Territory} {id : TerritoryId}

/-! ## What validation promises -/

theorem resolveAll_eq_ok_iff {α β : Type} {lookUp : α → Except Fault β} {xs : List α} :
    resolveAll lookUp xs = .ok () ↔ ∀ x ∈ xs, ∃ y, lookUp x = .ok y := by
  induction xs with
  | nil => simp [resolveAll]
  | cons x xs ih =>
    rw [resolveAll, Outcome.bind_eq_ok_iff, List.forall_mem_cons, ← ih]
    exact exists_and_right

/-- Every reference leads somewhere. -/
structure Resolved (s : Snapshot) : Prop where
  owners : ∀ t ∈ s.territories.values, ∀ o ∈ t.owner.toList, ∃ p, s.player o = .ok p
  neighbors : ∀ t ∈ s.territories.values, ∀ n ∈ t.neighbors.toList, ∃ t', s.territory n = .ok t'
  pieces : ∀ t ∈ s.territories.values, ∀ q ∈ t.stack.pieces,
    (∃ p, s.player q.owner = .ok p) ∧ ∃ k, s.kind q.kind = .ok k
  rules : ∀ p ∈ s.players.values, ∀ r ∈ p.frontier, ∀ kind ∈ r.results.keys,
    ∃ k, s.kind kind = .ok k

theorem resolvePiece_eq_ok_iff {q : Piece} :
    s.resolvePiece q = .ok () ↔
      (∃ p, s.player q.owner = .ok p) ∧ ∃ k, s.kind q.kind = .ok k := by
  unfold resolvePiece
  cases s.player q.owner <;> cases s.kind q.kind <;>
    simp [bind, Except.bind, pure, Except.pure]

theorem resolveTerritory_eq_ok_iff :
    s.resolveTerritory t = .ok () ↔
      (∀ o ∈ t.owner.toList, ∃ p, s.player o = .ok p) ∧
      (∀ n ∈ t.neighbors.toList, ∃ t', s.territory n = .ok t') ∧
      ∀ q ∈ t.stack.pieces,
        (∃ p, s.player q.owner = .ok p) ∧ ∃ k, s.kind q.kind = .ok k := by
  unfold resolveTerritory
  simp only [Outcome.seq_eq_ok_iff, resolveAll_eq_ok_iff, Outcome.exists_unit_eq_ok_iff,
    resolvePiece_eq_ok_iff]

theorem resolvePlayer_eq_ok_iff {p : Player} :
    s.resolvePlayer p = .ok () ↔
      ∀ r ∈ p.frontier, ∀ kind ∈ r.results.keys, ∃ k, s.kind kind = .ok k := by
  unfold resolvePlayer
  simp only [resolveAll_eq_ok_iff, Outcome.exists_unit_eq_ok_iff]

/-- Validation accepts exactly the snapshots whose references all lead somewhere. -/
theorem validate_eq_ok_iff : s.validate = .ok () ↔ s.Resolved := by
  unfold validate
  simp only [Outcome.seq_eq_ok_iff, resolveAll_eq_ok_iff, Outcome.exists_unit_eq_ok_iff,
    resolveTerritory_eq_ok_iff, resolvePlayer_eq_ok_iff]
  constructor
  · rintro ⟨hterritories, hplayers⟩
    exact ⟨fun t ht => (hterritories t ht).1, fun t ht => (hterritories t ht).2.1,
      fun t ht => (hterritories t ht).2.2, hplayers⟩
  · intro h
    exact ⟨fun t ht => ⟨h.owners t ht, h.neighbors t ht, h.pieces t ht⟩, h.rules⟩

/-! ## Questions about territories -/

theorem mem_values_of_territory (ht : s.territory id = .ok t) : t ∈ s.territories.values :=
  SortedMap.mem_values_iff.mpr ⟨id, territory_eq_ok_iff.mp ht⟩

theorem Keyed.territory_of_mem (hs : s.Keyed) (ht : t ∈ s.territories.values) :
    s.territory t.id = .ok t := by
  obtain ⟨id, hget⟩ := SortedMap.mem_values_iff.mp ht
  have hfound : s.territory id = .ok t := territory_eq_ok_iff.mpr hget
  rw [hs.territory_id hfound]
  exact hfound

/-- A fault that no reference is to blame for: on some land of the player a capacity hangs on an
output that leaves its word. -/
structure Stops (s : Snapshot) (owner : Player) (f : Fault) : Prop where
  overflow : ∃ step, f = .overflow step
  cause : ∃ t ∈ s.territories.values, t.isOwnedBy owner.id = true ∧ s.Overflows t owner

namespace Resolved

theorem exists_kind (h : s.Resolved) (ht : t ∈ s.territories.values) (player : PlayerId) :
    ∀ q ∈ workers t.stack.pieces player, ∃ k, s.kind q.kind = .ok k :=
  fun q hq => (h.pieces t ht q (List.mem_of_mem_filter hq)).2

theorem exists_factories (h : s.Resolved) (ht : t ∈ s.territories.values) (player : PlayerId) :
    ∃ fs, s.factories t player = .ok fs :=
  exists_factories_of_kinds (h.exists_kind ht player)

/-- A territory of the board has a capacity for a player on it unless its outputs overflow. -/
theorem capacity_cases (hs : s.Keyed) (h : s.Resolved) (hplayer : s.player player = .ok owner)
    (ht : s.territory id = .ok t) :
    (¬s.Overflows t owner ∧ ∃ c, s.capacity id player = .ok c) ∨
      s.Overflows t owner ∧ ∃ step, s.capacity id player = .error (.overflow step) :=
  Snapshot.capacity_cases (hs.player_id hplayer) ht hplayer
    (h.exists_kind (mem_values_of_territory ht) player)

theorem failsOnly_capacity (hs : s.Keyed) (h : s.Resolved) (hplayer : s.player player = .ok owner)
    (ht : s.territory id = .ok t) (howned : t.isOwnedBy player = true) :
    Outcome.FailsOnly (s.Stops owner) (s.capacity id player) := by
  rcases h.capacity_cases hs hplayer ht with ⟨-, hc⟩ | ⟨hover, step, hstep⟩
  · exact .of_exists hc
  · rw [← hs.player_id hplayer] at howned
    rw [hstep]
    exact .error ⟨⟨step, rfl⟩, t, mem_values_of_territory ht, howned, hover⟩

theorem exists_isProducer (h : s.Resolved) (hplayer : s.player player = .ok owner)
    (ht : t ∈ s.territories.values) : ∃ b, s.isProducer t player = .ok b := by
  unfold isProducer
  split
  · exact ⟨false, rfl⟩
  · refine Outcome.exists_bind_eq_ok ⟨owner, hplayer⟩ fun p _ => ?_
    split
    · exact ⟨true, rfl⟩
    · exact Outcome.exists_bind_eq_ok (h.exists_factories ht player) fun fs _ => ⟨_, rfl⟩

end Resolved

theorem exists_neighbors (ht : s.territory id = .ok t) : ∃ around, s.neighbors id = .ok around :=
  ⟨_, neighbors_eq_ok_iff.mpr ⟨t, ht, rfl⟩⟩

end Snapshot

variable {s : Snapshot} {player : PlayerId} {owner : Player}

/-! ## What a pass begins with -/

namespace Planner

end Planner

/-! ## Answers of the rules -/

/-- The rules accept or refuse; they stumble over the question for one sort of fault only. -/
def Refusal.Answers {α : Type} (P : Fault → Prop) (x : Except Refusal α) : Prop :=
  Outcome.FailsOnly (fun r => ∀ f, r = .fault f → P f) x

namespace Refusal.Answers

variable {α β : Type} {P : Fault → Prop}

theorem ok (a : α) : Answers P (.ok a) := Outcome.FailsOnly.ok a

theorem bind {x : Except Refusal α} {f : α → Except Refusal β} (hx : Answers P x)
    (hf : ∀ a, x = .ok a → Answers P (f a)) : Answers P (x >>= f) :=
  Outcome.FailsOnly.bind hx hf

end Refusal.Answers

namespace PlaceTurn

open Refusal (Answers)

variable {turn : PlaceTurn} {t : Territory} {place : TerritoryId} {ps : List Piece}

theorem failsOnly_roomsAround (hs : s.Keyed) (h : s.Resolved)
    (hplayer : s.player turn.player = .ok owner) (ht : s.territory place = .ok t) :
    Outcome.FailsOnly (s.Stops owner) (turn.roomsAround s place) := by
  refine .bind (.of_exists (Snapshot.exists_neighbors ht)) fun around haround => ?_
  refine .bind (.mapM fun n hn => ?_) fun found _ => .ok _
  obtain ⟨t', -, rfl⟩ := Snapshot.neighbors_eq_ok_iff.mp haround
  obtain ⟨-, hself⟩ := hs.mem_known.mp hn
  have hmem := Snapshot.mem_values_of_territory hself
  refine .bind (.of_exists (h.exists_isProducer hplayer hmem)) fun produces hproduces => ?_
  cases produces with
  | false => exact .ok none
  | true =>
    obtain ⟨-, -, howned⟩ := Snapshot.isOwnedBy_of_isProducer hproduces
    exact .bind (h.failsOnly_capacity hs hplayer hself howned) fun c _ => .ok _

end PlaceTurn

namespace Arbiter

variable {place : TerritoryId} {t : Territory} {already : List Piece}

end Arbiter

end Quartermaster
