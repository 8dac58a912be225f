import Quartermaster.Proofs.Antitone
import Quartermaster.Proofs.Legality

/-!
# Less placed, more allowed

Of two turns of one player, the one that has a part of what the other has in every place has no
more of any kind anywhere. So whatever the rules accept where more is placed, they accept in every
part where less is (`PlaceTurn.check_antitone`): for a ceiling because it counts what is placed
everywhere, for a sea zone although the neighbour with the widest room may be a different one.

A piece that lies in a zone beside a territory may be counted for both, if the snapshot enters a
territory under another number than its own; what is placed has to be counted twice at most.
-/

namespace Quartermaster.PlaceTurn

variable {s : Snapshot} {small large : PlaceTurn} {place : TerritoryId} {us vs : List Piece}

/-! ## Counting by place -/

/-- All that is placed, counted place by place. -/
theorem countP_placed_eq (p : Piece → Bool) (placed : SortedMap TerritoryId (List Piece)) :
    placed.values.flatten.countP p =
      (placed.keys.map fun id => ((placed.get? id).getD []).countP p).foldr (· + ·) 0 := by
  have hentries : ∀ e ∈ placed.entries, (placed.get? e.1).getD [] = e.2 := by
    intro e he
    rw [SortedMap.get?_eq_some_iff.mpr he]
    rfl
  unfold SortedMap.values SortedMap.keys
  rw [List.map_map]
  generalize placed.get? = get, placed.entries = es at hentries ⊢
  induction es with
  | nil => rfl
  | cons e es ih =>
    obtain ⟨he, hes⟩ := List.forall_mem_cons.mp hentries
    rw [List.map_cons, List.flatten_cons, List.countP_append, List.map_cons, List.foldr_cons,
      ih hes]
    show _ = ((get e.1).getD []).countP p + _
    rw [he]

/-- A part in every place is a part in all. -/
theorem placedOfKind_le (h : ∀ id, (small.placedIn id).Sublist (large.placedIn id))
    (kind : KindId) : small.placedOfKind kind ≤ large.placedOfKind kind := by
  unfold placedOfKind
  rw [countP_placed_eq]
  refine Nat.le_trans ?_ (sum_countP_placed_le (fun q => q.kind == kind)
    (small.placed.nodup_keys) large.placed)
  generalize small.placed.keys = ids
  induction ids with
  | nil => exact Nat.le_refl 0
  | cons id ids ih => exact Nat.add_le_add ((h id).countP_le) ih

theorem below_of_sublist (hplayer : small.player = large.player)
    (h : ∀ id, (small.placedIn id).Sublist (large.placedIn id)) : small.Below large where
  player := hplayer
  placed id := (h id).length_le
  kinds := placedOfKind_le h

/-- On any board at all, what a territory has used up was placed once or twice. -/
theorem usedBy_le_twice (turn : PlaceTurn) (t : Territory) :
    turn.usedBy s t ≤ 2 * turn.placed.values.flatten.length := by
  have hself : [t.id].Nodup := List.nodup_cons.mpr ⟨List.not_mem_nil, List.nodup_nil⟩
  have hown := sum_placed_le hself turn.placed
  have hbeside := sum_placed_le (t.neighbors.nodup_keys.filter fun id =>
    (s.territories.get? id).any Territory.isWater) turn.placed
  rw [Nat.two_mul]
  exact Nat.add_le_add hown hbeside

/-! ## Answers where less is placed -/

/-- The rules are antitone in what is placed and downward closed in what is offered. What they
accept in one turn they accept, in any part that is not empty, in every turn of the player that has
a part of it placed in each territory, as long as a word of 63 bits can count what is placed then. -/
theorem check_antitone (hplayer : small.player = large.player)
    (hplaced : ∀ id, (small.placedIn id).Sublist (large.placedIn id)) (hsome : vs ≠ [])
    (hpart : vs.Sublist us)
    (hword : small.placed.values.flatten.length + vs.length < wordValues 63)
    (hok : large.check s place us = .ok ()) : small.check s place vs = .ok () := by
  have hbelow : small.Below large := below_of_sublist hplayer hplaced
  have hamong : Piece.Among vs us := Piece.Among.of_sublist hpart
  refine check_mono hbelow hsome hamong ?_ hok
  intro t
  have hused := usedBy_le_twice (s := s) small t
  have hwords : 2 * wordValues 63 = Room.boundless + 1 := by decide
  omega

/-- Two ports beside one sea, in which a destroyer has been placed. With two infantry in the capital
the province feeds two more; without them the capital is as wide, and comes first. -/
theorem check_antitone_oneSea :
    let s := Samples.twinPorts [Samples.westSea] [Samples.westSea] 3 0 [] []
    let ship (number : Nat) := Samples.piece number Samples.destroyer Samples.red
    let small := PlaceTurn.record { player := Samples.red } Samples.westSea [ship 20]
    let large := small.record Samples.redCapital
      [Samples.piece 21 Samples.infantry Samples.red, Samples.piece 22 Samples.infantry Samples.red]
    small.player = large.player ∧ (∀ id, (small.placedIn id).Sublist (large.placedIn id)) ∧
      [ship 24] ≠ [] ∧ [ship 24].Sublist [ship 23, ship 24] ∧
      small.placed.values.flatten.length + [ship 24].length < wordValues 63 ∧
      large.check s Samples.westSea [ship 23, ship 24] = .ok () ∧
      small.check s Samples.westSea [ship 24] = .ok () := by
  intro s ship small large
  have hplayer : small.player = large.player := rfl
  have hplaced : ∀ id, (small.placedIn id).Sublist (large.placedIn id) := by
    intro id
    rw [placedIn_record small]
    exact List.sublist_append_left _ _
  have hpart : [ship 24].Sublist [ship 23, ship 24] := List.sublist_cons_self _ _
  have hword : small.placed.values.flatten.length + [ship 24].length < wordValues 63 := by
    decide +kernel
  have hok : large.check s Samples.westSea [ship 23, ship 24] = .ok () := by decide +kernel
  have hsome : [ship 24] ≠ [] := List.cons_ne_nil _ _
  exact ⟨hplayer, hplaced, hsome, hpart, hword, hok,
    check_antitone hplayer hplaced hsome hpart hword hok⟩

end Quartermaster.PlaceTurn
