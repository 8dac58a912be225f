import Mathlib.Data.List.Induction
import Quartermaster.Snapshot

/-!
# Well-kept boards

A snapshot as it comes is only a set of maps. The properties here say what a caller who builds one
with care has seen to: records stand under their own numbers (`Keyed`), tallies agree with the
stacks (`Tallied`), and adjacency goes both ways (`Mutual`). `Sized` and `Metered` say what the
words of the stored form see to.

The second part ties the counts of a board to the pieces on it: `get?_countBy` says what a count
by a key holds, and `countOwned_eq_piecesOf` that the tallies of a whole board count its pieces.
-/

namespace Quartermaster

/-- Every kind stands under its own number. -/
def Roster.Keyed (r : Roster) : Prop := ∀ e ∈ r.kinds.entries, e.2.id = e.1

instance (r : Roster) : Decidable r.Keyed :=
  inferInstanceAs (Decidable (∀ e ∈ r.kinds.entries, e.2.id = e.1))

namespace Snapshot

variable {s : Snapshot}

/-! ## Look-ups -/

theorem kind_eq_ok_iff {id : KindId} {k : PieceKind} :
    s.kind id = .ok k ↔ s.roster.kinds.get? id = some k := by
  unfold kind Roster.kind
  cases s.roster.kinds.get? id <;> simp

theorem exists_kind_of_contains {id : KindId} (h : s.roster.contains id = true) :
    ∃ k, s.kind id = .ok k := by
  obtain ⟨k, hk⟩ := Option.isSome_iff_exists.mp h
  exact ⟨k, kind_eq_ok_iff.mpr hk⟩

theorem player_eq_ok_iff {id : PlayerId} {p : Player} :
    s.player id = .ok p ↔ s.players.get? id = some p := by
  unfold player
  cases s.players.get? id <;> simp

theorem territory_eq_ok_iff {id : TerritoryId} {t : Territory} :
    s.territory id = .ok t ↔ s.territories.get? id = some t := by
  unfold territory
  cases s.territories.get? id <;> simp

theorem neighbors_eq_ok_iff {id : TerritoryId} {around : List Territory} :
    s.neighbors id = .ok around ↔
      ∃ t, s.territory id = .ok t ∧ s.known t.neighbors.toList = around := by
  unfold neighbors
  cases s.territory id <;> simp [bind, Except.bind, pure, Except.pure]

/-! ## What callers see to -/

/-- Every record stands under its own number. -/
structure Keyed (s : Snapshot) : Prop where
  kinds : ∀ e ∈ s.roster.kinds.entries, e.2.id = e.1
  players : ∀ e ∈ s.players.entries, e.2.id = e.1
  territories : ∀ e ∈ s.territories.entries, e.2.id = e.1

instance (s : Snapshot) : Decidable s.Keyed :=
  decidable_of_iff
    ((∀ e ∈ s.roster.kinds.entries, e.2.id = e.1) ∧ (∀ e ∈ s.players.entries, e.2.id = e.1) ∧
      ∀ e ∈ s.territories.entries, e.2.id = e.1)
    ⟨fun h => ⟨h.1, h.2.1, h.2.2⟩, fun h => ⟨h.kinds, h.players, h.territories⟩⟩

/-- Every tally counts the stack beside it. -/
def Tallied (s : Snapshot) : Prop :=
  ∀ t ∈ s.territories.values, t.tally = .ofPieces t.stack.pieces

instance (s : Snapshot) : Decidable s.Tallied :=
  inferInstanceAs (Decidable (∀ t ∈ s.territories.values, t.tally = .ofPieces t.stack.pieces))

/-- Of two territories on the board, each is a neighbour of the other or neither is. -/
def Mutual (s : Snapshot) : Prop :=
  ∀ a ∈ s.territories.entries, ∀ b ∈ s.territories.entries,
    a.2.isAdjacentTo b.1 = true → b.2.isAdjacentTo a.1 = true

instance (s : Snapshot) : Decidable s.Mutual :=
  inferInstanceAs (Decidable (∀ a ∈ s.territories.entries, ∀ b ∈ s.territories.entries,
    a.2.isAdjacentTo b.1 = true → b.2.isAdjacentTo a.1 = true))

/-- Numbers are within their words: what a rule makes of a kind is a number of 32 bits, and what
a player holds of a currency one of 32 bits with sign. -/
structure Sized (s : Snapshot) : Prop where
  counts : ∀ p ∈ s.players.values, ∀ r ∈ p.frontier, ∀ e ∈ r.results.entries,
    e.2 < wordValues 32
  amounts : ∀ p ∈ s.players.values, ∀ e ∈ p.holdings.entries, e.2 < wordValues 31

instance (s : Snapshot) : Decidable s.Sized :=
  decidable_of_iff
    ((∀ p ∈ s.players.values, ∀ r ∈ p.frontier, ∀ e ∈ r.results.entries, e.2 < wordValues 32) ∧
      ∀ p ∈ s.players.values, ∀ e ∈ p.holdings.entries, e.2 < wordValues 31)
    ⟨fun h => ⟨h.1, h.2⟩, fun h => ⟨h.counts, h.amounts⟩⟩

/-- Numbers that production rests on are within their words: what a territory or a factory makes,
what damage takes off it, and what a player may place in one territory are numbers of 32 bits with
sign. -/
structure Metered (s : Snapshot) : Prop where
  production : ∀ t ∈ s.territories.values, t.production < wordValues 31
  fixedOutput : ∀ k ∈ s.roster.toList, ∀ n ∈ k.fixedOutput.toList, n < wordValues 31
  damage : ∀ t ∈ s.territories.values, ∀ q ∈ t.stack.pieces, -(wordValues 31 : Int) ≤ q.damage
  placementCap : ∀ p ∈ s.players.values, ∀ n ∈ p.placementCap.toList, n < wordValues 31

instance (s : Snapshot) : Decidable s.Metered :=
  decidable_of_iff
    ((∀ t ∈ s.territories.values, t.production < wordValues 31) ∧
      (∀ k ∈ s.roster.toList, ∀ n ∈ k.fixedOutput.toList, n < wordValues 31) ∧
      (∀ t ∈ s.territories.values, ∀ q ∈ t.stack.pieces, -(wordValues 31 : Int) ≤ q.damage) ∧
      ∀ p ∈ s.players.values, ∀ n ∈ p.placementCap.toList, n < wordValues 31)
    ⟨fun h => ⟨h.1, h.2.1, h.2.2.1, h.2.2.2⟩,
      fun h => ⟨h.production, h.fixedOutput, h.damage, h.placementCap⟩⟩

/-- No player holds more of a currency than a number of 32 bits with sign can say. -/
theorem Sized.get_lt (h : s.Sized) {id : PlayerId} {p : Player} (hp : s.player id = .ok p)
    (c : ResourceId) : p.holdings.get c < wordValues 31 := by
  have hvalue : p ∈ s.players.values :=
    SortedMap.mem_values_iff.mpr ⟨id, player_eq_ok_iff.mp hp⟩
  unfold Holdings.get
  cases hentry : p.holdings.amounts.get? c with
  | none => exact Int.natCast_pos.mpr (wordValues_pos 31)
  | some n => exact h.amounts p hvalue (c, n) (SortedMap.get?_eq_some_iff.mp hentry)

theorem kind_id_of_keyed (h : s.roster.Keyed) {id : KindId} {k : PieceKind}
    (hk : s.kind id = .ok k) : k.id = id :=
  h (id, k) (SortedMap.get?_eq_some_iff.mp (kind_eq_ok_iff.mp hk))

theorem Keyed.kind_id (h : s.Keyed) {id : KindId} {k : PieceKind} (hk : s.kind id = .ok k) :
    k.id = id :=
  kind_id_of_keyed h.kinds hk

theorem Keyed.territory_id (h : s.Keyed) {id : TerritoryId} {t : Territory}
    (ht : s.territory id = .ok t) : t.id = id :=
  h.territories (id, t) (SortedMap.get?_eq_some_iff.mp (territory_eq_ok_iff.mp ht))

theorem Keyed.player_id (h : s.Keyed) {id : PlayerId} {p : Player} (hp : s.player id = .ok p) :
    p.id = id :=
  h.players (id, p) (SortedMap.get?_eq_some_iff.mp (player_eq_ok_iff.mp hp))

theorem Keyed.mem_known (h : s.Keyed) {ids : List TerritoryId} {t : Territory} :
    t ∈ s.known ids ↔ t.id ∈ ids ∧ s.territory t.id = .ok t := by
  simp only [known, List.mem_filterMap]
  constructor
  · rintro ⟨id, hid, hget⟩
    have ht : s.territory id = .ok t := territory_eq_ok_iff.mpr hget
    have heq := h.territory_id ht
    subst heq
    exact ⟨hid, ht⟩
  · rintro ⟨hid, ht⟩
    exact ⟨t.id, hid, territory_eq_ok_iff.mp ht⟩

theorem Mutual.symm (h : s.Mutual) {a b : Territory} {i j : TerritoryId}
    (ha : s.territory i = .ok a) (hb : s.territory j = .ok b) (hab : a.isAdjacentTo j = true) :
    b.isAdjacentTo i = true :=
  h (i, a) (SortedMap.get?_eq_some_iff.mp (territory_eq_ok_iff.mp ha)) (j, b)
    (SortedMap.get?_eq_some_iff.mp (territory_eq_ok_iff.mp hb)) hab

end Snapshot

theorem Territory.isAdjacentTo_iff {t : Territory} {id : TerritoryId} :
    t.isAdjacentTo id = true ↔ id ∈ t.neighbors.toList := by
  unfold isAdjacentTo SortedMap.contains SortedSet.toList
  rw [SortedMap.mem_keys_iff, Option.isSome_iff_exists]

/-! ## Counts -/

namespace Stack

variable {κ : Type} [Key κ]

theorem countBy_snoc (key : Piece → κ) (ps : List Piece) (p : Piece) :
    countBy key (ps ++ [p]) = (countBy key ps).update (key p) fun n => n.getD 0 + 1 := by
  unfold countBy
  rw [List.foldl_append]
  rfl

/-- A count by a key has an entry for exactly the keys that occur. -/
theorem get?_countBy [DecidableEq κ] (key : Piece → κ) (ps : List Piece) (k : κ) :
    (countBy key ps).get? k =
      if ps.countP (fun p => key p = k) = 0 then none
      else some (ps.countP fun p => key p = k) := by
  induction ps using List.reverseRecOn with
  | nil => rfl
  | append_singleton ps p ih =>
    rw [countBy_snoc, SortedMap.update, List.countP_append, List.countP_singleton]
    by_cases hk : key p = k
    · -- the piece counts for the key, whether or not there was an entry
      subst hk
      rw [SortedMap.get?_insert_self, ih]
      by_cases h0 : ps.countP (fun q => key q = key p) = 0 <;> simp [h0]
    · rw [SortedMap.get?_insert_of_ne _ _ (Ne.symm hk), ih]
      simp [hk]

theorem getD_countBy [DecidableEq κ] (key : Piece → κ) (ps : List Piece) (k : κ) :
    ((countBy key ps).get? k).getD 0 = ps.countP fun p => key p = k := by
  rw [get?_countBy]
  split
  · rename_i h
    rw [h]
    rfl
  · rfl

theorem mem_entries_countBy [DecidableEq κ] {key : Piece → κ} {ps : List Piece} {k : κ} {n : Nat} :
    (k, n) ∈ (countBy key ps).entries ↔ (ps.countP fun p => key p = k) = n ∧ 0 < n := by
  rw [← SortedMap.get?_eq_some_iff, get?_countBy]
  split
  · rename_i h
    rw [h]
    constructor
    · intro hnone
      cases hnone
    · rintro ⟨rfl, hpos⟩
      exact absurd hpos (Nat.lt_irrefl 0)
  · rename_i h
    rw [Option.some.injEq]
    constructor
    · rintro rfl
      exact ⟨rfl, Nat.pos_of_ne_zero h⟩
    · exact fun hn => hn.1

omit [Key κ] in
theorem countP_of_forall [DecidableEq κ] {key : Piece → κ} {ps : List Piece} {k : κ}
    (h : ∀ p ∈ ps, key p = k) (k' : κ) :
    (ps.countP fun p => key p = k') = if k' = k then ps.length else 0 := by
  split
  · rename_i hk
    subst hk
    exact List.countP_eq_length.mpr fun p hp => decide_eq_true (h p hp)
  · rename_i hk
    refine List.countP_eq_zero.mpr fun p hp => ?_
    rw [h p hp, decide_eq_true_iff]
    exact Ne.symm hk

/-- Where all members have one key, the count has one entry. -/
theorem entries_countBy_of_forall [DecidableEq κ] {key : Piece → κ} {ps : List Piece} {k : κ}
    (hsome : ps ≠ []) (h : ∀ p ∈ ps, key p = k) : (countBy key ps).entries = [(k, ps.length)] := by
  have hpos : ps.length ≠ 0 := fun h0 => hsome (List.eq_nil_of_length_eq_zero h0)
  have hone : countBy key ps = SortedMap.empty.insert k ps.length := by
    ext1 k'
    rw [get?_countBy, countP_of_forall h]
    by_cases hk : k' = k
    · subst hk
      rw [if_pos rfl, if_neg hpos, SortedMap.get?_insert_self]
    · rw [if_neg hk, if_pos rfl, SortedMap.get?_insert_of_ne _ _ hk]
      rfl
  rw [hone]
  rfl

end Stack

/-- A tally of the stack beside it counts what stands there. -/
theorem Territory.countOwned_eq_countP {t : Territory} (h : t.tally = .ofPieces t.stack.pieces)
    (player : PlayerId) (kind : KindId) : t.countOwned player kind =
      t.stack.pieces.countP fun p => p.owner == player && p.kind == kind := by
  rw [countOwned, h, Tally.ofPieces, Stack.getD_countBy]
  congr 1
  funext p
  simp [Prod.ext_iff, Bool.decide_and, beq_eq_decide]

/-- The pieces of a kind that a player has on the whole board, on transports too. -/
def Snapshot.piecesOf (s : Snapshot) (player : PlayerId) (kind : KindId) : Nat :=
  (s.territories.values.flatMap fun t => t.stack.pieces).countP fun p =>
    p.owner == player && p.kind == kind

theorem Snapshot.countOwned_eq_piecesOf {s : Snapshot} (h : s.Tallied) (player : PlayerId)
    (kind : KindId) : s.countOwned player kind = s.piecesOf player kind := by
  unfold Tallied at h
  unfold countOwned piecesOf
  generalize s.territories.values = ts at h ⊢
  induction ts with
  | nil => rfl
  | cons t ts ih =>
    obtain ⟨ht, hts⟩ := List.forall_mem_cons.mp h
    simp only [List.map_cons, List.foldr_cons, List.flatMap_cons, List.countP_append]
    rw [ih hts, Territory.countOwned_eq_countP ht]

end Quartermaster
