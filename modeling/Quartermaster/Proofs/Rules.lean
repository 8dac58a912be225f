import Quartermaster.Placement
import Quartermaster.Proofs.Board
import Quartermaster.Proofs.Outcome

/-!
# The rules of placement taken apart

A placement is accepted exactly when every rule is kept (`PlaceTurn.check_eq_ok_iff`). Which rules
depend on what is placed already is told apart here from those that do not: pieces, owners, bans
and conquests are a matter of the snapshot alone (`Snapshot.Suits`), and so is which neighbours
feed a sea zone (`Snapshot.Feeds`). Only the room that is left and the ceilings change in the
course of a turn.
-/

namespace Quartermaster

/-! ## Rooms -/

theorem Capacity.fits_zero (c : Capacity) : c.fits 0 = true := by
  cases c with
  | unlimited => rfl
  | limited limit => exact decide_eq_true (Nat.zero_le limit)

theorem Capacity.fits_mono {c : Capacity} {m n : Nat} (h : c.fits n = true) (hmn : m ≤ n) :
    c.fits m = true := by
  cases c with
  | unlimited => rfl
  | limited limit =>
    unfold fits at h ⊢
    rw [decide_eq_true_iff] at h ⊢
    omega

namespace Room

variable {r : Room} {rooms : List Room} {n : Nat}

theorem fits_of_le_left (hn : 0 < n) (h : n ≤ r.left) : r.fits n = true := by
  unfold left at h
  unfold fits
  cases hc : r.capacity.limit? with
  | none => rfl
  | some limit =>
    rw [hc, Option.getD_some] at h
    rw [Option.all_some, decide_eq_true_iff]
    omega

theorem fits_iff : r.fits n = true ↔ r.capacity.fits (r.used + n) = true := by
  unfold fits Capacity.limit? Capacity.fits
  cases r.capacity <;> simp

theorem widest?_snoc (rooms : List Room) (r : Room) :
    widest? (rooms ++ [r]) =
      match widest? rooms with
      | none => some r
      | some b => if b.left < r.left then some r else some b := by
  unfold widest?
  rw [List.foldl_append]
  rfl

theorem widest?_eq_none_iff : widest? rooms = none ↔ rooms = [] := by
  induction rooms using List.reverseRecOn with
  | nil => exact ⟨fun _ => rfl, fun _ => rfl⟩
  | append_singleton rooms r _ =>
    rw [widest?_snoc]
    cases widest? rooms with
    | none => simp
    | some b =>
      simp only [List.append_eq_nil_iff, List.cons_ne_self, and_false, iff_false]
      split <;> simp

/-- The widest room is one of the rooms, and none has more left. -/
theorem widest?_eq_some (h : widest? rooms = some r) :
    r ∈ rooms ∧ ∀ r' ∈ rooms, r'.left ≤ r.left := by
  induction rooms using List.reverseRecOn generalizing r with
  | nil => cases h
  | append_singleton rooms new ih =>
    rw [widest?_snoc] at h
    cases hbest : widest? rooms with
    | none =>
      rw [hbest] at h
      obtain rfl : new = r := Option.some.inj h
      obtain rfl := widest?_eq_none_iff.mp hbest
      refine ⟨List.mem_singleton_self new, ?_⟩
      intro r' hr'
      obtain rfl := List.mem_singleton.mp hr'
      exact Nat.le_refl _
    | some b =>
      rw [hbest] at h
      obtain ⟨hmem, hmax⟩ := ih hbest
      by_cases hless : b.left < new.left
      · simp only [hless, if_true, Option.some.injEq] at h
        subst h
        refine ⟨List.mem_append_right _ (List.mem_singleton_self new), ?_⟩
        intro r' hr'
        rcases List.mem_append.mp hr' with hold | hnew
        · exact Nat.le_of_lt (Nat.lt_of_le_of_lt (hmax r' hold) hless)
        · obtain rfl := List.mem_singleton.mp hnew
          exact Nat.le_refl _
      · simp only [hless, if_false, Option.some.injEq] at h
        subst h
        refine ⟨List.mem_append_left _ hmem, ?_⟩
        intro r' hr'
        rcases List.mem_append.mp hr' with hold | hnew
        · exact hmax r' hold
        · rw [List.mem_singleton.mp hnew]
          exact Nat.le_of_not_lt hless

end Room

/-! ## Rules that nothing placed can change -/

theorem lift_eq_ok_iff {α : Type} {x : Except Fault α} {a : α} :
    (liftM x : Except Refusal α) = .ok a ↔ x = .ok a :=
  Outcome.mapError_eq_ok_iff

namespace Snapshot

/-- What the rules ask of pieces, of the player and of the place, room and ceilings apart. -/
structure Suits (s : Snapshot) (player : PlayerId) (place : TerritoryId) (t : Territory)
    (ps : List Piece) : Prop where
  nonempty : ps ≠ []
  territory : s.territory place = .ok t
  pieces : ∀ q ∈ ps, q.owner = player ∧ ∃ k, s.kind q.kind = .ok k ∧ k.isSea = t.isWater
  allowed : ∃ p, s.player player = .ok p ∧ p.isPlacementBanned place = false
  unconquered : t.conqueredThisTurn = false

/-- A territory can feed the sea zones beside it, within a capacity. -/
def Feeds (s : Snapshot) (player : PlayerId) (t : Territory) (c : Capacity) : Prop :=
  s.isProducer t player = .ok true ∧ s.capacity t.id player = .ok c

/-- A producer is unconquered land of the player. -/
theorem isOwnedBy_of_isProducer {s : Snapshot} {player : PlayerId} {t : Territory}
    (h : s.isProducer t player = .ok true) :
    t.isWater = false ∧ t.conqueredThisTurn = false ∧ t.isOwnedBy player = true := by
  unfold isProducer at h
  cases hbarred : t.isWater || t.conqueredThisTurn || !t.isOwnedBy player with
  | true =>
    rw [hbarred] at h
    cases h
  | false =>
    simp only [Bool.or_eq_false_iff, Bool.not_eq_false'] at hbarred
    exact ⟨hbarred.1.1, hbarred.1.2, hbarred.2⟩

end Snapshot

namespace PlaceTurn

variable {s : Snapshot} {turn turn' : PlaceTurn} {t zone : Territory} {place : TerritoryId}
  {ps : List Piece} {room : Room} {rooms : List Room}

theorem checkPieces_eq_ok_iff :
    turn.checkPieces s t place ps = .ok () ↔
      ∀ q ∈ ps, q.owner = turn.player ∧ ∃ k, s.kind q.kind = .ok k ∧ k.isSea = t.isWater := by
  induction ps with
  | nil => simp [checkPieces]
  | cons p ps ih =>
    rw [checkPieces, List.forall_mem_cons, ← ih]
    simp only [Outcome.guard_eq_ok_iff, Outcome.bind_eq_ok_iff, lift_eq_ok_iff, bne_eq_false_iff_eq]
    constructor
    · rintro ⟨howner, k, hk, hdomain, hrest⟩
      exact ⟨⟨howner, k, hk, hdomain⟩, hrest⟩
    · rintro ⟨⟨howner, k, hk, hdomain⟩, hrest⟩
      exact ⟨howner, k, hk, hdomain, hrest⟩

/-! ## Rooms for land and sea -/

theorem landRoom_eq_ok_iff :
    turn.landRoom s t place = .ok room ↔ t.isOwnedBy turn.player = true ∧
      ∃ c, s.capacity place turn.player = .ok c ∧ room = ⟨c, (turn.placedIn place).length⟩ := by
  unfold landRoom
  simp only [Outcome.guard_eq_ok_iff, Outcome.bind_eq_ok_iff, lift_eq_ok_iff,
    Outcome.pure_eq_ok_iff, Bool.not_eq_false']
  constructor
  · rintro ⟨howned, c, hc, hroom⟩
    exact ⟨howned, c, hc, hroom.symm⟩
  · rintro ⟨howned, c, hc, hroom⟩
    exact ⟨howned, c, hc, hroom.symm⟩

theorem roomFrom?_eq_ok_iff {found : Option Room} :
    turn.roomFrom? s t = .ok found ↔
      s.isProducer t turn.player = .ok false ∧ found = none ∨
        ∃ c, s.Feeds turn.player t c ∧ found = some ⟨c, turn.usedBy s t⟩ := by
  unfold roomFrom? Snapshot.Feeds
  rw [Outcome.bind_eq_ok_iff]
  constructor
  · rintro ⟨produces, hproduces, h⟩
    cases produces with
    | false =>
      obtain rfl : none = found := Except.ok.inj h
      exact .inl ⟨hproduces, rfl⟩
    | true =>
      obtain ⟨c, hc, h⟩ := Outcome.bind_eq_ok_iff.mp h
      obtain rfl : some ⟨c, turn.usedBy s t⟩ = found := Except.ok.inj h
      exact .inr ⟨c, ⟨hproduces, hc⟩, rfl⟩
  · rintro (⟨hproduces, rfl⟩ | ⟨c, ⟨hproduces, hc⟩, rfl⟩)
    · exact ⟨false, hproduces, rfl⟩
    · exact ⟨true, hproduces, Outcome.bind_eq_ok_iff.mpr ⟨c, hc, rfl⟩⟩

/-- The rooms around a sea zone are those of the neighbours that feed it. -/
theorem mem_roomsAround_iff {zone : TerritoryId} (h : turn.roomsAround s zone = .ok rooms) :
    room ∈ rooms ↔ ∃ around, s.neighbors zone = .ok around ∧ ∃ t ∈ around, ∃ c,
      s.Feeds turn.player t c ∧ room = ⟨c, turn.usedBy s t⟩ := by
  obtain ⟨around, haround, h⟩ := Outcome.bind_eq_ok_iff.mp h
  obtain ⟨found, hfound, h⟩ := Outcome.bind_eq_ok_iff.mp h
  rw [Outcome.pure_eq_ok_iff] at h
  subst h
  rw [Outcome.mem_filterMap_of_mapM hfound, haround]
  simp [roomFrom?_eq_ok_iff]

/-- Where records stand under their numbers, a zone names the neighbours that feed it. -/
theorem mem_roomsAround_iff_of_keyed (hs : s.Keyed) {id : TerritoryId}
    (hz : s.territory id = .ok zone) (h : turn.roomsAround s id = .ok rooms) :
    room ∈ rooms ↔ ∃ t c, s.territory t.id = .ok t ∧ zone.isAdjacentTo t.id = true ∧
      s.Feeds turn.player t c ∧ room = ⟨c, turn.usedBy s t⟩ := by
  have haround : s.neighbors id = .ok (s.known zone.neighbors.toList) :=
    Snapshot.neighbors_eq_ok_iff.mpr ⟨zone, hz, rfl⟩
  rw [mem_roomsAround_iff h, haround]
  constructor
  · rintro ⟨around, hsame, t, ht, c, hfeeds, hroom⟩
    obtain rfl : s.known zone.neighbors.toList = around := Except.ok.inj hsame
    obtain ⟨hbeside, hget⟩ := hs.mem_known.mp ht
    exact ⟨t, c, hget, Territory.isAdjacentTo_iff.mpr hbeside, hfeeds, hroom⟩
  · rintro ⟨t, c, hget, hbeside, hfeeds, hroom⟩
    have ht : t ∈ s.known zone.neighbors.toList :=
      hs.mem_known.mpr ⟨Territory.isAdjacentTo_iff.mp hbeside, hget⟩
    exact ⟨_, rfl, t, ht, c, hfeeds, hroom⟩

/-- Whether the rooms around a zone can be told does not depend on what is placed. -/
theorem roomsAround_of_player_eq {zone : TerritoryId} (h : turn.roomsAround s zone = .ok rooms)
    (turn' : PlaceTurn) (hplayer : turn'.player = turn.player) :
    ∃ rooms', turn'.roomsAround s zone = .ok rooms' := by
  obtain ⟨around, haround, h⟩ := Outcome.bind_eq_ok_iff.mp h
  obtain ⟨found, hfound, -⟩ := Outcome.bind_eq_ok_iff.mp h
  have hall : ∀ t ∈ around, ∃ found, turn'.roomFrom? s t = .ok found := by
    intro t ht
    obtain ⟨r, hr⟩ := Outcome.exists_mapM_eq_ok_iff.mp ⟨found, hfound⟩ t ht
    simp only [roomFrom?_eq_ok_iff, hplayer] at hr ⊢
    rcases hr with ⟨hproduces, -⟩ | ⟨c, hfeeds, -⟩
    · exact ⟨none, .inl ⟨hproduces, rfl⟩⟩
    · exact ⟨some ⟨c, turn'.usedBy s t⟩, .inr ⟨c, hfeeds, rfl⟩⟩
  obtain ⟨found', hfound'⟩ := Outcome.exists_mapM_eq_ok_iff.mpr hall
  refine ⟨found'.filterMap id, Outcome.bind_eq_ok_iff.mpr ⟨around, haround, ?_⟩⟩
  exact Outcome.bind_eq_ok_iff.mpr ⟨found', hfound', rfl⟩

theorem seaRoom_eq_ok_iff :
    turn.seaRoom s zone = .ok room ↔
      ∃ rooms, turn.roomsAround s zone.id = .ok rooms ∧ Room.widest? rooms = some room := by
  unfold seaRoom
  rw [Outcome.bind_eq_ok_iff]
  simp only [lift_eq_ok_iff]
  refine exists_congr fun rooms => and_congr_right fun _ => ?_
  cases Room.widest? rooms with
  | none => simp [throw, throwThe, MonadExceptOf.throw]
  | some r => simp [Outcome.pure_eq_ok_iff]

/-- The room that bounds a placement: that of the land, or the widest of those beside the sea. -/
def roomFor (s : Snapshot) (turn : PlaceTurn) (t : Territory) (place : TerritoryId) :
    Except Refusal Room :=
  if t.isWater then turn.seaRoom s t else turn.landRoom s t place

theorem roomFor_of_water (hwater : t.isWater = true) :
    turn.roomFor s t place = turn.seaRoom s t := by
  unfold roomFor
  rw [hwater, if_pos rfl]

theorem roomFor_of_land (hland : t.isWater = false) :
    turn.roomFor s t place = turn.landRoom s t place := by
  unfold roomFor
  rw [hland, if_neg (by decide)]

/-- Whether there is a room at all does not depend on what is placed. -/
theorem roomFor_of_player_eq (h : turn.roomFor s t place = .ok room) (turn' : PlaceTurn)
    (hplayer : turn'.player = turn.player) : ∃ room', turn'.roomFor s t place = .ok room' := by
  cases hwater : t.isWater with
  | true =>
    simp only [roomFor_of_water hwater, seaRoom_eq_ok_iff] at h ⊢
    obtain ⟨rooms, hrooms, hwidest⟩ := h
    obtain ⟨rooms', hrooms'⟩ := roomsAround_of_player_eq hrooms turn' hplayer
    obtain ⟨around, haround, t', ht', c, hfeeds, -⟩ :=
      (mem_roomsAround_iff hrooms).mp (Room.widest?_eq_some hwidest).1
    -- the neighbour that feeds the zone in one turn feeds it in the other
    have hmem : ⟨c, turn'.usedBy s t'⟩ ∈ rooms' :=
      (mem_roomsAround_iff hrooms').mpr ⟨around, haround, t', ht', c, hplayer ▸ hfeeds, rfl⟩
    cases hwidest' : Room.widest? rooms' with
    | none =>
      rw [Room.widest?_eq_none_iff.mp hwidest'] at hmem
      cases hmem
    | some room' => exact ⟨room', rooms', hrooms', hwidest'⟩
  | false =>
    simp only [roomFor_of_land hwater, landRoom_eq_ok_iff] at h ⊢
    obtain ⟨howned, c, hc, -⟩ := h
    rw [hplayer]
    exact ⟨_, howned, c, hc, rfl⟩

/-! ## Ceilings -/

/-- The answer for one kind is read off its ceiling. -/
theorem checkLimit_eq {kind : KindId} {k : PieceKind} (hk : s.kind kind = .ok k)
    (requested : Nat) :
    turn.checkLimit s kind requested =
      match k.buildLimit with
      | .unlimited => .ok ()
      | .forbidden => .error (.buildForbidden kind)
      | .atMost limit =>
        if s.countOwned turn.player kind + turn.placedOfKind kind + requested ≤ limit then .ok ()
        else .error (.buildLimitReached kind limit
          (s.countOwned turn.player kind + turn.placedOfKind kind) requested) := by
  unfold checkLimit
  rw [hk]
  show (match k.buildLimit with
    | .unlimited => _
    | .forbidden => _
    | .atMost limit => _) = _
  cases k.buildLimit with
  | unlimited => rfl
  | forbidden => rfl
  | atMost limit =>
    simp only
    split
    · rename_i hover
      rw [if_neg (Nat.not_le_of_lt hover)]
      rfl
    · rename_i hunder
      rw [if_pos (Nat.le_of_not_lt hunder)]
      rfl

theorem checkLimit_eq_ok_iff {kind : KindId} {requested : Nat} :
    turn.checkLimit s kind requested = .ok () ↔ ∃ k, s.kind kind = .ok k ∧
      match k.buildLimit with
      | .unlimited => True
      | .forbidden => False
      | .atMost limit =>
        s.countOwned turn.player kind + turn.placedOfKind kind + requested ≤ limit := by
  cases hkind : s.kind kind with
  | error fault =>
    unfold checkLimit
    rw [hkind]
    simp [bind, Except.bind, liftM, monadLift, MonadLift.monadLift, Except.mapError]
  | ok k =>
    rw [checkLimit_eq hkind]
    cases hlimit : k.buildLimit <;> simp [hlimit]

theorem checkLimits_eq_ok_iff {es : List (KindId × Nat)} :
    turn.checkLimits s es = .ok () ↔ ∀ e ∈ es, turn.checkLimit s e.1 e.2 = .ok () := by
  induction es with
  | nil => simp [checkLimits]
  | cons e es ih =>
    rw [checkLimits, Outcome.seq_eq_ok_iff, List.forall_mem_cons, ← ih]

theorem checkLimits_singleton (turn : PlaceTurn) (kind : KindId) (requested : Nat) :
    turn.checkLimits s [(kind, requested)] = turn.checkLimit s kind requested := by
  rw [checkLimits, checkLimits]
  cases turn.checkLimit s kind requested <;> rfl

/-- The ceilings are asked about once for each kind among the pieces. -/
theorem checkLimits_countBy_iff :
    turn.checkLimits s (Stack.countBy Piece.kind ps).entries = .ok () ↔
      ∀ t, 0 < (ps.countP fun q => q.kind = t) →
        turn.checkLimit s t (ps.countP fun q => q.kind = t) = .ok () := by
  rw [checkLimits_eq_ok_iff]
  constructor
  · intro hall t hpos
    exact hall (t, _) (Stack.mem_entries_countBy.mpr ⟨rfl, hpos⟩)
  · rintro hall ⟨t, n⟩ hentry
    obtain ⟨rfl, hpos⟩ := Stack.mem_entries_countBy.mp hentry
    exact hall t hpos

/-! ## The whole check -/

/-- Of pieces that suit a place it is only asked whether they find room, and whether the ceilings
allow them. -/
theorem check_eq_of_suits (h : s.Suits turn.player place t ps) :
    turn.check s place ps = turn.roomFor s t place >>= fun room =>
      if room.fits ps.length then turn.checkLimits s (Stack.countBy Piece.kind ps).entries
      else .error (.capacityExceeded place ps.length room.used room.capacity) := by
  obtain ⟨p, hp, hban⟩ := h.allowed
  have hsome : ps.isEmpty = false := by
    rw [List.isEmpty_eq_false_iff]
    exact h.nonempty
  unfold check
  rw [hsome, h.territory]
  show (turn.checkPieces s t place ps >>= _) = _
  rw [checkPieces_eq_ok_iff.mpr h.pieces, hp, h.unconquered]
  show (if p.isPlacementBanned place = true then _ else _) = _
  rw [hban]
  cases hwater : t.isWater with
  | true =>
    rw [roomFor_of_water hwater]
    refine Outcome.bind_congr_ok fun room _ => ?_
    cases hfits : room.fits ps.length <;>
      simp [bind, Except.bind, hfits, throw, throwThe, MonadExceptOf.throw]
  | false =>
    rw [roomFor_of_land hwater]
    refine Outcome.bind_congr_ok fun room _ => ?_
    cases hfits : room.fits ps.length <;>
      simp [bind, Except.bind, hfits, throw, throwThe, MonadExceptOf.throw]

/-- Pieces that suit a place are refused for want of room or for a ceiling. -/
theorem check_of_suits (h : s.Suits turn.player place t ps)
    (hroom : turn.roomFor s t place = .ok room) :
    turn.check s place ps =
      if room.fits ps.length then turn.checkLimits s (Stack.countBy Piece.kind ps).entries
      else .error (.capacityExceeded place ps.length room.used room.capacity) := by
  rw [check_eq_of_suits h, hroom]
  rfl

/-- A placement is accepted exactly when the pieces suit the place, fit the room that bounds them
and keep the ceilings. -/
theorem check_eq_ok_iff :
    turn.check s place ps = .ok () ↔ ∃ t, s.Suits turn.player place t ps ∧
      ∃ room, turn.roomFor s t place = .ok room ∧ room.fits ps.length = true ∧
        turn.checkLimits s (Stack.countBy Piece.kind ps).entries = .ok () := by
  constructor
  · intro h
    unfold check at h
    dsimp only at h
    rw [Outcome.guard_eq_ok_iff, Outcome.bind_eq_ok_iff] at h
    simp only [lift_eq_ok_iff, Outcome.seq_eq_ok_iff, checkPieces_eq_ok_iff] at h
    simp only [Outcome.guard_eq_ok_iff, Outcome.bind_eq_ok_iff, lift_eq_ok_iff] at h
    obtain ⟨hsome, t, ht, hpieces, p, hp, hconquered, hban, hrest⟩ := h
    refine ⟨t, ⟨List.isEmpty_eq_false_iff.mp hsome, ht, hpieces, ⟨p, hp, hban⟩, hconquered⟩, ?_⟩
    cases hwater : t.isWater with
    | true =>
      rw [hwater, if_pos rfl, Outcome.bind_eq_ok_iff] at hrest
      obtain ⟨room, hroom, hrest⟩ := hrest
      rw [Outcome.guard_eq_ok_iff, Bool.not_eq_false'] at hrest
      exact ⟨room, (roomFor_of_water hwater).trans hroom, hrest⟩
    | false =>
      rw [hwater, if_neg (by decide), Outcome.bind_eq_ok_iff] at hrest
      obtain ⟨room, hroom, hrest⟩ := hrest
      rw [Outcome.guard_eq_ok_iff, Bool.not_eq_false'] at hrest
      exact ⟨room, (roomFor_of_land hwater).trans hroom, hrest⟩
  · rintro ⟨t, hsuits, room, hroom, hfits, hlimits⟩
    rw [check_of_suits hsuits hroom, if_pos hfits]
    exact hlimits

/-- Where pieces of one kind suit a place and fit its room, only the ceiling of the kind is left. -/
theorem check_of_forall_kind {kind : KindId} (h : s.Suits turn.player place t ps)
    (hroom : turn.roomFor s t place = .ok room) (hfits : room.fits ps.length = true)
    (hkinds : ∀ q ∈ ps, q.kind = kind) :
    turn.check s place ps = turn.checkLimit s kind ps.length := by
  rw [check_of_suits h hroom, if_pos hfits, Stack.entries_countBy_of_forall h.nonempty hkinds,
    checkLimits_singleton]

/-- Nothing of a forbidden kind is accepted. -/
theorem buildLimit_ne_forbidden {q : Piece} {k : PieceKind} (h : turn.check s place ps = .ok ())
    (hq : q ∈ ps) (hk : s.kind q.kind = .ok k) : k.buildLimit ≠ .forbidden := by
  obtain ⟨t, -, room, -, -, hlimits⟩ := check_eq_ok_iff.mp h
  have hpos : 0 < ps.countP fun r => r.kind = q.kind :=
    List.countP_pos_iff.mpr ⟨q, hq, decide_eq_true rfl⟩
  obtain ⟨k', hk', hbuilt⟩ :=
    checkLimit_eq_ok_iff.mp (checkLimits_countBy_iff.mp hlimits q.kind hpos)
  obtain rfl : k = k' := Except.ok.inj (hk.symm.trans hk')
  intro hforbidden
  rw [hforbidden] at hbuilt
  exact hbuilt

/-! ## Turns -/

theorem place_eq_ok_iff :
    turn.place s place ps = .ok turn' ↔
      turn.check s place ps = .ok () ∧ turn' = turn.record place ps := by
  unfold PlaceTurn.place
  rw [Outcome.seq_eq_ok_iff, Outcome.pure_eq_ok_iff, eq_comm (a := turn')]

theorem place_eq_error_iff {refusal : Refusal} :
    turn.place s place ps = .error refusal ↔ turn.check s place ps = .error refusal := by
  unfold PlaceTurn.place
  cases turn.check s place ps <;> simp [bind, Except.bind, pure, Except.pure]

theorem placedIn_record (turn : PlaceTurn) (place other : TerritoryId) (ps : List Piece) :
    (turn.record place ps).placedIn other =
      turn.placedIn other ++ if other = place then ps else [] := by
  unfold placedIn record SortedMap.update
  split
  · rename_i h
    subst h
    rw [SortedMap.get?_insert_self]
    rfl
  · rename_i h
    rw [SortedMap.get?_insert_of_ne _ _ h, List.append_nil]

theorem placedOfKind_record (turn : PlaceTurn) (place : TerritoryId) (ps : List Piece)
    (kind : KindId) :
    (turn.record place ps).placedOfKind kind =
      turn.placedOfKind kind + ps.countP fun p => p.kind = kind := by
  obtain ⟨before, after, hvalues, hinsert⟩ := turn.placed.values_split place
  unfold placedOfKind record SortedMap.update
  rw [hinsert, hvalues]
  simp only [List.flatten_append, List.flatten_cons, List.countP_append, beq_eq_decide]
  cases turn.placed.get? place with
  | none =>
    simp only [Option.getD_none, Option.toList_none, List.flatten_nil, List.countP_nil]
    omega
  | some old =>
    simp only [Option.getD_some, Option.toList_some, List.flatten_cons, List.flatten_nil,
      List.append_nil]
    omega

end PlaceTurn

end Quartermaster
