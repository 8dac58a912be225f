import Quartermaster.Proofs.Consistency
import Quartermaster.Proofs.Output

/-!
# Legal placements

The rules are asked one after the other, and of the rooms beside a sea zone they look at the widest
only. `PlaceTurn.Legal` says what they come to without that order: which placements break no rule.

A batch fits the widest room exactly when it fits some room (`Room.fits_widest_iff`). For rooms
with limits that is plain. One without limit is compared as if it were `Room.boundless` wide; it is
still the widest by far, as long as limits and what is placed are within their words.

The rules look at every producer beside a zone before they compare. So one that cannot be measured
(`Snapshot.Measures`) leaves them without an answer, even where another has room enough
(`PlaceTurn.check_overflows_vastProvince`).
-/

namespace Quartermaster

/-! ## The widest room -/

namespace Room

variable {r r' : Room} {rooms : List Room} {n limit : Nat}

/-- What is used is a number of 63 bits, and a limit one of 31. -/
structure Bounded (r : Room) : Prop where
  used : r.used < wordValues 63
  limit : ∀ n, r.capacity = .limited n → n < wordValues 31

theorem fits_of_unlimited (h : r.capacity = .unlimited) (n : Nat) : r.fits n = true := by
  unfold fits
  rw [h]
  rfl

theorem le_left_of_limited (h : r.capacity = .limited limit) (hfits : r.fits n = true) :
    n ≤ r.left := by
  rw [fits_iff, h] at hfits
  have hsum : r.used + n ≤ limit := of_decide_eq_true hfits
  unfold left
  rw [h]
  show n ≤ limit - r.used
  omega

/-- A room with a limit is narrower than one without. -/
theorem Bounded.left_lt (hr : r.Bounded) (hr' : r'.Bounded) (h : r.capacity = .limited limit)
    (h' : r'.capacity = .unlimited) : r.left < r'.left := by
  have hlimit : limit < wordValues 31 := hr.limit limit h
  have hused : r'.used < wordValues 63 := hr'.used
  have hwide : wordValues 31 + wordValues 63 ≤ boundless := by decide
  unfold left
  rw [h, h']
  show limit - r.used < boundless - r'.used
  omega

/-- A batch fits the widest room exactly when it fits some room. -/
theorem fits_widest_iff (hall : ∀ r ∈ rooms, r.Bounded) (hn : 0 < n)
    (h : widest? rooms = some r) : r.fits n = true ↔ ∃ r' ∈ rooms, r'.fits n = true := by
  obtain ⟨hmem, hmax⟩ := widest?_eq_some h
  constructor
  · intro hfits
    exact ⟨r, hmem, hfits⟩
  · rintro ⟨r', hr', hfits⟩
    have hleft : r'.left ≤ r.left := hmax r' hr'
    cases hc : r.capacity with
    | unlimited => exact fits_of_unlimited hc n
    | limited limit =>
      cases hc' : r'.capacity with
      | unlimited =>
        have hlt : r.left < r'.left := (hall r hmem).left_lt (hall r' hr') hc hc'
        omega
      | limited limit' =>
        have hn' : n ≤ r'.left := le_left_of_limited hc' hfits
        exact fits_of_le_left hn (Nat.le_trans hn' hleft)

end Room

namespace Snapshot

variable {s : Snapshot} {player id : PlayerId} {place : TerritoryId} {p : Player} {t : Territory}
  {q : Piece} {k : PieceKind} {fs ps : List Piece} {n : Nat}

/-! ## How much a territory can make -/

/-- What the factories of a territory make is a number of 31 bits. -/
theorem productionPotential_lt {made : Int}
    (h : s.productionPotential t.stack t p {} = .ok made) : made < wordValues 31 := by
  obtain ⟨found, hfound, hmade⟩ := Outcome.bind_eq_ok_iff.mp h
  rw [Outcome.pure_eq_ok_iff] at hmade
  subst hmade
  have hzero : (0 : Int) < wordValues 31 := by decide
  refine Int.max_lt.mpr ⟨?_, hzero⟩
  cases hmax : (found.filterMap id).max? with
  | none => exact hzero
  | some best =>
    obtain ⟨q, k, -, hfits, rfl⟩ := (mem_outputs hfound).mp (List.max?_mem hmax)
    exact hfits.whole.2

/-- The capacity of a territory, where it has a limit, is a number of 31 bits. -/
theorem Metered.limit_lt (h : s.Metered) (hc : s.capacity place player = .ok (.limited n)) :
    n < wordValues 31 := by
  obtain ⟨t, ht, hc⟩ := Outcome.bind_eq_ok_iff.mp hc
  obtain ⟨p, hp, hc⟩ := Outcome.bind_eq_ok_iff.mp hc
  obtain ⟨fs, -, hc⟩ := Outcome.bind_eq_ok_iff.mp hc
  obtain ⟨first, -, hc⟩ := Outcome.bind_eq_ok_iff.mp hc
  have hpos : 0 < wordValues 31 := wordValues_pos 31
  split at hc
  · -- the cap of the player
    rw [Outcome.pure_eq_ok_iff] at hc
    cases hcap : p.placementCap with
    | none =>
      rw [hcap] at hc
      cases hc
    | some cap =>
      rw [hcap] at hc
      obtain rfl : cap.toNat = n := Capacity.limited.inj hc
      have hvalue : p ∈ s.players.values :=
        SortedMap.mem_values_iff.mpr ⟨player, player_eq_ok_iff.mp hp⟩
      have hsmall : cap < wordValues 31 :=
        h.placementCap p hvalue cap (by rw [hcap]; exact List.mem_singleton_self cap)
      omega
  · split at hc
    · cases hc
    · -- what the factories make
      obtain ⟨made, hmade, hc⟩ := Outcome.bind_eq_ok_iff.mp hc
      rw [Outcome.pure_eq_ok_iff] at hc
      obtain rfl : made.toNat = n := Capacity.limited.inj hc
      have hsmall := productionPotential_lt hmade
      omega

/-! ## Producers -/

/-- Unconquered land of the player that can feed the sea beside it: the player has a factory at
work there, or may place anywhere. -/
structure Produces (s : Snapshot) (p : Player) (player : PlayerId) (t : Territory) : Prop where
  land : t.isWater = false
  unconquered : t.conqueredThisTurn = false
  owned : t.isOwnedBy player = true
  equipped : p.placesAnywhere = true ∨
    ∃ q ∈ t.stack.pieces, q.owner = player ∧ q.isTransported = false ∧
      ∃ k, s.kind q.kind = .ok k ∧ k.isFactory = true ∧ k.isSea = false

/-- No producer beside a sea zone has an output that leaves its word. -/
def Measures (s : Snapshot) (p : Player) (player : PlayerId) (zone : Territory) : Prop :=
  ∀ t, s.territory t.id = .ok t → zone.isAdjacentTo t.id = true → s.Produces p player t →
    ¬s.Overflows t p

theorem isProducer_eq_true_iff (h : s.Resolved) (hp : s.player player = .ok p)
    (ht : t ∈ s.territories.values) :
    s.isProducer t player = .ok true ↔ s.Produces p player t := by
  obtain ⟨fs, hfs⟩ := h.exists_factories ht player
  -- past the bars, all hangs on the player's rules and the factories
  have hopen : t.isWater = false → t.conqueredThisTurn = false → t.isOwnedBy player = true →
      s.isProducer t player = .ok (p.placesAnywhere || !fs.isEmpty) := by
    intro hland hunconquered howned
    unfold isProducer
    rw [hland, hunconquered, howned, hp, hfs]
    cases hanywhere : p.placesAnywhere <;>
      simp [bind, Except.bind, pure, Except.pure, hanywhere]
  have hequipped : fs.isEmpty = false ↔ ∃ q, q ∈ fs := by
    rw [List.isEmpty_eq_false_iff_exists_mem]
  constructor
  · intro hproduces
    obtain ⟨hland, hunconquered, howned⟩ := isOwnedBy_of_isProducer hproduces
    rw [hopen hland hunconquered howned, Except.ok.injEq, Bool.or_eq_true,
      Bool.not_eq_true', hequipped] at hproduces
    refine ⟨hland, hunconquered, howned, hproduces.imp_right ?_⟩
    rintro ⟨q, hq⟩
    obtain ⟨hmem, howner, hworks, k, hk, hfactory, hdomain⟩ := (mem_factories hfs).mp hq
    rw [hland, if_neg (by decide)] at hdomain
    exact ⟨q, hmem, howner, hworks, k, hk, hfactory, hdomain⟩
  · rintro ⟨hland, hunconquered, howned, hsource⟩
    rw [hopen hland hunconquered howned, Except.ok.injEq, Bool.or_eq_true, Bool.not_eq_true',
      hequipped]
    refine hsource.imp_right ?_
    rintro ⟨q, hmem, howner, hworks, k, hk, hfactory, hdomain⟩
    refine ⟨q, (mem_factories hfs).mpr ⟨hmem, howner, hworks, k, hk, hfactory, ?_⟩⟩
    rw [hland, if_neg (by decide)]
    exact hdomain

end Snapshot

namespace PlaceTurn

variable {s : Snapshot} {turn : PlaceTurn} {p : Player} {t z : Territory} {place : TerritoryId}
  {ps : List Piece} {rooms : List Room} {n : Nat}

/-! ## How much is placed -/

/-- What lies in different places is a part of all that is placed. -/
theorem sum_countP_placed_le (p : Piece → Bool) {ids : List TerritoryId} (hids : ids.Nodup)
    (placed : SortedMap TerritoryId (List Piece)) :
    (ids.map fun id => ((placed.get? id).getD []).countP p).foldr (· + ·) 0 ≤
      placed.values.flatten.countP p := by
  induction ids generalizing placed with
  | nil => exact Nat.zero_le _
  | cons id ids ih =>
    obtain ⟨hfresh, hrest⟩ := List.nodup_cons.mp hids
    obtain ⟨before, after, hvalues, hinsert⟩ := placed.values_split id
    -- the other places hold as much once this one is emptied
    have hothers : (ids.map fun id' => ((placed.get? id').getD []).countP p) =
        ids.map fun id' => (((placed.insert id []).get? id').getD []).countP p := by
      refine List.map_congr_left fun id' hid' => ?_
      have hne : id' ≠ id := fun hsame => hfresh (hsame ▸ hid')
      rw [SortedMap.get?_insert_of_ne _ _ hne]
    have hemptied := ih hrest (placed.insert id [])
    rw [hinsert] at hemptied
    rw [List.map_cons, List.foldr_cons, hothers, hvalues]
    cases placed.get? id <;>
      simp only [List.flatten_append, List.flatten_cons, List.countP_append, List.countP_nil,
        Option.getD_none, Option.getD_some, Option.toList_none, Option.toList_some,
        List.flatten_nil, List.nil_append, List.append_nil] at hemptied ⊢ <;>
      omega

theorem sum_placed_le {ids : List TerritoryId} (hids : ids.Nodup)
    (placed : SortedMap TerritoryId (List Piece)) :
    (ids.map fun id => ((placed.get? id).getD []).length).foldr (· + ·) 0 ≤
      placed.values.flatten.length := by
  simpa only [List.countP_true] using sum_countP_placed_le (fun _ => true) hids placed

/-- A land territory has not used up more than all that is placed. -/
theorem usedBy_le (turn : PlaceTurn) (ht : s.territory t.id = .ok t) (hland : t.isWater = false) :
    turn.usedBy s t ≤ turn.placed.values.flatten.length :=
  sum_placed_le (Snapshot.nodup_zonesBeside ht hland) turn.placed

/-! ## Rooms beside the sea -/

/-- A batch fits the room of a sea zone exactly when some neighbour that feeds the zone has that
much left. -/
theorem exists_seaRoom_iff (hs : s.Keyed) (hw : s.Metered) (hz : s.territory z.id = .ok z)
    (hrooms : turn.roomsAround s z.id = .ok rooms)
    (hused : ∀ t, s.territory t.id = .ok t → t.isWater = false →
      turn.usedBy s t < wordValues 63) (hn : 0 < n) :
    (∃ room, turn.seaRoom s z = .ok room ∧ room.fits n = true) ↔
      ∃ t c, s.territory t.id = .ok t ∧ z.isAdjacentTo t.id = true ∧
        s.Feeds turn.player t c ∧ c.fits (turn.usedBy s t + n) = true := by
  have hmem : ∀ room, room ∈ rooms ↔ ∃ t c, s.territory t.id = .ok t ∧
      z.isAdjacentTo t.id = true ∧ s.Feeds turn.player t c ∧ room = ⟨c, turn.usedBy s t⟩ :=
    fun room => mem_roomsAround_iff_of_keyed hs hz hrooms
  have hbounded : ∀ room ∈ rooms, room.Bounded := by
    intro room hroom
    obtain ⟨t, c, ht, -, ⟨hproduces, hc⟩, rfl⟩ := (hmem room).mp hroom
    obtain ⟨hland, -, -⟩ := Snapshot.isOwnedBy_of_isProducer hproduces
    refine ⟨hused t ht hland, ?_⟩
    rintro limit rfl
    exact hw.limit_lt hc
  constructor
  · rintro ⟨room, hroom, hfits⟩
    obtain ⟨rooms', hrooms', hwidest⟩ := seaRoom_eq_ok_iff.mp hroom
    obtain rfl : rooms = rooms' := Except.ok.inj (hrooms.symm.trans hrooms')
    obtain ⟨t, c, ht, hbeside, hfeeds, rfl⟩ := (hmem room).mp (Room.widest?_eq_some hwidest).1
    exact ⟨t, c, ht, hbeside, hfeeds, Room.fits_iff.mp hfits⟩
  · rintro ⟨t, c, ht, hbeside, hfeeds, hfits⟩
    have hroom : ⟨c, turn.usedBy s t⟩ ∈ rooms := (hmem _).mpr ⟨t, c, ht, hbeside, hfeeds, rfl⟩
    cases hwidest : Room.widest? rooms with
    | none =>
      rw [Room.widest?_eq_none_iff.mp hwidest] at hroom
      cases hroom
    | some room =>
      refine ⟨room, seaRoom_eq_ok_iff.mpr ⟨rooms, hrooms, hwidest⟩, ?_⟩
      rw [Room.fits_widest_iff hbounded hn hwidest]
      exact ⟨_, hroom, Room.fits_iff.mpr hfits⟩

/-- On a consistent board the rooms beside a sea zone can be told exactly when the capacities of the
producers there can. -/
theorem exists_roomsAround_iff (hs : s.Keyed) (h : s.Resolved) (hp : s.player turn.player = .ok p)
    (hz : s.territory z.id = .ok z) :
    (∃ rooms, turn.roomsAround s z.id = .ok rooms) ↔ s.Measures p turn.player z := by
  have hroom : ∀ t, s.territory t.id = .ok t →
      ((∃ room, turn.roomFrom? s t = .ok room) ↔
        (s.Produces p turn.player t → ¬s.Overflows t p)) := by
    intro t ht
    have hmem := Snapshot.mem_values_of_territory ht
    rw [← Snapshot.isProducer_eq_true_iff h hp hmem]
    obtain ⟨produces, hproduces⟩ := h.exists_isProducer hp hmem
    unfold roomFrom?
    rw [hproduces]
    cases produces with
    | false => simp [bind, Except.bind, pure, Except.pure]
    | true =>
      rcases h.capacity_cases hs hp ht with ⟨hfits, c, hc⟩ | ⟨hover, step, hstep⟩
      · simp [bind, Except.bind, pure, Except.pure, hc, hfits]
      · simp [bind, Except.bind, hstep, hover]
  have haround : s.neighbors z.id = .ok (s.known z.neighbors.toList) :=
    Snapshot.neighbors_eq_ok_iff.mpr ⟨z, hz, rfl⟩
  have hwalk : (∃ rooms, turn.roomsAround s z.id = .ok rooms) ↔
      ∃ found, (s.known z.neighbors.toList).mapM (turn.roomFrom? s) = .ok found := by
    unfold roomsAround
    rw [haround]
    exact Outcome.exists_bind_pure_iff
  rw [hwalk, Outcome.exists_mapM_eq_ok_iff]
  constructor
  · intro hall t ht hbeside
    exact (hroom t ht).mp (hall t (hs.mem_known.mpr ⟨Territory.isAdjacentTo_iff.mp hbeside, ht⟩))
  · intro hall t ht
    obtain ⟨hbeside, ht⟩ := hs.mem_known.mp ht
    exact (hroom t ht).mpr (hall t ht (Territory.isAdjacentTo_iff.mpr hbeside))

/-- On a consistent board, with so little placed that a word can count it, a batch fits the room of
a sea zone exactly when a producer beside the zone has room for it, and all of them can be
measured. -/
theorem exists_seaRoom_iff_produces (hs : s.Keyed) (h : s.Resolved) (hw : s.Metered)
    (hp : s.player turn.player = .ok p) (hz : s.territory z.id = .ok z)
    (hplaced : turn.placed.values.flatten.length < wordValues 63) (hn : 0 < n) :
    (∃ room, turn.seaRoom s z = .ok room ∧ room.fits n = true) ↔
      s.Measures p turn.player z ∧
      ∃ t c, s.territory t.id = .ok t ∧ z.isAdjacentTo t.id = true ∧
        s.Produces p turn.player t ∧ s.capacity t.id turn.player = .ok c ∧
        c.fits ((turn.placedIn t.id).length + turn.placedBeside s t + n) = true := by
  rw [← exists_roomsAround_iff hs h hp hz]
  by_cases htold : ∃ rooms, turn.roomsAround s z.id = .ok rooms
  case neg =>
    refine iff_of_false (fun ⟨room, hroom, _⟩ => htold ?_) fun hboth => htold hboth.1
    exact (seaRoom_eq_ok_iff.mp hroom).imp fun _ hr => hr.1
  obtain ⟨rooms, hrooms⟩ := htold
  rw [and_iff_right ⟨rooms, hrooms⟩]
  have hused : ∀ t, s.territory t.id = .ok t → t.isWater = false →
      turn.usedBy s t < wordValues 63 := by
    intro t ht hland
    exact Nat.lt_of_le_of_lt (turn.usedBy_le ht hland) hplaced
  rw [exists_seaRoom_iff hs hw hz hrooms hused hn]
  refine exists_congr fun t => exists_congr fun c => and_congr_right fun ht => ?_
  have hmem : t ∈ s.territories.values := Snapshot.mem_values_of_territory ht
  unfold Snapshot.Feeds
  rw [Snapshot.isProducer_eq_true_iff h hp hmem, and_assoc, usedBy_eq_add]

/-! ## Legal placements -/

/-- A placement that breaks no rule. -/
structure Legal (s : Snapshot) (turn : PlaceTurn) (p : Player) (t : Territory)
    (place : TerritoryId) (ps : List Piece) : Prop where
  nonempty : ps ≠ []
  pieces : ∀ q ∈ ps, q.owner = turn.player ∧ ∃ k, s.kind q.kind = .ok k ∧ k.isSea = t.isWater
  unconquered : t.conqueredThisTurn = false
  allowed : p.isPlacementBanned place = false
  /-- Land is the player's, and has room for the pieces next to those placed there. -/
  land : t.isWater = false → t.isOwnedBy turn.player = true ∧
    ∃ c, s.capacity place turn.player = .ok c ∧
      c.fits ((turn.placedIn place).length + ps.length) = true
  /-- Beside a sea zone lies a producer that has room for the pieces next to those placed on its
  land and in all the sea zones beside it. -/
  sea : t.isWater = true → ∃ t' c, s.territory t'.id = .ok t' ∧ t.isAdjacentTo t'.id = true ∧
    s.Produces p turn.player t' ∧ s.capacity t'.id turn.player = .ok c ∧
    c.fits ((turn.placedIn t'.id).length + turn.placedBeside s t' + ps.length) = true
  ceilings : ∀ q ∈ ps, ∀ k, s.kind q.kind = .ok k → k.buildLimit ≠ .forbidden ∧
    ∀ limit, k.buildLimit = .atMost limit →
      s.countOwned turn.player q.kind + turn.placedOfKind q.kind +
        (ps.countP fun r => r.kind = q.kind) ≤ limit

theorem Legal.suits (h : turn.Legal s p t place ps) (hp : s.player turn.player = .ok p)
    (ht : s.territory place = .ok t) : s.Suits turn.player place t ps :=
  ⟨h.nonempty, ht, h.pieces, ⟨p, hp, h.allowed⟩, h.unconquered⟩

/-- The ceilings are asked about once for each kind; that is as good as once for each piece. -/
theorem checkLimits_iff (hkinds : ∀ q ∈ ps, ∃ k, s.kind q.kind = .ok k) :
    turn.checkLimits s (Stack.countBy Piece.kind ps).entries = .ok () ↔
      ∀ q ∈ ps, ∀ k, s.kind q.kind = .ok k → k.buildLimit ≠ .forbidden ∧
        ∀ limit, k.buildLimit = .atMost limit →
          s.countOwned turn.player q.kind + turn.placedOfKind q.kind +
            (ps.countP fun r => r.kind = q.kind) ≤ limit := by
  rw [checkLimits_countBy_iff]
  constructor
  · intro hall q hq k hk
    have hpos : 0 < ps.countP fun r => r.kind = q.kind :=
      List.countP_pos_iff.mpr ⟨q, hq, decide_eq_true rfl⟩
    obtain ⟨k', hk', hroom⟩ := checkLimit_eq_ok_iff.mp (hall q.kind hpos)
    obtain rfl : k = k' := Except.ok.inj (hk.symm.trans hk')
    constructor
    · intro hforbidden
      rw [hforbidden] at hroom
      exact hroom
    · intro limit hlimit
      rw [hlimit] at hroom
      exact hroom
  · intro hall kind hpos
    obtain ⟨q, hq, hkind⟩ := List.countP_pos_iff.mp hpos
    obtain rfl : q.kind = kind := of_decide_eq_true hkind
    obtain ⟨k, hk⟩ := hkinds q hq
    obtain ⟨hbuilt, hlimit⟩ := hall q hq k hk
    refine checkLimit_eq_ok_iff.mpr ⟨k, hk, ?_⟩
    cases hbuild : k.buildLimit with
    | unlimited => trivial
    | forbidden => exact hbuilt hbuild
    | atMost limit => exact hlimit limit hbuild

/-- A legal placement is accepted unless a producer beside its sea zone cannot be measured. -/
theorem check_eq_ok_iff_of_resolved (hs : s.Keyed) (hresolved : s.Resolved) (hw : s.Metered)
    (hp : s.player turn.player = .ok p) (ht : s.territory place = .ok t)
    (hplaced : turn.placed.values.flatten.length < wordValues 63) (ps : List Piece) :
    turn.check s place ps = .ok () ↔
      turn.Legal s p t place ps ∧ (t.isWater = true → s.Measures p turn.player t) := by
  have hself : s.territory t.id = .ok t :=
    hs.territory_of_mem (Snapshot.mem_values_of_territory ht)
  rw [check_eq_ok_iff]
  constructor
  · rintro ⟨t', hsuits, room, hroom, hfits, hlimits⟩
    obtain rfl : t = t' := Except.ok.inj (ht.symm.trans hsuits.territory)
    obtain ⟨p', hp', hallowed⟩ := hsuits.allowed
    obtain rfl : p = p' := Except.ok.inj (hp.symm.trans hp')
    have hsea : t.isWater = true → s.Measures p turn.player t ∧
        ∃ t' c, s.territory t'.id = .ok t' ∧ t.isAdjacentTo t'.id = true ∧
          s.Produces p turn.player t' ∧ s.capacity t'.id turn.player = .ok c ∧
          c.fits ((turn.placedIn t'.id).length + turn.placedBeside s t' + ps.length) = true := by
      intro hwater
      rw [roomFor_of_water hwater] at hroom
      have hsome : 0 < ps.length := List.length_pos_iff.mpr hsuits.nonempty
      exact (exists_seaRoom_iff_produces hs hresolved hw hp hself hplaced hsome).mp
        ⟨room, hroom, hfits⟩
    refine ⟨⟨hsuits.nonempty, hsuits.pieces, hsuits.unconquered, hallowed, ?_,
      fun hwater => (hsea hwater).2, ?_⟩, fun hwater => (hsea hwater).1⟩
    · intro hland
      rw [roomFor_of_land hland, landRoom_eq_ok_iff] at hroom
      obtain ⟨howned, c, hc, rfl⟩ := hroom
      exact ⟨howned, c, hc, Room.fits_iff.mp hfits⟩
    · refine (checkLimits_iff fun q hq => ?_).mp hlimits
      obtain ⟨-, k, hk, -⟩ := hsuits.pieces q hq
      exact ⟨k, hk⟩
  · rintro ⟨h, hmeasures⟩
    refine ⟨t, h.suits hp ht, ?_⟩
    have hlimits : turn.checkLimits s (Stack.countBy Piece.kind ps).entries = .ok () := by
      refine (checkLimits_iff fun q hq => ?_).mpr h.ceilings
      obtain ⟨-, k, hk, -⟩ := h.pieces q hq
      exact ⟨k, hk⟩
    cases hwater : t.isWater with
    | true =>
      have hsome : 0 < ps.length := List.length_pos_iff.mpr h.nonempty
      obtain ⟨room, hroom, hfits⟩ :=
        (exists_seaRoom_iff_produces hs hresolved hw hp hself hplaced hsome).mpr
          ⟨hmeasures hwater, h.sea hwater⟩
      exact ⟨room, (roomFor_of_water hwater).trans hroom, hfits, hlimits⟩
    | false =>
      obtain ⟨howned, c, hc, hfits⟩ := h.land hwater
      refine ⟨⟨c, (turn.placedIn place).length⟩, ?_, Room.fits_iff.mpr hfits, hlimits⟩
      rw [roomFor_of_land hwater, landRoom_eq_ok_iff]
      exact ⟨howned, c, hc, rfl⟩

/-- Where a producer beside the zone of a legal placement cannot be measured, the rules end in an
overflow. -/
theorem check_overflows (hs : s.Keyed) (hresolved : s.Resolved)
    (hp : s.player turn.player = .ok p) (ht : s.territory place = .ok t)
    (h : turn.Legal s p t place ps) (hwater : t.isWater = true)
    (hbeyond : ¬s.Measures p turn.player t) :
    ∃ step, turn.check s place ps = .error (.fault (.overflow step)) := by
  have hself : s.territory t.id = .ok t :=
    hs.territory_of_mem (Snapshot.mem_values_of_territory ht)
  have hnone : ¬∃ rooms, turn.roomsAround s t.id = .ok rooms :=
    mt (exists_roomsAround_iff hs hresolved hp hself).mp hbeyond
  obtain ⟨f, hf, ⟨step, rfl⟩, -⟩ :=
    (failsOnly_roomsAround hs hresolved hp hself).ok_or_error.resolve_left hnone
  have hroom : turn.seaRoom s t = .error (.fault (.overflow step)) := by
    unfold seaRoom
    rw [hf]
    rfl
  refine ⟨step, ?_⟩
  rw [check_eq_of_suits (h.suits hp ht), roomFor_of_water hwater, hroom]
  rfl

/-- The rules accept the legal placements, and no others. On a board that validation accepts and
whose numbers are within their words, a placement in a known territory is accepted in whatever turn,
as long as less is placed than a word of 63 bits can count, if and only if it breaks no rule: for a
sea zone, if any producer beside it has room. The one thing to be seen to is that the producers
beside the zone can be measured, all of them; else there is no answer. -/
theorem check_eq_ok_iff_legal (hs : s.Keyed) (hvalid : s.validate = .ok ()) (hw : s.Metered)
    (hp : s.player turn.player = .ok p) (ht : s.territory place = .ok t)
    (hplaced : turn.placed.values.flatten.length < wordValues 63) (ps : List Piece) :
    (turn.check s place ps = .ok () ↔
        turn.Legal s p t place ps ∧ (t.isWater = true → s.Measures p turn.player t)) ∧
      (turn.Legal s p t place ps → t.isWater = true → ¬s.Measures p turn.player t →
        ∃ step, turn.check s place ps = .error (.fault (.overflow step))) :=
  have hresolved : s.Resolved := Snapshot.validate_eq_ok_iff.mp hvalid
  ⟨check_eq_ok_iff_of_resolved hs hresolved hw hp ht hplaced ps,
    check_overflows hs hresolved hp ht⟩

/-- A port that makes two pieces has placed infantry. A destroyer beside it is legal then, and two
are not. -/
theorem check_eq_ok_iff_legal_separateSeas :
    let s := Samples.separateSeas
    let turn := PlaceTurn.record { player := Samples.red } Samples.redCapital
      [Samples.piece 20 Samples.infantry Samples.red]
    let ship := Samples.piece 21 Samples.destroyer Samples.red
    let other := Samples.piece 22 Samples.destroyer Samples.red
    s.Keyed ∧ s.validate = .ok () ∧ s.Metered ∧
      turn.placed.values.flatten.length < wordValues 63 ∧
      ∃ p t, s.player turn.player = .ok p ∧ s.territory Samples.westSea = .ok t ∧
        turn.Legal s p t Samples.westSea [ship] ∧ s.Measures p turn.player t ∧
        ¬turn.Legal s p t Samples.westSea [ship, other] := by
  intro s turn ship other
  have hkeyed : s.Keyed := by decide +kernel
  have hvalid : s.validate = .ok () := by decide +kernel
  have hmetered : s.Metered := by decide +kernel
  have hplaced : turn.placed.values.flatten.length < wordValues 63 := by decide +kernel
  have hone : turn.check s Samples.westSea [ship] = .ok () := by decide +kernel
  have htwo : turn.check s Samples.westSea [ship, other] ≠ .ok () := by decide +kernel
  obtain ⟨p, hp, -⟩ := Outcome.exists_of_toOption
    (show (s.player turn.player).toOption.map (fun _ => ()) = some () by decide +kernel)
  obtain ⟨t, ht, -⟩ := Outcome.exists_of_toOption
    (show (s.territory Samples.westSea).toOption.map (fun _ => ()) = some () by decide +kernel)
  have hwater : t.isWater = true := by
    have hsea : (s.territory Samples.westSea).toOption.map Territory.isWater = some true := by
      decide +kernel
    rw [ht] at hsea
    exact Option.some.inj hsea
  obtain ⟨hlegal, hmeasures⟩ :=
    (check_eq_ok_iff_legal hkeyed hvalid hmetered hp ht hplaced [ship]).1.mp hone
  refine ⟨hkeyed, hvalid, hmetered, hplaced, p, t, hp, ht, hlegal, hmeasures hwater, ?_⟩
  intro hboth
  exact htwo ((check_eq_ok_iff_legal hkeyed hvalid hmetered hp ht hplaced [ship, other]).1.mpr
    ⟨hboth, hmeasures⟩)

/-- The capital beside the sea has no bound, so a destroyer is legal. The province beside the same
sea cannot be measured, and the rules end in an overflow. -/
theorem check_overflows_vastProvince :
    let s := Samples.vastProvince
    let turn : PlaceTurn := { player := Samples.red }
    let ship := Samples.piece 20 Samples.destroyer Samples.red
    s.Keyed ∧ s.validate = .ok () ∧ s.Metered ∧
      ∃ p t, s.player turn.player = .ok p ∧ s.territory Samples.westSea = .ok t ∧
        turn.Legal s p t Samples.westSea [ship] ∧
        turn.check s Samples.westSea [ship] = .error (.fault (.overflow .addition)) := by
  intro s turn ship
  let zone := Samples.sea Samples.westSea "West Sea" [Samples.redCapital, Samples.redProvince]
  let capital := {
    Samples.port Samples.redCapital "Red Capital" 8 [Samples.westSea] [] with
    site := some { production := 8, originalFactory := true } }
  have hzone : s.territory Samples.westSea = .ok zone := rfl
  have hcapital : s.territory capital.id = .ok capital := rfl
  obtain ⟨p, hp, hrules⟩ : ∃ p, s.player Samples.red = .ok p ∧ p.rules = none := ⟨_, rfl, rfl⟩
  have hallowed : p.isPlacementBanned Samples.westSea = false := by
    unfold Player.isPlacementBanned
    rw [hrules]
    rfl
  have hworks : ∃ q ∈ capital.stack.pieces, q.owner = Samples.red ∧ q.isTransported = false ∧
      ∃ k, s.kind q.kind = .ok k ∧ k.isFactory = true ∧ k.isSea = false :=
    ⟨_, List.mem_singleton_self _, rfl, rfl, _, rfl, rfl, rfl⟩
  have hproduces : s.Produces p Samples.red capital := ⟨rfl, rfl, rfl, .inr hworks⟩
  have hcapacity : s.capacity capital.id Samples.red = .ok .unlimited := by decide +kernel
  obtain ⟨k, hk, hsea, hlimit⟩ :
      ∃ k, s.kind ship.kind = .ok k ∧ k.isSea = true ∧ k.buildLimit = .unlimited :=
    ⟨_, rfl, rfl, rfl⟩
  have hlegal : turn.Legal s p zone Samples.westSea [ship] := {
    nonempty := List.cons_ne_nil _ _
    pieces := List.forall_mem_singleton.mpr ⟨rfl, k, hk, hsea⟩
    unconquered := rfl
    allowed := hallowed
    land := nofun
    sea := fun _ => ⟨capital, .unlimited, hcapital, by decide +kernel, hproduces, hcapacity, rfl⟩
    ceilings := by
      refine List.forall_mem_singleton.mpr fun k' hk' => ?_
      obtain rfl : k = k' := Except.ok.inj (hk.symm.trans hk')
      rw [hlimit]
      exact ⟨nofun, nofun⟩ }
  exact ⟨by decide +kernel, by decide +kernel, by decide +kernel, p, zone, hp, hzone, hlegal,
    by decide +kernel⟩

end PlaceTurn

end Quartermaster
