import Quartermaster.Proofs.Admission
import Quartermaster.Proofs.Ceiling
import Quartermaster.Proofs.Output

/-!
# Turns of placing

A turn as its player makes it, one call after the other, some of them refused. A refused call
leaves the turn as it was, and an accepted one was measured against all that was placed before. So
at any time each place can hold what lies in it (`Snapshot.Accommodates`), and all that is placed
is within the ceilings: the turn is `Lawful`.

The producer that feeds a sea zone is chosen anew with every call. That does no harm: whichever is
chosen counts the whole zone as used, so that it could have made all that lies there by itself.
-/

namespace Quartermaster

variable {s : Snapshot} {player : PlayerId} {place : TerritoryId} {t z : Territory}
  {ps qs : List Piece} {turn : PlaceTurn}

/-! ## What a place can hold -/

namespace Snapshot

/-- Some producer beside a sea zone can make so many pieces by itself. -/
def Supplied (s : Snapshot) (player : PlayerId) (z : Territory) (n : Nat) : Prop :=
  ∃ t c, s.territory t.id = .ok t ∧ z.isAdjacentTo t.id = true ∧ s.Feeds player t c ∧
    c.fits n = true

/-- A place can hold pieces: they suit it, land can make them, and if it is a sea zone a producer
beside it can. -/
structure Accommodates (s : Snapshot) (player : PlayerId) (place : TerritoryId)
    (ps : List Piece) : Prop where
  takes : s.Takes player place ps
  land : ∀ t c, s.territory place = .ok t → t.isWater = false →
    s.capacity place player = .ok c → c.fits ps.length = true
  sea : s.Mutual → ∀ z, s.territory place = .ok z → z.isWater = true →
    s.Supplied player z ps.length

theorem Accommodates.perm (h : s.Accommodates player place ps) (hperm : ps.Perm qs) :
    s.Accommodates player place qs := by
  obtain ⟨htakes, hland, hsea⟩ := h
  rw [hperm.length_eq] at hland hsea
  exact ⟨htakes.perm hperm, hland, hsea⟩

end Snapshot

namespace PlaceTurn

/-- A territory counts all that lies in a zone beside it as used. -/
theorem placedIn_le_usedBy (turn : PlaceTurn) (hzone : place ∈ s.zonesBeside t) :
    (turn.placedIn place).length ≤ turn.usedBy s t := by
  have hsum : ∀ zones : List TerritoryId, place ∈ zones → (turn.placedIn place).length ≤
      (zones.map fun zone => (turn.placedIn zone).length).foldr (· + ·) 0 := by
    intro zones hmem
    induction zones with
    | nil => cases hmem
    | cons zone zones ih =>
      rw [List.map_cons, List.foldr_cons]
      rcases List.mem_cons.mp hmem with rfl | hrest
      · exact Nat.le_add_right _ _
      · exact Nat.le_trans (ih hrest) (Nat.le_add_left _ _)
  rw [usedBy_eq_add]
  exact Nat.le_trans (hsum _ hzone) (Nat.le_add_left _ _)

/-- What is accepted for a zone can be made, with all that lies there, by one producer. -/
theorem supplied_of_check (hs : s.Keyed) (hm : s.Mutual) (h : turn.check s place ps = .ok ())
    (hz : s.territory place = .ok z) (hwater : z.isWater = true) :
    s.Supplied turn.player z ((turn.placedIn place).length + ps.length) := by
  obtain ⟨t, c, ht, hbeside, hfeeds, hfits⟩ := exists_feeder_of_check hs h hz hwater
  have hzone : place ∈ s.zonesBeside t :=
    Snapshot.mem_zonesBeside_iff.mpr ⟨hm.symm hz ht hbeside, z, hz, hwater⟩
  have hused : (turn.placedIn place).length ≤ turn.usedBy s t := turn.placedIn_le_usedBy hzone
  exact ⟨t, c, ht, hbeside, hfeeds, Capacity.fits_mono hfits (by omega)⟩

/-- A place that takes what lies in it can hold what is accepted for it as well. -/
theorem accommodates_of_check (hs : s.Keyed) (h : turn.check s place ps = .ok ())
    (hold : turn.placedIn place ≠ [] → s.Takes turn.player place (turn.placedIn place)) :
    s.Accommodates turn.player place (turn.placedIn place ++ ps) := by
  have hps : s.Takes turn.player place ps := takes_of_check h
  refine ⟨?_, ?_, ?_⟩
  · by_cases hempty : turn.placedIn place = []
    · rw [hempty, List.nil_append]
      exact hps
    · exact (hold hempty).append hps
  · intro t c ht hland hc
    rw [List.length_append]
    exact fits_of_check_land h ht hland hc
  · intro hm z hz hwater
    rw [List.length_append]
    exact supplied_of_check hs hm h hz hwater

/-! ## Lawful turns -/

/-- Every place can hold what lies in it, and all that is placed is within the ceilings. -/
structure Lawful (s : Snapshot) (turn : PlaceTurn) : Prop where
  places : ∀ place, turn.placedIn place ≠ [] →
    s.Accommodates turn.player place (turn.placedIn place)
  ceilings : s.WithinCeilings turn.player turn.placed.values.flatten

theorem placedOfKind_eq (turn : PlaceTurn) (kind : KindId) :
    turn.placedOfKind kind = turn.placed.values.flatten.countP fun q => q.kind = kind := by
  unfold placedOfKind
  simp only [beq_eq_decide]

theorem lawful_empty (s : Snapshot) (player : PlayerId) : Lawful s { player } where
  places _ h := absurd rfl h
  ceilings := s.withinCeilings_nil player

/-- What the rules accept keeps a turn lawful. -/
theorem Lawful.record (h : turn.Lawful s) (hs : s.Keyed) (hcheck : turn.check s place ps = .ok ()) :
    (turn.record place ps).Lawful s := by
  constructor
  · intro other hother
    rw [placedIn_record] at hother ⊢
    by_cases hplace : other = place
    · subst hplace
      rw [if_pos rfl]
      exact accommodates_of_check hs hcheck fun hsome => (h.places other hsome).takes
    · rw [if_neg hplace, List.append_nil] at hother ⊢
      exact h.places other hother
  · obtain ⟨-, -, room, -, -, hlimits⟩ := check_eq_ok_iff.mp hcheck
    have hwithin : s.WithinCeilings turn.player (turn.placed.values.flatten ++ ps) :=
      h.ceilings.of_checkLimits turn.placedOfKind_eq hlimits
    refine hwithin.of_countP_le fun kind => Nat.le_of_eq ?_
    rw [← placedOfKind_eq, placedOfKind_record, List.countP_append, placedOfKind_eq]

/-! ## Calls, refused or not -/

/-- What a turn is after a call to place pieces. A refused call leaves it as it was. -/
def attempt (s : Snapshot) (turn : PlaceTurn) (place : TerritoryId) (ps : List Piece) :
    PlaceTurn :=
  match turn.place s place ps with
  | .ok turn' => turn'
  | .error _ => turn

/-- What a turn is after calls made one after the other. -/
def attemptAll (s : Snapshot) (turn : PlaceTurn) (calls : List (TerritoryId × List Piece)) :
    PlaceTurn :=
  calls.foldl (fun turn call => turn.attempt s call.1 call.2) turn

theorem attemptAll_snoc (s : Snapshot) (turn : PlaceTurn)
    (calls : List (TerritoryId × List Piece)) (call : TerritoryId × List Piece) :
    turn.attemptAll s (calls ++ [call]) = (turn.attemptAll s calls).attempt s call.1 call.2 := by
  unfold attemptAll
  rw [List.foldl_append]
  rfl

theorem player_attempt (s : Snapshot) (turn : PlaceTurn) (place : TerritoryId)
    (ps : List Piece) : (turn.attempt s place ps).player = turn.player := by
  unfold attempt
  cases hplace : turn.place s place ps with
  | error refusal => rfl
  | ok turn' =>
    obtain ⟨-, rfl⟩ := place_eq_ok_iff.mp hplace
    rfl

theorem player_attemptAll (s : Snapshot) (turn : PlaceTurn)
    (calls : List (TerritoryId × List Piece)) :
    (turn.attemptAll s calls).player = turn.player := by
  induction calls using List.reverseRecOn with
  | nil => rfl
  | append_singleton calls call ih => rw [attemptAll_snoc, player_attempt, ih]

theorem Lawful.attempt (h : turn.Lawful s) (hs : s.Keyed) (place : TerritoryId)
    (ps : List Piece) : (turn.attempt s place ps).Lawful s := by
  unfold PlaceTurn.attempt
  cases hplace : turn.place s place ps with
  | error refusal => exact h
  | ok turn' =>
    obtain ⟨hcheck, rfl⟩ := place_eq_ok_iff.mp hplace
    exact h.record hs hcheck

/-- However a turn is played, it stays lawful. -/
theorem lawful_attemptAll (hs : s.Keyed) (player : PlayerId)
    (calls : List (TerritoryId × List Piece)) : (attemptAll s { player } calls).Lawful s := by
  induction calls using List.reverseRecOn with
  | nil => exact lawful_empty s player
  | append_singleton calls call ih =>
    rw [attemptAll_snoc]
    exact ih.attempt hs call.1 call.2

/-- What holds at any time in a turn, whatever was called for and whatever was refused. Every piece
is the player's, of the domain of its place, and lies neither where placement is barred nor on land
that is not the player's. No land holds more than its capacity. Of a forbidden kind nothing is
placed; of a kind with a ceiling, if anything is, what the player has on the board and what is
placed anywhere are within it. And where adjacency goes both ways, what lies in a sea zone fits the
capacity of some producer beside it. -/
theorem attemptAll_keeps_rules (hs : s.Keyed) {calls : List (TerritoryId × List Piece)}
    (h : attemptAll s { player } calls = turn) :
    (∀ place, ∀ q ∈ turn.placedIn place, q.owner = player ∧
      ∃ t p k, s.territory place = .ok t ∧ s.player player = .ok p ∧ s.kind q.kind = .ok k ∧
        k.isSea = t.isWater ∧ t.conqueredThisTurn = false ∧ p.isPlacementBanned place = false ∧
        (t.isWater = false → t.isOwnedBy player = true)) ∧
    (∀ place t n, s.territory place = .ok t → t.isWater = false →
      s.capacity place player = .ok (.limited n) → (turn.placedIn place).length ≤ n) ∧
    (∀ kind k, s.kind kind = .ok k →
      (k.buildLimit = .forbidden → turn.placedOfKind kind = 0) ∧
      ∀ limit, k.buildLimit = .atMost limit → 0 < turn.placedOfKind kind →
        s.countOwned player kind + turn.placedOfKind kind ≤ limit) ∧
    (s.Mutual → ∀ place z, s.territory place = .ok z → z.isWater = true →
      turn.placedIn place ≠ [] →
      ∃ t c, s.territory t.id = .ok t ∧ z.isAdjacentTo t.id = true ∧
        s.isProducer t player = .ok true ∧ s.capacity t.id player = .ok c ∧
        c.fits (turn.placedIn place).length = true) := by
  obtain ⟨hplaces, hceilings⟩ : turn.Lawful s := h ▸ lawful_attemptAll hs player calls
  have hplayer : turn.player = player := h ▸ player_attemptAll s { player } calls
  rw [hplayer] at hplaces hceilings
  refine ⟨?_, ?_, ?_, ?_⟩
  · intro place q hq
    have htakes : s.Takes player place (turn.placedIn place) :=
      (hplaces place (List.ne_nil_of_mem hq)).takes
    obtain ⟨t, hsuits, -⟩ := id htakes
    obtain ⟨howner, k, hk, hdomain⟩ := hsuits.pieces q hq
    obtain ⟨p, hp, hallowed⟩ := hsuits.allowed
    exact ⟨howner, t, p, k, hsuits.territory, hp, hk, hdomain, hsuits.unconquered, hallowed,
      htakes.isOwnedBy hsuits.territory⟩
  · intro place t n ht hland hc
    by_cases hempty : turn.placedIn place = []
    · rw [hempty]
      exact Nat.zero_le n
    · exact of_decide_eq_true ((hplaces place hempty).land t _ ht hland hc)
  · intro kind k hk
    rw [placedOfKind_eq]
    exact hceilings.of_kind hk
  · intro hm place z hz hwater hsome
    obtain ⟨t, c, ht, hbeside, ⟨hproduces, hc⟩, hfits⟩ := (hplaces place hsome).sea hm z hz hwater
    exact ⟨t, c, ht, hbeside, hproduces, hc, hfits⟩

/-- Two ports make two pieces each, and of infantry three are allowed with one on the board. Of
five calls two are refused, one for the ceiling and one for want of room. -/
theorem attemptAll_keeps_rules_separateSeas :
    let s := Samples.separateSeas
    let infantry (number : Nat) := Samples.piece number Samples.infantry Samples.red
    let ship (number : Nat) := Samples.piece number Samples.destroyer Samples.red
    let calls := [(Samples.redCapital, [infantry 20]),
      (Samples.redProvince, [infantry 21, infantry 22]), (Samples.redProvince, [infantry 23]),
      (Samples.westSea, [ship 24]), (Samples.westSea, [ship 25])]
    s.Keyed ∧ s.Mutual ∧ ∃ turn, attemptAll s { player := Samples.red } calls = turn ∧
      turn.placedOfKind Samples.infantry = 2 ∧
      s.countOwned Samples.red Samples.infantry + 2 ≤ 3 ∧
      (turn.placedIn Samples.westSea).length = 1 ∧
      ∃ z t c, s.territory Samples.westSea = .ok z ∧ s.territory t.id = .ok t ∧
        z.isAdjacentTo t.id = true ∧ s.isProducer t Samples.red = .ok true ∧
        s.capacity t.id Samples.red = .ok c ∧ c.fits 1 = true := by
  intro s infantry ship calls
  have hkeyed : s.Keyed := by decide +kernel
  have hmutual : s.Mutual := by decide +kernel
  obtain ⟨-, -, hceilings, hsea⟩ := attemptAll_keeps_rules hkeyed
    (rfl : attemptAll s { player := Samples.red } calls = _)
  have hkinds : (attemptAll s { player := Samples.red } calls).placedOfKind Samples.infantry = 2 :=
    by decide +kernel
  have hships : ((attemptAll s { player := Samples.red } calls).placedIn
      Samples.westSea).length = 1 := by decide +kernel
  obtain ⟨k, hk, hlimit⟩ := Outcome.exists_of_toOption
    (show (s.kind Samples.infantry).toOption.map PieceKind.buildLimit = some (.atMost 3) by
      decide +kernel)
  obtain ⟨z, hz, hwater⟩ := Outcome.exists_of_toOption
    (show (s.territory Samples.westSea).toOption.map Territory.isWater = some true by
      decide +kernel)
  have hceiling := (hceilings Samples.infantry k hk).2 3 hlimit (by rw [hkinds]; decide)
  rw [hkinds] at hceiling
  obtain ⟨t, c, ht, hbeside, hproduces, hc, hfits⟩ := hsea hmutual Samples.westSea z hz hwater
    (List.ne_nil_of_length_eq_add_one hships)
  rw [hships] at hfits
  exact ⟨hkeyed, hmutual, _, rfl, hkinds, hceiling, hships, z, t, c, hz, ht, hbeside, hproduces,
    hc, hfits⟩

end PlaceTurn

end Quartermaster
