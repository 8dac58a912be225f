import Mathlib.Data.List.Perm.Subperm
import Quartermaster.Proofs.Admission
import Quartermaster.Proofs.Frontier

/-!
# Placements only get harder

The more is placed already, the fewer placements the rules accept; and of what they accept, they
accept every part (`PlaceTurn.check_mono`). The rules look at kinds and owners only
(`Piece.sort`), so that two batches of one offer get the same answer.

For land the room that is left shrinks with what is placed. For a sea zone the widest room may be
another one; where less is placed, though, the room of the same neighbour is at least as wide, and
the widest is wider still. A room without limit is compared as if it were `Room.boundless` wide,
which is why what is placed has to stay below that.
-/

namespace Quartermaster

/-- What the rules see of a piece. -/
def Piece.sort (q : Piece) : KindId × PlayerId := (q.kind, q.owner)

/-- Pieces are, but for their numbers, among others. -/
def Piece.Among (ps qs : List Piece) : Prop := (ps.map Piece.sort).Subperm (qs.map Piece.sort)

namespace Piece.Among

variable {ps qs : List Piece}

theorem of_sublist (h : ps.Sublist qs) : Among ps qs := (h.map Piece.sort).subperm

theorem length_le (h : Among ps qs) : ps.length ≤ qs.length := by
  have hlength := List.Subperm.length_le h
  rwa [List.length_map, List.length_map] at hlength

theorem countP_le (h : Among ps qs) (t : KindId) :
    (ps.countP fun q => q.kind = t) ≤ qs.countP fun q => q.kind = t := by
  have hcount := List.Subperm.countP_le (fun e : KindId × PlayerId => decide (e.1 = t)) h
  rwa [List.countP_map, List.countP_map] at hcount

theorem exists_of_mem (h : Among ps qs) {q : Piece} (hq : q ∈ ps) :
    ∃ q' ∈ qs, q'.kind = q.kind ∧ q'.owner = q.owner := by
  obtain ⟨q', hq', hsort⟩ := List.mem_map.mp (h.subset (List.mem_map_of_mem hq))
  exact ⟨q', hq', congrArg Prod.fst hsort, congrArg Prod.snd hsort⟩

end Piece.Among

theorem Offer.map_sort_of_materialize {o : Offer} {source source' : PieceSource}
    {owner : PlayerId} {ps : List Piece} (h : o.materialize source owner = .ok (ps, source')) :
    ps.map Piece.sort = List.replicate o.quantity (o.kind, owner) := by
  refine List.eq_replicate_iff.mpr ⟨?_, ?_⟩
  · rw [List.length_map, length_of_materialize h]
  · intro e he
    obtain ⟨q, hq, rfl⟩ := List.mem_map.mp he
    obtain ⟨hkind, howner⟩ := kind_owner_of_materialize h hq
    exact Prod.ext hkind howner

/-- Batches of one offer differ in their numbers only. -/
theorem Offer.among_of_materialize {o : Offer} {source source' source₁ source₁' : PieceSource}
    {owner : PlayerId} {ps qs : List Piece} (hps : o.materialize source owner = .ok (ps, source'))
    (hqs : o.materialize source₁ owner = .ok (qs, source₁')) : Piece.Among ps qs := by
  unfold Piece.Among
  rw [map_sort_of_materialize hps, map_sort_of_materialize hqs]

variable {s : Snapshot} {player : PlayerId} {place : TerritoryId} {ps qs : List Piece}
  {t : Territory}

theorem Snapshot.Suits.among (h : s.Suits player place t qs) (hsome : ps ≠ [])
    (hamong : Piece.Among ps qs) : s.Suits player place t ps :=
  h.of_forall hsome fun _ hq => hamong.exists_of_mem hq

namespace PlaceTurn

/-- One turn has nowhere more placed than another, and no more of any kind. -/
structure Below (small large : PlaceTurn) : Prop where
  player : small.player = large.player
  placed : ∀ id, (small.placedIn id).length ≤ (large.placedIn id).length
  kinds : ∀ kind, small.placedOfKind kind ≤ large.placedOfKind kind

variable {small large : PlaceTurn} {room : Room} {m n : Nat}

theorem Below.usedBy_le (h : small.Below large) (t : Territory) :
    small.usedBy s t ≤ large.usedBy s t := by
  unfold usedBy
  apply Nat.add_le_add (h.placed t.id)
  generalize (t.neighbors.toList.filter fun id =>
    (s.territories.get? id).any Territory.isWater) = zones
  induction zones with
  | nil => exact Nat.le_refl 0
  | cons zone zones ih => exact Nat.add_le_add (h.placed zone) ih

theorem Below.landRoom (h : small.Below large) (hroom : large.landRoom s t place = .ok room)
    (hfits : room.fits n = true) (hmn : m ≤ n) :
    ∃ room', small.landRoom s t place = .ok room' ∧ room'.fits m = true := by
  obtain ⟨howned, c, hc, rfl⟩ := landRoom_eq_ok_iff.mp hroom
  rw [← h.player] at howned hc
  refine ⟨_, landRoom_eq_ok_iff.mpr ⟨howned, c, hc, rfl⟩, ?_⟩
  have hplaced := h.placed place
  rw [Room.fits_iff] at hfits ⊢
  exact Capacity.fits_mono hfits (by dsimp only; omega)

/-- What fits a room fits it too where less of it is used, and then there is so much left. -/
theorem le_left_of_fits {c : Capacity} {used used' : Nat} (hfits : (⟨c, used⟩ : Room).fits n = true)
    (hused : used' ≤ used) (hmn : m ≤ n) (hbound : used' + m ≤ Room.boundless) :
    m ≤ (⟨c, used'⟩ : Room).left := by
  rw [Room.fits_iff] at hfits
  unfold Room.left
  cases c with
  | limited limit =>
    have hlimit : used + n ≤ limit := of_decide_eq_true hfits
    show m ≤ limit - used'
    omega
  | unlimited =>
    show m ≤ Room.boundless - used'
    omega

theorem Below.seaRoom (h : small.Below large) (hroom : large.seaRoom s t = .ok room)
    (hfits : room.fits n = true) (hm : 0 < m) (hmn : m ≤ n)
    (hbound : ∀ t, small.usedBy s t + m ≤ Room.boundless) :
    ∃ room', small.seaRoom s t = .ok room' ∧ room'.fits m = true := by
  obtain ⟨rooms, hrooms, hwidest⟩ := seaRoom_eq_ok_iff.mp hroom
  obtain ⟨around, haround, feeder, hfeeder, c, hfeeds, rfl⟩ :=
    (mem_roomsAround_iff hrooms).mp (Room.widest?_eq_some hwidest).1
  obtain ⟨rooms', hrooms'⟩ := roomsAround_of_player_eq hrooms small h.player
  -- the neighbour that had room with more placed has room now, and the widest room is no narrower
  have hmem : ⟨c, small.usedBy s feeder⟩ ∈ rooms' :=
    (mem_roomsAround_iff hrooms').mpr
      ⟨around, haround, feeder, hfeeder, c, h.player ▸ hfeeds, rfl⟩
  have hleft : m ≤ (⟨c, small.usedBy s feeder⟩ : Room).left :=
    le_left_of_fits hfits (h.usedBy_le feeder) hmn (hbound feeder)
  cases hwidest' : Room.widest? rooms' with
  | none =>
    rw [Room.widest?_eq_none_iff.mp hwidest'] at hmem
    cases hmem
  | some room' =>
    have hwider := (Room.widest?_eq_some hwidest').2 _ hmem
    exact ⟨room', seaRoom_eq_ok_iff.mpr ⟨rooms', hrooms', hwidest'⟩,
      Room.fits_of_le_left hm (Nat.le_trans hleft hwider)⟩

theorem Below.roomFor (h : small.Below large) (hroom : large.roomFor s t place = .ok room)
    (hfits : room.fits n = true) (hm : 0 < m) (hmn : m ≤ n)
    (hbound : ∀ t, small.usedBy s t + m ≤ Room.boundless) :
    ∃ room', small.roomFor s t place = .ok room' ∧ room'.fits m = true := by
  cases hwater : t.isWater with
  | true =>
    rw [roomFor_of_water hwater] at hroom ⊢
    exact h.seaRoom hroom hfits hm hmn hbound
  | false =>
    rw [roomFor_of_land hwater] at hroom ⊢
    exact h.landRoom hroom hfits hmn

theorem Below.checkLimit (h : small.Below large) {kind : KindId}
    (hlimit : large.checkLimit s kind n = .ok ()) (hmn : m ≤ n) :
    small.checkLimit s kind m = .ok () := by
  rw [checkLimit_eq_ok_iff] at hlimit ⊢
  obtain ⟨k, hk, hroom⟩ := hlimit
  refine ⟨k, hk, ?_⟩
  have hplaced := h.kinds kind
  rw [h.player]
  cases hbuild : k.buildLimit with
  | unlimited => trivial
  | forbidden =>
    rw [hbuild] at hroom
    exact hroom
  | atMost limit =>
    rw [hbuild] at hroom
    dsimp only at hroom ⊢
    omega

/-- What the rules accept they accept in part, and where less is placed. -/
theorem check_mono (h : small.Below large) (hsome : ps ≠ []) (hamong : Piece.Among ps qs)
    (hbound : ∀ t, small.usedBy s t + ps.length ≤ Room.boundless)
    (hcheck : large.check s place qs = .ok ()) : small.check s place ps = .ok () := by
  obtain ⟨t, hsuits, room, hroom, hfits, hlimits⟩ := check_eq_ok_iff.mp hcheck
  have hpos : 0 < ps.length := List.length_pos_iff.mpr hsome
  obtain ⟨room', hroom', hfits'⟩ := h.roomFor hroom hfits hpos hamong.length_le hbound
  rw [← h.player] at hsuits
  refine check_eq_ok_iff.mpr ⟨t, hsuits.among hsome hamong, room', hroom', hfits', ?_⟩
  rw [checkLimits_countBy_iff] at hlimits ⊢
  intro kind hkind
  have hcount := hamong.countP_le kind
  exact h.checkLimit (hlimits kind (Nat.lt_of_lt_of_le hkind hcount)) hcount

/-! ## Questions about one place -/

/-- The turn that an arbiter asks about: only this place has anything placed. -/
theorem placedIn_withPlaced (player : PlayerId) (place other : TerritoryId) (ps : List Piece) :
    (withPlaced { player } place ps).placedIn other = if other = place then ps else [] := by
  unfold withPlaced
  by_cases hempty : ps.isEmpty = true
  · rw [if_pos hempty, List.isEmpty_iff.mp hempty, ite_self]
    rfl
  · rw [if_neg hempty, placedIn_record]
    rfl

theorem placedOfKind_withPlaced (player : PlayerId) (place : TerritoryId) (ps : List Piece)
    (kind : KindId) :
    (withPlaced { player } place ps).placedOfKind kind = ps.countP fun q => q.kind = kind := by
  unfold withPlaced
  by_cases hempty : ps.isEmpty = true
  · rw [if_pos hempty, List.isEmpty_iff.mp hempty]
    rfl
  · rw [if_neg hempty, placedOfKind_record]
    exact Nat.zero_add _

theorem below_withPlaced (player : PlayerId) (place : TerritoryId) (h : Piece.Among ps qs) :
    (withPlaced { player } place ps).Below (withPlaced { player } place qs) where
  player := by rw [player_withPlaced, player_withPlaced]
  placed id := by
    rw [placedIn_withPlaced, placedIn_withPlaced]
    split
    · exact h.length_le
    · exact Nat.le_refl 0
  kinds kind := by
    rw [placedOfKind_withPlaced, placedOfKind_withPlaced]
    exact h.countP_le kind

/-- A neighbour counts what is placed in one place at most twice: as its own, and as that of a
zone beside it. -/
theorem usedBy_withPlaced_le (player : PlayerId) (place : TerritoryId) (ps : List Piece)
    (t : Territory) : (withPlaced { player } place ps).usedBy s t ≤ 2 * ps.length := by
  have hown : ((withPlaced { player } place ps).placedIn t.id).length ≤ ps.length := by
    rw [placedIn_withPlaced]
    split
    · exact Nat.le_refl _
    · exact Nat.zero_le _
  have hbeside : ∀ zones : List TerritoryId, zones.Nodup →
      (zones.map fun id => ((withPlaced { player } place ps).placedIn id).length).foldr
        (· + ·) 0 ≤ if place ∈ zones then ps.length else 0 := by
    intro zones hzones
    induction zones with
    | nil => exact Nat.le_refl 0
    | cons zone zones ih =>
      obtain ⟨hfresh, hrest⟩ := List.nodup_cons.mp hzones
      have hsum := ih hrest
      rw [List.map_cons, List.foldr_cons, placedIn_withPlaced]
      by_cases hzone : zone = place
      · subst hzone
        rw [if_neg hfresh] at hsum
        rw [if_pos rfl, if_pos (List.mem_cons_self ..)]
        omega
      · have hmem : place ∈ zone :: zones ↔ place ∈ zones := by
          simp [Ne.symm hzone]
        simp only [hmem, if_neg hzone, List.length_nil, Nat.zero_add]
        exact hsum
  have hzones := hbeside _ (t.neighbors.nodup_keys.filter fun id =>
    (s.territories.get? id).any Territory.isWater)
  have hle : (if place ∈ t.neighbors.keys.filter fun id =>
      (s.territories.get? id).any Territory.isWater then ps.length else 0) ≤ ps.length := by
    split
    · exact Nat.le_refl _
    · exact Nat.zero_le _
  have htotal := Nat.add_le_add hown (Nat.le_trans hzones hle)
  rw [Nat.two_mul]
  exact htotal

end PlaceTurn

/-- What an arbiter that knows the rules permits, it permits in part, and where less waits. -/
theorem Arbiter.permits_mono {already already' : List Piece}
    (halready : Piece.Among already already') (hsome : ps ≠ []) (hamong : Piece.Among ps qs)
    (hbound : 2 * already.length + ps.length ≤ Room.boundless)
    (h : (ofRules s).permits place qs player already' = .ok true) :
    (ofRules s).permits place ps player already = .ok true := by
  rw [permits_eq_true_iff] at h ⊢
  refine PlaceTurn.check_mono (PlaceTurn.below_withPlaced player place halready) hsome hamong ?_ h
  intro t
  have hused := PlaceTurn.usedBy_withPlaced_le (s := s) player place already t
  omega

end Quartermaster
