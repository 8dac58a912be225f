import Mathlib.Data.List.Forall2
import Mathlib.Data.List.Nodup
import Quartermaster.MoveOptions
import Quartermaster.Proofs.Board
import Quartermaster.Proofs.Outcome
import Quartermaster.Samples

/-!
# Where recruits can go

A recruit is a piece that waits in a place of a yard. Move options are entered recruit by recruit,
in the order of the queues, into three tables by number and one list. What they tell of the recruits
entered so far is `Describes`: of each its destinations, of each transport at sea these again and
the shores that it could load from, of each ship that bombards the shores that it could shell, if
there are any. Each recruit adds its own part (`Describes.addPiece`), so that in the end the options
describe every queue exactly (`ofYards_describes`).

Entries go by number, and a later one would take the place of an earlier one; so no two recruits
may have one number.
-/

namespace Quartermaster

theorem SortedSet.isEmpty_eq_false_iff {κ : Type} [Key κ] {ks : SortedSet κ} :
    ks.isEmpty = false ↔ ∃ k, k ∈ ks.toList := by
  unfold SortedMap.isEmpty SortedSet.toList SortedMap.keys
  rw [List.isEmpty_eq_false_iff_exists_mem]
  simp only [List.mem_map]
  exact ⟨fun ⟨e, he⟩ => ⟨e.1, e, he, rfl⟩, fun ⟨_, e, he, _⟩ => ⟨e, he⟩⟩

/-! ## Recruits -/

/-- A piece that waits to be placed, with the territory that it waits for. -/
structure Recruit where
  place : TerritoryId
  piece : Piece
deriving DecidableEq, Repr

def Place.recruits (p : Place) : List Recruit := p.queue.map fun q => ⟨p.territory, q⟩

/-- Every piece that waits, by yard and place. -/
def Yards.recruits (ys : Yards) : List Recruit :=
  (ys.values.flatMap Yard.places).flatMap Place.recruits

theorem Yards.map_piece_recruits (ys : Yards) : ys.recruits.map Recruit.piece = ys.queued := by
  have hplace : ∀ p : Place, p.recruits.map Recruit.piece = p.queue := by
    intro p
    unfold Place.recruits
    rw [List.map_map]
    exact List.map_id _
  unfold recruits queued
  rw [List.map_flatMap, List.flatMap_assoc]
  simp only [hplace]
  rfl

/-! ## The ways that are open -/

/-- Which territories a domain can go into. -/
inductive Domain.Enters : Domain → Territory → Prop
  | land {t : Territory} (hdry : t.isWater = false) (hopen : t.isImpassable = false) :
      Enters .land t
  | sea {t : Territory} (hwater : t.isWater = true) : Enters .sea t
  | air {t : Territory} (hopen : t.isImpassable = false) : Enters .air t

theorem Domain.canEnter_iff {d : Domain} {t : Territory} : d.canEnter t = true ↔ d.Enters t := by
  cases d with
  | land =>
    unfold canEnter
    rw [Bool.and_eq_true, Bool.not_eq_true', Bool.not_eq_true']
    exact ⟨fun ⟨hdry, hopen⟩ => .land hdry hopen, fun | .land hdry hopen => ⟨hdry, hopen⟩⟩
  | sea => exact ⟨.sea, fun | .sea hwater => hwater⟩
  | air =>
    unfold canEnter
    rw [Bool.not_eq_true']
    exact ⟨.air, fun | .air hopen => hopen⟩

/-- Whether pieces of the kind are transports. -/
def PieceKind.carries (k : PieceKind) : Bool := decide (0 < k.transportCapacity)

namespace Snapshot

variable (s : Snapshot) (player : PlayerId) (r : Recruit)

/-- The board has a territory among the neighbours of another. -/
def Beside (here : TerritoryId) (n : Territory) : Prop :=
  ∃ t id, s.territory here = .ok t ∧ t.isAdjacentTo id = true ∧ s.territory id = .ok n

/-- A recruit can go to a territory: it is there, or it is beside, and its domain enters it. -/
def Reaches (d : TerritoryId) : Prop :=
  d = r.place ∨
    ∃ n k, s.Beside r.place n ∧ n.id = d ∧ s.kind r.piece.kind = .ok k ∧ k.domain.Enters n

/-- Whether a recruit waits in water and its kind passes a test. -/
def sails (test : PieceKind → Bool) : Bool :=
  (s.territory r.place).toOption.any Territory.isWater && (s.kind r.piece.kind).toOption.any test

/-- A recruit could load from a territory: land beside it of the player or an ally. -/
def LoadsFrom (d : TerritoryId) : Prop :=
  ∃ n owner, s.Beside r.place n ∧ n.id = d ∧ n.isWater = false ∧ n.owner = some owner ∧
    s.areAllied owner player = true

/-- A recruit could shell a territory: land beside it of someone hostile. -/
def Shells (d : TerritoryId) : Prop :=
  ∃ n owner, s.Beside r.place n ∧ n.id = d ∧ n.isWater = false ∧ n.owner = some owner ∧
    s.areAllied owner player = false

variable {s player r}

theorem sails_eq {test : PieceKind → Bool} {t : Territory} {k : PieceKind}
    (ht : s.territory r.place = .ok t) (hk : s.kind r.piece.kind = .ok k) :
    s.sails r test = (t.isWater && test k) := by
  unfold sails
  rw [ht, hk]
  rfl

theorem beside_iff_mem {here : TerritoryId} {around : List Territory} {n : Territory}
    (h : s.neighbors here = .ok around) : s.Beside here n ↔ n ∈ around := by
  obtain ⟨t, ht, rfl⟩ := neighbors_eq_ok_iff.mp h
  unfold Beside known
  simp only [List.mem_filterMap, Territory.isAdjacentTo_iff, territory_eq_ok_iff]
  rw [territory_eq_ok_iff] at ht
  constructor
  · rintro ⟨t', id, ht', hid, hn⟩
    rw [ht, Option.some.injEq] at ht'
    subst ht'
    exact ⟨id, hid, hn⟩
  · rintro ⟨id, hid, hn⟩
    exact ⟨t, id, ht, hid, hn⟩

end Snapshot

/-! ## Tables -/

/-- A table tells of exactly the recruits of one sort, and of each of them where it `goes`. -/
structure Tells (table : SortedMap PieceId (SortedSet TerritoryId)) (rs : List Recruit)
    (sort : Recruit → Prop) (goes : Recruit → TerritoryId → Prop) : Prop where
  keys : ∀ id, id ∈ table.keys ↔ ∃ r ∈ rs, sort r ∧ r.piece.id = id
  sets : ∀ r ∈ rs, ∀ ds, table.get? r.piece.id = some ds → ∀ d, d ∈ ds.toList ↔ goes r d

namespace Tells

variable {table : SortedMap PieceId (SortedSet TerritoryId)} {rs : List Recruit} {r : Recruit}
  {sort : Recruit → Prop} {goes : Recruit → TerritoryId → Prop}

theorem nil (sort : Recruit → Prop) (goes : Recruit → TerritoryId → Prop) :
    Tells .empty [] sort goes where
  keys _ := iff_of_false List.not_mem_nil fun ⟨_, hr, _⟩ => absurd hr List.not_mem_nil
  sets _ hr := absurd hr List.not_mem_nil

/-- Every entry is that of a recruit. -/
theorem exists_of_get? (h : Tells table rs sort goes) {id : PieceId} {ds : SortedSet TerritoryId}
    (hget : table.get? id = some ds) :
    ∃ r ∈ rs, sort r ∧ r.piece.id = id ∧ ∀ d, d ∈ ds.toList ↔ goes r d := by
  obtain ⟨r, hr, hsort, hid⟩ := (h.keys id).mp (SortedMap.mem_keys_iff.mpr ⟨ds, hget⟩)
  subst hid
  exact ⟨r, hr, hsort, rfl, h.sets r hr ds hget⟩

/-- A recruit of the sort, with a number of its own, is told of by its entry. -/
theorem insert (h : Tells table rs sort goes) (hfresh : ∀ r' ∈ rs, r'.piece.id ≠ r.piece.id)
    (hsort : sort r) {ds : SortedSet TerritoryId} (hds : ∀ d, d ∈ ds.toList ↔ goes r d) :
    Tells (table.insert r.piece.id ds) (rs ++ [r]) sort goes where
  keys id := by
    rw [SortedMap.mem_keys_insert_iff, h.keys]
    simp only [List.mem_append, List.mem_singleton, or_and_right, exists_or, exists_eq_left]
    rw [or_comm, and_iff_right hsort, eq_comm]
  sets r' hr' ds' hget := by
    rcases List.mem_append.mp hr' with hold | hnew
    · rw [SortedMap.get?_insert_of_ne _ _ (hfresh r' hold)] at hget
      exact h.sets r' hold ds' hget
    · rw [List.mem_singleton] at hnew
      subst hnew
      rw [SortedMap.get?_insert_self, Option.some.injEq] at hget
      subst hget
      exact hds

/-- A recruit of another sort leaves the table as it is. -/
theorem skip (h : Tells table rs sort goes) (hfresh : ∀ r' ∈ rs, r'.piece.id ≠ r.piece.id)
    (hsort : ¬sort r) : Tells table (rs ++ [r]) sort goes where
  keys id := by
    rw [h.keys]
    simp only [List.mem_append, List.mem_singleton, or_and_right, exists_or, exists_eq_left]
    exact (or_iff_left fun hr => hsort hr.1).symm
  sets r' hr' ds hget := by
    rcases List.mem_append.mp hr' with hold | hnew
    · exact h.sets r' hold ds hget
    · rw [List.mem_singleton] at hnew
      subst hnew
      obtain ⟨r₀, hr₀, -, hid⟩ := (h.keys _).mp (SortedMap.mem_keys_iff.mpr ⟨ds, hget⟩)
      exact absurd hid (hfresh r₀ hr₀)

end Tells

namespace MoveOptions

variable {s : Snapshot} {player : PlayerId} {place : Place} {around : List Territory}
  {t : Territory} {p : Piece} {k : PieceKind} {ps : List Piece} {rs : List Recruit} {yards : Yards}
  {m m' : MoveOptions} {d : TerritoryId}

/-! ## What is told -/

/-- What the entry of a transport tells of it. -/
structure Serves (s : Snapshot) (player : PlayerId) (r : Recruit) (o : TransportOption) : Prop where
  transport : o.transport = r.piece.id
  seaZone : o.seaZone = r.place
  loadFrom : ∀ d, d ∈ o.loadFrom.toList ↔ s.LoadsFrom player r d

/-- Move options tell of some recruits, in their order, where each can go, what each transport at
sea can load from, and what each ship can shell. -/
structure Describes (s : Snapshot) (player : PlayerId) (yards : Yards) (rs : List Recruit)
    (m : MoveOptions) : Prop where
  yards : m.yards = yards
  moves : Tells m.moves rs (fun _ => True) s.Reaches
  transportMoves : Tells m.transportMoves rs (fun r => s.sails r PieceKind.carries = true) s.Reaches
  transports : List.Forall₂ (Serves s player) (rs.filter fun r => s.sails r PieceKind.carries)
    m.transports
  bombardments : Tells m.bombardments rs
    (fun r => s.sails r PieceKind.canBombard = true ∧ ∃ d, s.Shells player r d) (s.Shells player)

/-- Every set of destinations is that of a recruit. -/
theorem Describes.exists_of_get? (h : Describes s player yards rs m) {id : PieceId}
    {ds : SortedSet TerritoryId}
    (hget : m.moves.get? id = some ds ∨ m.transportMoves.get? id = some ds) :
    ∃ r ∈ rs, r.piece.id = id ∧ ∀ d, d ∈ ds.toList ↔ s.Reaches r d := by
  rcases hget with hget | hget
  · obtain ⟨r, hr, -, hrest⟩ := h.moves.exists_of_get? hget
    exact ⟨r, hr, hrest⟩
  · obtain ⟨r, hr, -, hrest⟩ := h.transportMoves.exists_of_get? hget
    exact ⟨r, hr, hrest⟩

/-! ## One recruit -/

/-- The territories that a piece of a kind can go to from a place. -/
def destinations (place : Place) (around : List Territory) (k : PieceKind) :
    SortedSet TerritoryId :=
  (idsWhere around k.domain.canEnter).insert place.territory ()

/-- The shores that a transport could load from. -/
def friendlyShores (s : Snapshot) (player : PlayerId) (around : List Territory) :
    SortedSet TerritoryId :=
  idsWhere around fun n => !n.isWater && n.owner.any fun owner => s.areAllied owner player

/-- The shores that a ship could shell. -/
def hostileShores (s : Snapshot) (player : PlayerId) (around : List Territory) :
    SortedSet TerritoryId :=
  idsWhere around fun n => !n.isWater && s.isEnemyTerritory n player

/-- The parts of the options that a piece adds to. -/
theorem addPiece_eq (isWater : Bool) : addPiece s player place isWater around p k m =
    { yards := m.yards
      moves := m.moves.insert p.id (destinations place around k)
      transportMoves :=
        if isWater && k.carries then m.transportMoves.insert p.id (destinations place around k)
        else m.transportMoves
      transports :=
        if isWater && k.carries then
          m.transports ++ [⟨p.id, place.territory, friendlyShores s player around⟩]
        else m.transports
      bombardments :=
        if isWater && k.canBombard && !(hostileShores s player around).isEmpty then
          m.bombardments.insert p.id (hostileShores s player around)
        else m.bombardments } := by
  unfold addPiece PieceKind.carries destinations friendlyShores
  cases isWater with
  | false => simp
  | true =>
    by_cases hcarries : 0 < k.transportCapacity <;> cases k.canBombard <;>
      cases htargets : (hostileShores s player around).isEmpty <;>
      unfold hostileShores at htargets ⊢ <;> simp [hcarries, htargets]

theorem mem_idsWhere_iff {here : TerritoryId} {test : Territory → Bool}
    (h : s.neighbors here = .ok around) :
    d ∈ (idsWhere around test).toList ↔ ∃ n, s.Beside here n ∧ n.id = d ∧ test n = true := by
  unfold idsWhere
  rw [SortedSet.mem_toList_ofList_iff, List.mem_map]
  simp only [List.mem_filter, Snapshot.beside_iff_mem h]
  exact exists_congr fun n => ⟨fun ⟨⟨hn, htest⟩, hid⟩ => ⟨hn, hid, htest⟩,
    fun ⟨hn, hid, htest⟩ => ⟨⟨hn, htest⟩, hid⟩⟩

theorem mem_destinations_iff (haround : s.neighbors place.territory = .ok around)
    (hk : s.kind p.kind = .ok k) :
    d ∈ (destinations place around k).toList ↔ s.Reaches ⟨place.territory, p⟩ d := by
  unfold destinations SortedSet.toList
  rw [SortedMap.mem_keys_insert_iff]
  refine or_congr_right ((mem_idsWhere_iff haround).trans (exists_congr fun n => ?_))
  simp only [Domain.canEnter_iff]
  constructor
  · rintro ⟨hn, hid, henters⟩
    exact ⟨k, hn, hid, hk, henters⟩
  · rintro ⟨k', hn, hid, hk', henters⟩
    obtain rfl : k = k' := Except.ok.inj (hk.symm.trans hk')
    exact ⟨hn, hid, henters⟩

theorem mem_friendlyShores_iff (haround : s.neighbors place.territory = .ok around) :
    d ∈ (friendlyShores s player around).toList ↔
      s.LoadsFrom player ⟨place.territory, p⟩ d := by
  unfold friendlyShores
  rw [mem_idsWhere_iff haround]
  refine exists_congr fun n => ?_
  cases n.owner <;> simp

theorem mem_hostileShores_iff (haround : s.neighbors place.territory = .ok around) :
    d ∈ (hostileShores s player around).toList ↔ s.Shells player ⟨place.territory, p⟩ d := by
  unfold hostileShores Snapshot.isEnemyTerritory
  rw [mem_idsWhere_iff haround]
  refine exists_congr fun n => ?_
  cases n.owner <;> simp

/-- A recruit with a number of its own adds what is to be told of it. -/
theorem Describes.addPiece (h : Describes s player yards rs m)
    (ht : s.territory place.territory = .ok t) (haround : s.neighbors place.territory = .ok around)
    (hk : s.kind p.kind = .ok k) (hfresh : ∀ r ∈ rs, r.piece.id ≠ p.id) :
    Describes s player yards (rs ++ [⟨place.territory, p⟩])
      (addPiece s player place t.isWater around p k m) := by
  let r : Recruit := ⟨place.territory, p⟩
  have hsails : ∀ test, s.sails r test = (t.isWater && test k) := fun test =>
    Snapshot.sails_eq ht hk
  rw [addPiece_eq, ← hsails, ← hsails]
  refine ⟨h.yards, h.moves.insert hfresh trivial fun d => mem_destinations_iff haround hk,
    ?_, ?_, ?_⟩
  · show Tells (if _ then _ else _) _ _ _
    split
    · rename_i hcarries
      exact h.transportMoves.insert hfresh hcarries fun d => mem_destinations_iff haround hk
    · rename_i hcarries
      exact h.transportMoves.skip hfresh hcarries
  · show List.Forall₂ _ _ (if _ then _ else _)
    rw [List.filter_append, List.filter_singleton]
    cases hcarries : s.sails r PieceKind.carries with
    | true =>
      refine List.rel_append h.transports (.cons ⟨rfl, rfl, fun d => ?_⟩ .nil)
      exact mem_friendlyShores_iff haround
    | false =>
      simpa [r, hcarries] using h.transports
  · show Tells (if _ then _ else _) _ _ _
    split
    · rename_i hshells
      obtain ⟨hbombards, hsome⟩ := Bool.and_eq_true_iff.mp hshells
      rw [Bool.not_eq_true', SortedSet.isEmpty_eq_false_iff] at hsome
      obtain ⟨d, hd⟩ := hsome
      exact h.bombardments.insert hfresh ⟨hbombards, d, (mem_hostileShores_iff haround).mp hd⟩
        fun d => mem_hostileShores_iff haround
    · rename_i hshells
      refine h.bombardments.skip hfresh fun ⟨hbombards, d, hd⟩ => hshells ?_
      rw [Bool.and_eq_true, Bool.not_eq_true', SortedSet.isEmpty_eq_false_iff]
      exact ⟨hbombards, d, (mem_hostileShores_iff haround).mpr hd⟩

/-! ## All recruits -/

theorem Describes.addPieces (h : Describes s player yards rs m)
    (ht : s.territory place.territory = .ok t) (haround : s.neighbors place.territory = .ok around)
    (hnodup : ((rs ++ ps.map (Recruit.mk place.territory)).map fun r => r.piece.id).Nodup)
    (hm : addPieces s player place t.isWater around ps m = .ok m') :
    Describes s player yards (rs ++ ps.map (Recruit.mk place.territory)) m' := by
  induction ps generalizing rs m with
  | nil =>
    obtain rfl : m = m' := Except.ok.inj hm
    rwa [List.map_nil, List.append_nil]
  | cons p ps ih =>
    obtain ⟨k, hk, hrest⟩ := Outcome.bind_eq_ok_iff.mp hm
    rw [List.map_cons, List.append_cons] at hnodup ⊢
    refine ih (h.addPiece ht haround hk fun r hr => ?_) hnodup hrest
    rw [List.map_append, List.nodup_append, List.map_append, List.nodup_append] at hnodup
    exact hnodup.1.2.2 _ (List.mem_map_of_mem hr) _ (List.mem_singleton_self _)

theorem Describes.addPlaces {places : List Place} (h : Describes s player yards rs m)
    (hnodup : ((rs ++ places.flatMap Place.recruits).map fun r => r.piece.id).Nodup)
    (hm : addPlaces s player places m = .ok m') :
    Describes s player yards (rs ++ places.flatMap Place.recruits) m' := by
  induction places generalizing rs m with
  | nil =>
    obtain rfl : m = m' := Except.ok.inj hm
    rwa [List.flatMap_nil, List.append_nil]
  | cons place places ih =>
    obtain ⟨t, ht, hm⟩ := Outcome.bind_eq_ok_iff.mp hm
    obtain ⟨around, haround, hm⟩ := Outcome.bind_eq_ok_iff.mp hm
    obtain ⟨m₁, hqueue, hrest⟩ := Outcome.bind_eq_ok_iff.mp hm
    rw [List.flatMap_cons, ← List.append_assoc] at hnodup ⊢
    refine ih (h.addPieces ht haround ?_ hqueue) hnodup hrest
    rw [List.map_append] at hnodup
    exact (List.nodup_append.mp hnodup).1

/-- Options that are made describe what waits in the yards, if no two pieces have one number. -/
theorem Describes.of_ofYards (h : ofYards s player yards = .ok m)
    (hnodup : (yards.queued.map Piece.id).Nodup) : Describes s player yards yards.recruits m := by
  have hstart : Describes s player yards [] { yards } :=
    { yards := rfl
      moves := .nil _ _
      transportMoves := .nil _ _
      transports := .nil
      bombardments := .nil _ _ }
  refine hstart.addPlaces ?_ h
  rwa [← Yards.map_piece_recruits, List.map_map] at hnodup

/-! ## Whether there are options -/

/-- Everything that waits in a place can be looked up, and so can the place. -/
structure Known (s : Snapshot) (place : Place) : Prop where
  territory : ∃ t, s.territory place.territory = .ok t
  kinds : ∀ q ∈ place.queue, ∃ k, s.kind q.kind = .ok k

theorem exists_addPieces_iff {isWater : Bool} :
    (∃ m', addPieces s player place isWater around ps m = .ok m') ↔
      ∀ q ∈ ps, ∃ k, s.kind q.kind = .ok k := by
  induction ps generalizing m with
  | nil => exact iff_of_true ⟨m, rfl⟩ fun q hq => absurd hq List.not_mem_nil
  | cons q ps ih =>
    rw [List.forall_mem_cons, addPieces]
    constructor
    · rintro ⟨m', h⟩
      obtain ⟨k, hk, hrest⟩ := Outcome.bind_eq_ok_iff.mp h
      exact ⟨⟨k, hk⟩, ih.mp ⟨m', hrest⟩⟩
    · rintro ⟨hq, hrest⟩
      exact Outcome.exists_bind_eq_ok hq fun k _ => ih.mpr hrest

theorem exists_addPlaces_iff {places : List Place} :
    (∃ m', addPlaces s player places m = .ok m') ↔ ∀ place ∈ places, Known s place := by
  induction places generalizing m with
  | nil => exact iff_of_true ⟨m, rfl⟩ fun place hplace => absurd hplace List.not_mem_nil
  | cons place places ih =>
    rw [List.forall_mem_cons, addPlaces]
    constructor
    · rintro ⟨m', h⟩
      obtain ⟨t, ht, h⟩ := Outcome.bind_eq_ok_iff.mp h
      obtain ⟨around, -, h⟩ := Outcome.bind_eq_ok_iff.mp h
      obtain ⟨m₁, hqueue, hrest⟩ := Outcome.bind_eq_ok_iff.mp h
      exact ⟨⟨⟨t, ht⟩, exists_addPieces_iff.mp ⟨m₁, hqueue⟩⟩, ih.mp ⟨m', hrest⟩⟩
    · rintro ⟨⟨⟨t, ht⟩, hqueue⟩, hrest⟩
      refine Outcome.exists_bind_eq_ok ⟨t, ht⟩ fun _ _ => ?_
      refine Outcome.exists_bind_eq_ok ⟨_, Snapshot.neighbors_eq_ok_iff.mpr ⟨t, ht, rfl⟩⟩ fun _ _ => ?_
      exact Outcome.exists_bind_eq_ok (exists_addPieces_iff.mpr hqueue) fun _ _ => ih.mpr hrest

/-- If no two pieces that wait in some yards have one number, their options describe them exactly;
and there are options if and only if all that waits, and where, can be looked up. -/
theorem ofYards_describes (s : Snapshot) (player : PlayerId)
    (hnodup : (yards.queued.map Piece.id).Nodup) :
    (∀ m, ofYards s player yards = .ok m → Describes s player yards yards.recruits m) ∧
      ((∃ m, ofYards s player yards = .ok m) ↔
        ∀ place ∈ yards.values.flatMap Yard.places, Known s place) :=
  ⟨fun _ h => .of_ofYards h hnodup, exists_addPlaces_iff⟩

/-- Of the two cruisers only the one in the east has something to shell: Blue's port. -/
theorem ofYards_describes_contestedSea :
    let s := Samples.contestedSea
    let yards := Samples.contestants
    (yards.queued.map Piece.id).Nodup ∧
      ∃ m, ofYards s Samples.red yards = .ok m ∧ Describes s Samples.red yards yards.recruits m ∧
        m.transportMoves.keys = [⟨102⟩] ∧ m.bombardments.keys = [⟨104⟩] ∧
        m.bombardments.values.map SortedSet.toList = [[Samples.redProvince]] := by
  intro s yards
  have hnodup : (yards.queued.map Piece.id).Nodup := by decide +kernel
  obtain ⟨m, hm, hread⟩ := Outcome.exists_of_toOption
    (show (ofYards s Samples.red yards).toOption.map (fun m => (m.transportMoves.keys,
      m.bombardments.keys, m.bombardments.values.map SortedSet.toList)) =
        some ([⟨102⟩], [⟨104⟩], [[Samples.redProvince]]) by decide +kernel)
  simp only [Prod.mk.injEq] at hread
  exact ⟨hnodup, m, hm, (ofYards_describes s Samples.red hnodup).1 m hm, hread⟩

end MoveOptions

end Quartermaster
