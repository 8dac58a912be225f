import Quartermaster.Production
import Quartermaster.Proofs.Board
import Quartermaster.Proofs.Outcome

/-!
# Factories at work

What a territory can make for a player rests on the factories that the player has at work in it
(`Snapshot.Works`). Where one of them founded an original factory site (`Snapshot.Founded`), or
where the player may place anywhere, it does not matter how much they put out. Elsewhere the best
output decides.

Outputs are reckoned in words. If that of any factory leaves its word, at whatever step, there is no
capacity (`Snapshot.Overflows`). Otherwise, and as long as the kinds of the pieces at work are
known, there is one (`Snapshot.capacity_cases`).
-/

namespace Quartermaster

/-- Whether a kind belongs in a territory: land kinds not in water, sea kinds not on land. -/
def PieceKind.Belongs (k : PieceKind) (t : Territory) : Prop :=
  if t.isWater then k.domain ≠ .land else k.domain ≠ .sea

theorem PieceKind.belongs_iff {k : PieceKind} {t : Territory} :
    k.Belongs t ↔ (if t.isWater then k.isLand else k.isSea) = false := by
  unfold Belongs isLand isSea
  cases t.isWater <;> simp

def Fault.IsOverflow (f : Fault) : Prop := ∃ step, f = .overflow step

namespace Snapshot

variable {s : Snapshot} {place : TerritoryId} {player : PlayerId} {t : Territory} {p : Player}
  {ps fs : List Piece} {q : Piece} {k : PieceKind} {n : Int}

/-! ## Pieces at work -/

theorem mem_workers :
    q ∈ workers ps player ↔ q ∈ ps ∧ q.owner = player ∧ q.isTransported = false := by
  unfold workers
  simp [List.mem_filter]

theorem mem_withKinds {es : List (Piece × PieceKind)} (h : s.withKinds ps = .ok es) :
    (q, k) ∈ es ↔ q ∈ ps ∧ s.kind q.kind = .ok k := by
  unfold withKinds at h
  rw [Outcome.mem_of_mapM h]
  constructor
  · rintro ⟨q', hq', hpair⟩
    obtain ⟨k', hk', hpair⟩ := Outcome.bind_eq_ok_iff.mp hpair
    rw [Outcome.pure_eq_ok_iff, Prod.mk.injEq] at hpair
    obtain ⟨rfl, rfl⟩ := hpair
    exact ⟨hq', hk'⟩
  · rintro ⟨hq, hk⟩
    exact ⟨q, hq, Outcome.bind_eq_ok_iff.mpr ⟨k, hk, rfl⟩⟩

theorem exists_withKinds_of_kinds (h : ∀ q ∈ ps, ∃ k, s.kind q.kind = .ok k) :
    ∃ es, s.withKinds ps = .ok es := by
  unfold withKinds
  rw [Outcome.exists_mapM_eq_ok_iff]
  exact fun q hq => Outcome.exists_bind_eq_ok (h q hq) fun k _ => ⟨(q, k), rfl⟩

/-- A factory that a player has at work among some pieces. -/
structure Works (s : Snapshot) (ps : List Piece) (player : PlayerId) (q : Piece)
    (k : PieceKind) : Prop where
  present : q ∈ ps
  owned : q.owner = player
  free : q.isTransported = false
  known : s.kind q.kind = .ok k
  factory : k.isFactory = true

theorem works_iff :
    s.Works ps player q k ↔
      q ∈ workers ps player ∧ s.kind q.kind = .ok k ∧ k.isFactory = true := by
  rw [mem_workers]
  exact ⟨fun h => ⟨⟨h.present, h.owned, h.free⟩, h.known, h.factory⟩,
    fun ⟨⟨hq, howned, hfree⟩, hk, hfactory⟩ => ⟨hq, howned, hfree, hk, hfactory⟩⟩

/-- The factories of a player are the pieces at work of a kind that belongs there. -/
theorem mem_factories (h : s.factories t player = .ok fs) :
    q ∈ fs ↔ q ∈ t.stack.pieces ∧ q.owner = player ∧ q.isTransported = false ∧
      ∃ k, s.kind q.kind = .ok k ∧ k.isFactory = true ∧
        (if t.isWater then k.isLand else k.isSea) = false := by
  obtain ⟨es, hes, h⟩ := Outcome.bind_eq_ok_iff.mp h
  rw [Outcome.pure_eq_ok_iff] at h
  subst h
  simp only [List.mem_map, List.mem_filter, Prod.exists, mem_withKinds hes, mem_workers,
    Bool.and_eq_true, Bool.not_eq_true']
  constructor
  · rintro ⟨q', k, ⟨⟨⟨hq, howner, hworks⟩, hk⟩, hfactory, hdomain⟩, rfl⟩
    exact ⟨hq, howner, hworks, k, hk, hfactory, hdomain⟩
  · rintro ⟨hq, howner, hworks, k, hk, hfactory, hdomain⟩
    exact ⟨q, k, ⟨⟨⟨hq, howner, hworks⟩, hk⟩, hfactory, hdomain⟩, rfl⟩

theorem exists_factories_of_kinds
    (hkinds : ∀ q ∈ workers t.stack.pieces player, ∃ k, s.kind q.kind = .ok k) :
    ∃ fs, s.factories t player = .ok fs :=
  Outcome.exists_bind_eq_ok (exists_withKinds_of_kinds hkinds) fun _ _ => ⟨_, rfl⟩

/-- An original factory site where a factory that belongs there was the player's from the start. -/
structure Founded (s : Snapshot) (t : Territory) (player : PlayerId) : Prop where
  site : t.isOriginalFactory = true
  founder : ∃ q k, s.Works t.stack.pieces player q k ∧ k.Belongs t ∧ q.originalOwner = player

/-- A territory is founded for a player if the player is the first owner of the factories that are
found there. -/
theorem founded_iff (h : s.factories t player = .ok fs) :
    (t.isOriginalFactory && decide (∃ f ∈ fs, f.originalOwner = player)) = true ↔
      s.Founded t player := by
  rw [Bool.and_eq_true, decide_eq_true_iff]
  simp only [mem_factories h, ← PieceKind.belongs_iff]
  constructor
  · rintro ⟨hsite, q, ⟨hq, howned, hfree, k, hk, hfactory, hhome⟩, hfirst⟩
    exact ⟨hsite, q, k, ⟨hq, howned, hfree, hk, hfactory⟩, hhome, hfirst⟩
  · rintro ⟨hsite, q, k, hworks, hhome, hfirst⟩
    exact ⟨hsite, q, ⟨hworks.present, hworks.owned, hworks.free, k, hworks.known, hworks.factory,
      hhome⟩, hfirst⟩

/-! ## Output -/

/-- What a factory is worth to a player, without regard to words. -/
def exactOutput (t : Territory) (p : Player) (q : Piece) (k : PieceKind) : Int :=
  k.fixedOutput.getD t.production - q.damage + technologyBonus t p

/-- The output of a factory stays within its word, less the damage and then with the bonus. -/
structure OutputFits (t : Territory) (p : Player) (q : Piece) (k : PieceKind) : Prop where
  damaged : FitsSigned (k.fixedOutput.getD t.production - q.damage)
  whole : FitsSigned (exactOutput t p q k)

theorem factoryOutput_eq_ok_iff :
    factoryOutput t p {} q k = .ok n ↔ OutputFits t p q k ∧ n = exactOutput t p q k := by
  unfold factoryOutput
  simp only [if_true, Outcome.bind_eq_ok_iff, Checked.subtract_eq_ok_iff, Checked.add_eq_ok_iff]
  constructor
  · rintro ⟨_, ⟨hdamaged, rfl⟩, hwhole, rfl⟩
    exact ⟨⟨hdamaged, hwhole⟩, rfl⟩
  · rintro ⟨hfits, rfl⟩
    exact ⟨_, ⟨hfits.damaged, rfl⟩, hfits.whole, rfl⟩

theorem failsOnly_factoryOutput (options : PotentialOptions) :
    Outcome.FailsOnly Fault.IsOverflow (factoryOutput t p options q k) := by
  have hcheck : ∀ (n : Int) (step : Overflow), Outcome.FailsOnly Fault.IsOverflow
      (if FitsSigned n then .ok n else .error (.overflow step)) := by
    intro n step
    split
    · exact .ok _
    · exact .error ⟨step, rfl⟩
  exact .bind (hcheck _ .subtraction) fun left _ => hcheck _ .addition

theorem output?_eq_ok_some_iff :
    s.output? t p {} q = .ok (some n) ↔
      ∃ k, s.kind q.kind = .ok k ∧ k.isFactory = true ∧ factoryOutput t p {} q k = .ok n := by
  unfold output?
  rw [Outcome.bind_eq_ok_iff]
  refine exists_congr fun k => and_congr_right fun _ => ?_
  cases k.isFactory with
  | true =>
    rw [if_pos rfl, Outcome.bind_eq_ok_iff]
    simp [Outcome.pure_eq_ok_iff]
  | false => simp [pure, Except.pure]

theorem mem_outputs {found : List (Option Int)}
    (h : (workers ps p.id).mapM (s.output? t p {}) = .ok found) :
    n ∈ found.filterMap id ↔
      ∃ q k, s.Works ps p.id q k ∧ OutputFits t p q k ∧ n = exactOutput t p q k := by
  rw [Outcome.mem_filterMap_of_mapM h]
  refine exists_congr fun q => ?_
  simp only [output?_eq_ok_some_iff, factoryOutput_eq_ok_iff, works_iff, ← exists_and_left,
    and_assoc]

/-- A piece of a known kind has an output, or none, unless it is a factory with too great a one. -/
theorem exists_output?_iff (hk : ∃ k, s.kind q.kind = .ok k) :
    (∃ made, s.output? t p {} q = .ok made) ↔
      ∀ k, s.kind q.kind = .ok k → k.isFactory = true → OutputFits t p q k := by
  obtain ⟨k, hk⟩ := hk
  simp only [output?, hk, bind, Except.bind, Except.ok.injEq, forall_eq']
  cases k.isFactory with
  | false => simp [pure, Except.pure]
  | true =>
    constructor
    · rintro ⟨made, h⟩ -
      obtain ⟨n, hn, -⟩ := Outcome.bind_eq_ok_iff.mp h
      exact (factoryOutput_eq_ok_iff.mp hn).1
    · intro hfits
      exact Outcome.exists_bind_eq_ok ⟨_, factoryOutput_eq_ok_iff.mpr ⟨hfits rfl, rfl⟩⟩
        fun n _ => ⟨some n, rfl⟩

section

variable (hkinds : ∀ q ∈ workers t.stack.pieces p.id, ∃ k, s.kind q.kind = .ok k)

include hkinds

theorem exists_productionPotential_iff :
    (∃ made, s.productionPotential t.stack t p {} = .ok made) ↔
      ∀ q k, s.Works t.stack.pieces p.id q k → OutputFits t p q k := by
  have houtputs : (∃ made, s.productionPotential t.stack t p {} = .ok made) ↔
      ∃ found, (workers t.stack.pieces p.id).mapM (s.output? t p {}) = .ok found :=
    Outcome.exists_bind_pure_iff
  rw [houtputs, Outcome.exists_mapM_eq_ok_iff]
  simp only [works_iff]
  constructor
  · rintro h q k ⟨hq, hk, hfactory⟩
    exact (exists_output?_iff (hkinds q hq)).mp (h q hq) k hk hfactory
  · intro h q hq
    exact (exists_output?_iff (hkinds q hq)).mpr fun k hk hfactory => h q k ⟨hq, hk, hfactory⟩

theorem failsOnly_productionPotential :
    Outcome.FailsOnly Fault.IsOverflow (s.productionPotential t.stack t p {}) := by
  refine .bind (.mapM fun q hq => ?_) fun _ _ => .ok _
  refine .bind (.of_exists (hkinds q hq)) fun k _ => ?_
  split
  · exact .bind (failsOnly_factoryOutput {}) fun _ _ => .ok _
  · exact .ok _

end

/-! ## Capacity -/

/-- The capacity of a territory hangs on what its factories put out, and the output of one of them
leaves its word. -/
structure Overflows (s : Snapshot) (t : Territory) (p : Player) : Prop where
  unfounded : ¬s.Founded t p.id
  bounded : p.placesAnywhere = false
  factory : ∃ q k, s.Works t.stack.pieces p.id q k ∧ ¬OutputFits t p q k

section

variable (hid : p.id = player) (ht : s.territory place = .ok t) (hp : s.player player = .ok p)
  (hkinds : ∀ q ∈ workers t.stack.pieces player, ∃ k, s.kind q.kind = .ok k)

include ht hp

theorem capacity_eq (hfs : s.factories t player = .ok fs) :
    s.capacity place player =
      if t.isOriginalFactory && decide (∃ f ∈ fs, f.originalOwner = player) then
        .ok (p.placementCap.elim .unlimited .ofInt)
      else if p.placesAnywhere then .ok .unlimited
      else (s.productionPotential t.stack t p {}).map .ofInt := by
  unfold capacity
  rw [ht, hp]
  simp only [bind, Except.bind, hfs, isFirstOwner_eq, pure, Except.pure]
  split
  · cases p.placementCap <;> rfl
  · split
    · rfl
    · cases s.productionPotential t.stack t p {} <;> rfl

include hkinds

theorem capacity_of_founded (h : s.Founded t player) :
    s.capacity place player = .ok (p.placementCap.elim .unlimited .ofInt) := by
  obtain ⟨fs, hfs⟩ := exists_factories_of_kinds hkinds
  rw [capacity_eq ht hp hfs, if_pos ((founded_iff hfs).mpr h)]

theorem capacity_of_placesAnywhere (h : ¬s.Founded t player) (hany : p.placesAnywhere = true) :
    s.capacity place player = .ok .unlimited := by
  obtain ⟨fs, hfs⟩ := exists_factories_of_kinds hkinds
  rw [capacity_eq ht hp hfs, if_neg (mt (founded_iff hfs).mp h), if_pos hany]

theorem capacity_of_output (h : ¬s.Founded t player) (hany : p.placesAnywhere = false) :
    s.capacity place player = (s.productionPotential t.stack t p {}).map .ofInt := by
  obtain ⟨fs, hfs⟩ := exists_factories_of_kinds hkinds
  rw [capacity_eq ht hp hfs, if_neg (mt (founded_iff hfs).mp h), hany]
  rfl

include hid

/-- A territory has a capacity, or else an output on which it hangs leaves its word. -/
theorem capacity_cases :
    (¬s.Overflows t p ∧ ∃ c, s.capacity place player = .ok c) ∨
      s.Overflows t p ∧ ∃ step, s.capacity place player = .error (.overflow step) := by
  subst hid
  by_cases hfounded : s.Founded t p.id
  · exact .inl ⟨fun h => h.unfounded hfounded, _, capacity_of_founded ht hp hkinds hfounded⟩
  cases hany : p.placesAnywhere with
  | true =>
    refine .inl ⟨fun h => ?_, _, capacity_of_placesAnywhere ht hp hkinds hfounded hany⟩
    exact Bool.false_ne_true (h.bounded.symm.trans hany)
  | false =>
    rw [capacity_of_output ht hp hkinds hfounded hany]
    have hfits := exists_productionPotential_iff (t := t) hkinds
    rcases (failsOnly_productionPotential hkinds).ok_or_error with ⟨made, hmade⟩ | ⟨f, hf, hstep⟩
    · refine .inl ⟨?_, ?_⟩
      · rintro ⟨-, -, q, k, hworks, hbeyond⟩
        exact hbeyond (hfits.mp ⟨made, hmade⟩ q k hworks)
      · rw [hmade]
        exact ⟨_, rfl⟩
    · obtain ⟨step, rfl⟩ := hstep
      refine .inr ⟨⟨hfounded, hany, ?_⟩, step, by rw [hf]; rfl⟩
      by_contra hnone
      obtain ⟨made, hmade⟩ := hfits.mpr fun q k hworks => by
        by_contra hbeyond
        exact hnone ⟨q, k, hworks, hbeyond⟩
      rw [hf] at hmade
      cases hmade

end

end Snapshot

end Quartermaster
