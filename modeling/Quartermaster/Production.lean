import Quartermaster.Snapshot

/-!
# Production

How many pieces a territory can make in one turn depends on the factories in it, on who owned
them first, on whether the territory is an original factory site, and on the player's rules.
-/

namespace Quartermaster

/-- What the increased production technology adds to a factory's output. -/
def increasedProductionBonus : Int := 2

/-- The production that a territory needs for that bonus. -/
def increasedProductionThreshold : Int := 3

/-- How a factory's output is reckoned. -/
structure PotentialOptions where
  /-- Whether bombing damage is taken off. -/
  countDamage : Bool := true
  /-- Whether a negative potential counts as none. -/
  clampToZero : Bool := true
deriving DecidableEq, Repr

namespace Snapshot

variable (s : Snapshot)

/-- The pieces with the records of their kinds. -/
def withKinds (ps : List Piece) : Except Fault (List (Piece × PieceKind)) :=
  ps.mapM fun p => do return (p, ← s.kind p.kind)

/-- Those of a player's pieces that can work: the ones not aboard a transport. -/
def workers (ps : List Piece) (player : PlayerId) : List Piece :=
  ps.filter fun p => p.owner == player && !p.isTransported

/-- What the technology adds to each factory of a territory. -/
def technologyBonus (t : Territory) (player : Player) : Int :=
  if player.techs.increasedProduction ∧ increasedProductionThreshold ≤ t.production then
    increasedProductionBonus
  else 0

/-- What one factory makes: its fixed output or the production of the territory, less damage,
with the bonus. -/
def factoryOutput (t : Territory) (player : Player) (options : PotentialOptions) (p : Piece)
    (k : PieceKind) : Except Fault Int := do
  let damage := if options.countDamage then p.damage else 0
  let left ← Checked.subtract (k.fixedOutput.getD t.production) damage
  Checked.add left (technologyBonus t player)

/-- What a piece makes, if it is a factory. -/
def output? (t : Territory) (player : Player) (options : PotentialOptions) (p : Piece) :
    Except Fault (Option Int) := do
  let k ← s.kind p.kind
  if k.isFactory then return some (← factoryOutput t player options p k) else return none

/-- The output of the best factory that a player has in a stack; none makes zero. -/
def productionPotential (stack : Stack) (t : Territory) (player : Player)
    (options : PotentialOptions) : Except Fault Int := do
  let outputs ← (workers stack.pieces player.id).mapM (s.output? t player options)
  let potential := (outputs.filterMap id).max?.getD 0
  return if options.clampToZero then max potential 0 else potential

/-- A player's factories in a territory, of a kind that belongs there: not land kinds in water,
not sea kinds on land. -/
def factories (t : Territory) (player : PlayerId) : Except Fault (List Piece) := do
  let ps ← s.withKinds (workers t.stack.pieces player)
  let fit := fun e : Piece × PieceKind =>
    e.2.isFactory && !(if t.isWater then e.2.isLand else e.2.isSea)
  return (ps.filter fit).map Prod.fst

/-- Who owned the factories of a territory first: the player, if any of them was the player's,
else the owner of the first. -/
def originalFactoryOwner (territory : TerritoryId) (factories : List Piece)
    (player : PlayerId) : Except Fault PlayerId :=
  match factories with
  | [] => .error (.noFactory territory)
  | first :: _ =>
    if factories.any fun p => p.originalOwner == player then .ok player
    else .ok first.originalOwner

/-- One factory that was the player's from the start makes the player the first owner of them
all. -/
theorem originalFactoryOwner_eq_ok_iff {territory : TerritoryId} {factories : List Piece}
    {player : PlayerId} :
    originalFactoryOwner territory factories player = .ok player ↔
      ∃ p ∈ factories, p.originalOwner = player := by
  cases factories with
  | nil => simp [originalFactoryOwner]
  | cons first rest =>
    rw [originalFactoryOwner]
    split
    · rename_i hany
      simpa using hany
    · rename_i hnone
      have hothers : ∀ p ∈ first :: rest, p.originalOwner ≠ player := by simpa using hnone
      constructor
      · intro hfirst
        exact absurd (Except.ok.inj hfirst) (hothers first List.mem_cons_self)
      · rintro ⟨p, hp, howner⟩
        exact absurd howner (hothers p hp)

/-- Whether the player owned the factories of a territory first. Where there are none, nobody
did. -/
def isFirstOwner (territory : TerritoryId) (factories : List Piece) (player : PlayerId) :
    Except Fault Bool := do
  if factories.isEmpty then return false
  return (← originalFactoryOwner territory factories player) == player

theorem isFirstOwner_eq (territory : TerritoryId) (factories : List Piece) (player : PlayerId) :
    isFirstOwner territory factories player =
      .ok (decide (∃ p ∈ factories, p.originalOwner = player)) := by
  cases factories with
  | nil => simp [isFirstOwner, pure, Except.pure]
  | cons first rest =>
    obtain ⟨owner, howner⟩ : ∃ owner,
        originalFactoryOwner territory (first :: rest) player = .ok owner := by
      rw [originalFactoryOwner]
      split <;> exact ⟨_, rfl⟩
    have hself : owner = player ↔ ∃ p ∈ first :: rest, p.originalOwner = player := by
      rw [← originalFactoryOwner_eq_ok_iff, howner, Except.ok.injEq]
    unfold isFirstOwner
    rw [howner]
    show Except.ok (decide (owner = player)) = _
    rw [decide_eq_decide.mpr hself]

/-- How many pieces a player can make in a territory this turn.

An original factory site whose factory was the player's from the start is bounded only by the
player's placement cap. Elsewhere a player who may place anywhere has no bound, and for others
the factories decide. -/
def capacity (territory : TerritoryId) (player : PlayerId) : Except Fault Capacity := do
  let t ← s.territory territory
  let p ← s.player player
  let fs ← s.factories t player
  let first ← isFirstOwner territory fs player
  if t.isOriginalFactory && first then
    return match p.placementCap with
      | some cap => .ofInt cap
      | none => .unlimited
  else if p.placesAnywhere then
    return .unlimited
  else
    return .ofInt (← s.productionPotential t.stack t p {})

end Snapshot

end Quartermaster
