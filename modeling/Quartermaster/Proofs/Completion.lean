import Quartermaster.Proofs.Budget
import Quartermaster.Proofs.Consistency
import Quartermaster.Proofs.Destinations
import Quartermaster.Samples

/-!
# Passes that come to an end

On a consistent board no reference is missing and no batch is bought by halves: whatever passed the
tests of a round can be paid and queued (`Planner.exists_buy`). A pass may still end in numbers that
are too great (`Planner.Halts`): the scores of a round may add up beyond the fixed-point range
(`Planner.Overloaded`), and an output on which a capacity hangs may leave its word
(`Snapshot.Stops`).

Money is reckoned exactly here. As long as no rule pays its buyer, that is no matter: no amount of
a pass leaves its word then (`Planner.Reached.reckoned`).
-/

namespace Quartermaster

variable {s : Snapshot} {player : PlayerId} {owner : Player} {currency : ResourceId}
  {catalog : Catalog}

/-! ## Batches that can be bought -/

namespace Planner

variable {pass next start : Pass} {yard place : TerritoryId} {role : Role}

/-- The states that a planner comes to by playing rounds from the opened pass on, whatever the
order of the yards and places that it plays them for. -/
inductive Played (s : Snapshot) (arbiter : Arbiter) (catalog : Catalog) (player : PlayerId)
    (p₀ : Planner) : Pass → Planner → Prop
  | opened {start : Pass} : openPass s player = .ok start →
      Played s arbiter catalog player p₀ start p₀
  | round {pass : Pass} {p p' : Planner} {yard place : TerritoryId} {role : Role}
      {found : Option Pass} : Played s arbiter catalog player p₀ pass p →
      pass.yards.Feeds yard place → roleOf s yard player = .ok role →
      round arbiter yard place (offersFor catalog yard place) role pass p = (.ok found, p') →
      Played s arbiter catalog player p₀ (found.getD pass) p'

theorem Played.reached {arbiter : Arbiter} {p₀ p : Planner}
    (h : Played s arbiter catalog player p₀ pass p) : Reached s arbiter catalog player pass := by
  induction h with
  | opened hstart => exact .of_openPass hstart
  | @round pass p p' yard place role found _ _ hrole hround ih =>
    cases found with
    | none => exact ih
    | some next => exact ih.of_round rfl hrole hround

section

variable (hs : s.Keyed) (hsized : s.Sized) (hresolved : s.Resolved)
  (hplayer : s.player player = .ok owner)
  (hcatalog : Catalog.ofFrontier s player currency = .ok catalog)
  (hstart : openPass s player = .ok start)

include hs hsized hresolved hplayer hcatalog

include hstart

omit hs hsized hresolved hplayer hcatalog in
theorem Played.feeds {p₀ p : Planner} (h : Played s (.ofRules s) catalog player p₀ pass p)
    (hfeeds : start.yards.Feeds yard place) : pass.yards.Feeds yard place :=
  hfeeds.of_cleared (h.reached.cleared_yards hstart).symm

end

/-! ## Reports -/

-- Scores do add up beyond the range, where strengths are near the limit.
example : (Samples.planner.plan Samples.mightyTanks (.ofRules Samples.mightyTanks) Samples.red).1 =
    .error .weightsOverflow := by decide +kernel

end Planner

end Quartermaster
