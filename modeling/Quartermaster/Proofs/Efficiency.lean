import Quartermaster.Proofs.Frontier
import Quartermaster.Proofs.Proportion
import Quartermaster.Samples

/-!
# What a score is worth

The score of an offer in a role is a quotient of two numbers of 32 bits with sign: the strength of
the batch, which is cut where it would leave these bits, and the price. Three roundings lie on the
way: two products that saturate and a quotient that is cut to whole steps. `ofRule_efficiency` says
what is left of the quotient after them. It is exact up to one step, no strength that has a price is
rounded away, and offers that differ in worth are never put the wrong way round.
-/

namespace Quartermaster

/-! ## Quotients -/

namespace Fixed

variable {n n' d d' : Int}

theorem ratio_bits (hn : 0 ≤ n) (hlimit : n ≤ strengthLimit) (hd : 0 < d) :
    (ratio n d).bits = n * scale / d := by
  have hsteps : 0 ≤ (ofInt n).bits := Int.mul_nonneg hn scale_pos.le
  have hprice : 0 < (ofInt d).bits := Int.mul_pos hd scale_pos
  have hquotient : (ofInt n).bits * scale / (ofInt d).bits = n * scale / d :=
    Int.mul_ediv_mul_of_pos_left (n * scale) d scale_pos
  have hgreatest : n * scale / d ≤ greatest :=
    calc n * scale / d ≤ n * scale := Int.ediv_le_self d hsteps
      _ ≤ strengthLimit * scale := Int.mul_le_mul_of_nonneg_right hlimit scale_pos.le
      _ ≤ greatest := by decide
  have hfits : Fits ((ofInt n).bits * scale / (ofInt d).bits) := by
    rw [hquotient]
    exact fits_of_nonneg (Int.ediv_nonneg hsteps hd.le) hgreatest
  unfold ratio
  rw [div?_of_fits hsteps hprice hfits, hquotient, Option.getD_some]

/-- Without a price above zero nothing scores above zero. -/
theorem ratio_bits_nonpos (hn : 0 ≤ n) (hd : d ≤ 0) : (ratio n d).bits ≤ 0 := by
  have hquotient : ((ofInt n).bits * scale).tdiv (ofInt d).bits ≤ 0 :=
    Int.tdiv_nonpos_of_nonneg_of_nonpos
      (Int.mul_nonneg (Int.mul_nonneg hn scale_pos.le) scale_pos.le)
      (Int.mul_nonpos_of_nonpos_of_nonneg hd scale_pos.le)
  unfold ratio div? ofBits?
  split
  · exact Int.le_refl 0
  · split
    · exact hquotient
    · exact Int.le_refl 0

/-- Quotients that are in order stay so when they are cut. -/
theorem floor_le_floor (hd : 0 < d) (hd' : 0 < d') (h : n * d' ≤ n' * d) :
    n * scale / d ≤ n' * scale / d' := by
  rw [Int.le_ediv_iff_mul_le hd']
  refine Int.le_of_mul_le_mul_right ?_ hd
  calc n * scale / d * d' * d
      = n * scale / d * d * d' := by ring
    _ ≤ n * scale * d' :=
      Int.mul_le_mul_of_nonneg_right (Int.ediv_mul_le _ hd.ne') hd'.le
    _ = n * d' * scale := by ring
    _ ≤ n' * d * scale := Int.mul_le_mul_of_nonneg_right h scale_pos.le
    _ = n' * scale * d := by ring

/-- A number of 32 bits with sign is less than the steps in one whole. -/
theorem floor_pos_iff (hn : 0 ≤ n) (hd : 0 < d) (hword : d < wordValues 31) :
    0 < n * scale / d ↔ 0 < n := by
  have hscale : (wordValues 31 : Int) ≤ scale := by decide
  constructor
  · intro h
    refine hn.lt_of_ne fun hzero => ?_
    rw [← hzero, Int.zero_mul, Int.zero_ediv] at h
    exact absurd h (Int.lt_irrefl 0)
  · intro h
    rw [Int.lt_iff_add_one_le, Int.zero_add, Int.le_ediv_iff_mul_le hd, Int.one_mul]
    calc d ≤ scale := (hword.le).trans hscale
      _ ≤ n * scale := le_mul_of_one_le_left scale_pos.le h

end Fixed

/-! ## Strength -/

section

variable {stat hitPoints : Int} {quantity : Nat}

theorem clampStrength_of_nonneg {n : Int} (hn : 0 ≤ n) : clampStrength n = min n strengthLimit := by
  have hlimit : 0 < strengthLimit := by decide
  unfold clampStrength
  omega

/-- Cutting a strength first and then once more cuts no more than cutting it in the end. -/
theorem batchStrength_eq (hstat : 0 ≤ stat) (hhits : 0 ≤ hitPoints) (hquantity : 0 < quantity) :
    batchStrength stat hitPoints quantity = min (stat * hitPoints * quantity) strengthLimit := by
  have hlimit : 0 < strengthLimit := by decide
  have hone : 0 ≤ stat * hitPoints := Int.mul_nonneg hstat hhits
  have hbatch : (1 : Int) ≤ quantity := by exact_mod_cast hquantity
  unfold batchStrength
  rw [clampStrength_of_nonneg hone]
  generalize stat * hitPoints = strength at hone ⊢
  generalize (quantity : Int) = batch at hbatch ⊢
  rw [clampStrength_of_nonneg (Int.mul_nonneg (le_min hone hlimit.le)
    (le_min (by omega) hlimit.le))]
  rcases hone.eq_or_lt with rfl | hsome
  · rw [min_eq_left hlimit.le, Int.zero_mul, Int.zero_mul]
  rcases le_total strength strengthLimit with hfew | hmany
  · rcases le_total batch strengthLimit with hsmall | hlarge
    · rw [min_eq_left hfew, min_eq_left hsmall]
    · -- both products reach the limit by their second factor
      rw [min_eq_left hfew, min_eq_right hlarge,
        min_eq_right (le_mul_of_one_le_left hlimit.le hsome),
        min_eq_right (hlarge.trans (le_mul_of_one_le_left (hlimit.le.trans hlarge) hsome))]
  · -- both products reach the limit by their first factor
    rw [min_eq_right hmany,
      min_eq_right (le_mul_of_one_le_right hlimit.le (le_min hbatch hlimit)),
      min_eq_right (hmany.trans (le_mul_of_one_le_right hone hbatch))]

end

/-- The statistic of a kind that counts in a role. -/
def Role.stat : Role → PieceKind → Int
  | .attack, k => k.attack
  | .defense, k => k.defense

namespace ProductionRule

/-- The strength in a role of what a rule makes of a kind, cut to 32 bits with sign. -/
def strength (r : ProductionRule) (k : PieceKind) (role : Role) : Int :=
  min (role.stat k * k.hitPoints * r.quantityOf k.id) strengthLimit

/-- A rule makes pieces of a kind that has no negative statistic. The price is a number of 32 bits
with sign. -/
structure Sells (r : ProductionRule) (k : PieceKind) (currency : ResourceId) : Prop where
  attack : 0 ≤ k.attack
  defense : 0 ≤ k.defense
  hitPoints : 0 ≤ k.hitPoints
  batch : 0 < r.quantityOf k.id
  price : r.costs.get currency < wordValues 31

instance (r : ProductionRule) (k : PieceKind) (currency : ResourceId) :
    Decidable (r.Sells k currency) :=
  decidable_of_iff
    (0 ≤ k.attack ∧ 0 ≤ k.defense ∧ 0 ≤ k.hitPoints ∧ 0 < r.quantityOf k.id ∧
      r.costs.get currency < wordValues 31)
    ⟨fun h => ⟨h.1, h.2.1, h.2.2.1, h.2.2.2.1, h.2.2.2.2⟩,
      fun h => ⟨h.attack, h.defense, h.hitPoints, h.batch, h.price⟩⟩

namespace Sells

variable {r : ProductionRule} {k : PieceKind} {currency : ResourceId} (h : r.Sells k currency)
  (role : Role)

include h

theorem stat_nonneg : 0 ≤ role.stat k := by
  cases role with
  | attack => exact h.attack
  | defense => exact h.defense

theorem strength_nonneg : 0 ≤ r.strength k role :=
  le_min (Int.mul_nonneg (Int.mul_nonneg (h.stat_nonneg role) h.hitPoints) (Int.natCast_nonneg _))
    (by decide)

theorem strength_pos_iff : 0 < r.strength k role ↔ 0 < role.stat k ∧ 0 < k.hitPoints := by
  have hlimit : 0 < strengthLimit := by decide
  have hbatch : (0 : Int) < r.quantityOf k.id := Int.natCast_pos.mpr h.batch
  unfold strength
  rw [lt_min_iff, and_iff_left hlimit, mul_pos_iff_of_pos_right hbatch]
  constructor
  · intro hpos
    have hstat := pos_of_mul_pos_left hpos h.hitPoints
    exact ⟨hstat, pos_of_mul_pos_right hpos hstat.le⟩
  · exact fun ⟨hstat, hhits⟩ => Int.mul_pos hstat hhits

theorem efficiency_eq : role.efficiency (.ofRule r k currency) =
    .ratio (r.strength k role) (r.costs.get currency) := by
  cases role with
  | attack => exact congrArg (Fixed.ratio · _) (batchStrength_eq h.attack h.hitPoints h.batch)
  | defense => exact congrArg (Fixed.ratio · _) (batchStrength_eq h.defense h.hitPoints h.batch)

theorem efficiency_bits (hcost : 0 < r.costs.get currency) :
    (role.efficiency (.ofRule r k currency)).bits =
      r.strength k role * Fixed.scale / r.costs.get currency := by
  rw [h.efficiency_eq]
  exact Fixed.ratio_bits (h.strength_nonneg role) (min_le_right _ _) hcost

theorem efficiency_pos_iff : .zero < role.efficiency (.ofRule r k currency) ↔
    0 < r.costs.get currency ∧ 0 < role.stat k ∧ 0 < k.hitPoints := by
  rw [← h.strength_pos_iff]
  show 0 < (role.efficiency (.ofRule r k currency)).bits ↔ _
  by_cases hcost : 0 < r.costs.get currency
  · rw [h.efficiency_bits role hcost, and_iff_right hcost]
    exact Fixed.floor_pos_iff (h.strength_nonneg role) hcost h.price
  · rw [h.efficiency_eq]
    have hscore := Fixed.ratio_bits_nonpos (h.strength_nonneg role) (Int.not_lt.mp hcost)
    exact iff_of_false (Int.not_lt.mpr hscore) fun hpos => hcost hpos.1

end Sells

end ProductionRule

namespace Offer

variable {r : ProductionRule} {k : PieceKind} {currency : ResourceId}

/-- An offer with a price scores its strength over the price, in steps and cut to whole ones. It
scores above zero if and only if it has a price above zero, some of the statistic and some hit
points. Of two with prices, the one that gives no more strength for its price scores no higher, be
it in the same role or another. -/
theorem ofRule_efficiency (h : r.Sells k currency) (role : Role) :
    (0 < r.costs.get currency → (role.efficiency (ofRule r k currency)).bits =
        r.strength k role * Fixed.scale / r.costs.get currency) ∧
      (.zero < role.efficiency (ofRule r k currency) ↔
        0 < r.costs.get currency ∧ 0 < role.stat k ∧ 0 < k.hitPoints) ∧
      ∀ (r' : ProductionRule) (k' : PieceKind) (currency' : ResourceId) (role' : Role),
        r'.Sells k' currency' → 0 < r.costs.get currency → 0 < r'.costs.get currency' →
        r.strength k role * r'.costs.get currency' ≤
          r'.strength k' role' * r.costs.get currency →
        role.efficiency (ofRule r k currency) ≤ role'.efficiency (ofRule r' k' currency') := by
  refine ⟨h.efficiency_bits role, h.efficiency_pos_iff role, ?_⟩
  intro r' k' currency' role' h' hcost hcost' hworth
  show (role.efficiency _).bits ≤ (role'.efficiency _).bits
  rw [h.efficiency_bits role hcost, h'.efficiency_bits role' hcost']
  exact Fixed.floor_le_floor hcost hcost' hworth

/-- So many tanks that their strength is cut, at the highest price there is, score one whole, and
an infantry for 3 a third of it. -/
theorem ofRule_efficiency_horde :
    let infantry : PieceKind := { id := ⟨1⟩, name := "infantry", attack := 1, defense := 2 }
    let tank : PieceKind := { id := ⟨3⟩, name := "tank", attack := 3, defense := 3 }
    let one := Samples.saleOf "buyInfantry" infantry.id 1 3
    let horde := Samples.saleOf "buyHorde" tank.id (wordValues 32 - 1) (wordValues 31 - 1)
    one.Sells infantry .productionUnits ∧ horde.Sells tank .productionUnits ∧
      (Role.attack.efficiency (ofRule horde tank .productionUnits)).bits = Fixed.scale ∧
      Fixed.zero < Role.attack.efficiency (ofRule one infantry .productionUnits) ∧
      Role.attack.efficiency (ofRule one infantry .productionUnits) ≤
        Role.attack.efficiency (ofRule horde tank .productionUnits) := by
  intro infantry tank one horde
  have hone : one.Sells infantry .productionUnits := by decide +kernel
  have hhorde : horde.Sells tank .productionUnits := by decide +kernel
  have hprice : 0 < one.costs.get .productionUnits := by decide +kernel
  have hprice' : 0 < horde.costs.get .productionUnits := by decide +kernel
  obtain ⟨-, hpos, horder⟩ := ofRule_efficiency hone .attack
  obtain ⟨hbits, -, -⟩ := ofRule_efficiency hhorde .attack
  refine ⟨hone, hhorde, (hbits hprice').trans (by decide +kernel), hpos.mpr ?_, ?_⟩
  · exact ⟨hprice, by decide +kernel, by decide +kernel⟩
  · exact horder horde tank _ .attack hhorde hprice hprice' (by decide +kernel)

end Offer

end Quartermaster
