import Quartermaster.Proofs.Frontier
import Quartermaster.Proofs.Opening
import Quartermaster.Samples

/-!
# Budgets

No plan costs more than the player holds, in any currency.

Amounts may be negative, entries may be missing, and a price may name a currency that the player
has never held, so the argument cannot go by totals. Two facts are carried through a pass
(`Ledger.Solvent`): in every currency what is held and what is spent come to what there was at the
start; and a currency that was ever spent is not overdrawn. The second needs the affordability
test of the purchase that touched the currency last.

Where no rule pays its buyer, it follows that no amount leaves its word in the course of a pass
(`Planner.Reached.reckoned`).
-/

namespace Quartermaster

/-! ## Arithmetic of holdings -/

namespace Holdings

variable {h other price : Holdings} {c : ResourceId} {n : Int}

theorem get_eq_of_some (hc : h.amounts.get? c = some n) : h.get c = n := by
  unfold get
  rw [hc]
  rfl

theorem get_eq_of_none (hc : h.amounts.get? c = none) : h.get c = 0 := by
  unfold get
  rw [hc]
  rfl

/-- Crediting the amounts of other holdings, changed in one way or another, puts each of them on top
of what there is and leaves the other currencies alone. -/
theorem get?_foldl_credit (f : Int → Int) (h other : Holdings) (c : ResourceId) :
    (other.entries.foldl (fun h e => h.credit e.1 (f e.2)) h).amounts.get? c =
      (other.amounts.get? c).elim (h.amounts.get? c) fun n => some (h.get c + f n) := by
  have hamounts : (other.entries.foldl (fun h e => h.credit e.1 (f e.2)) h).amounts =
      other.amounts.entries.foldl (fun m e => m.update e.1 fun v => v.getD 0 + f e.2) h.amounts :=
    (List.foldl_hom amounts fun _ _ => rfl).symm
  rw [hamounts]
  exact SortedMap.get?_foldl_update (fun v n => v.getD 0 + f n) ..

theorem get?_add (h other : Holdings) (c : ResourceId) :
    (h.add other).amounts.get? c =
      (other.amounts.get? c).elim (h.amounts.get? c) fun n => some (h.get c + n) :=
  get?_foldl_credit id h other c

theorem get?_subtract (h other : Holdings) (c : ResourceId) :
    (h.subtract other).amounts.get? c =
      (other.amounts.get? c).elim (h.amounts.get? c) fun n => some (h.get c + -n) :=
  get?_foldl_credit (fun n => -n) h other c

@[simp] theorem get_empty (c : ResourceId) : empty.get c = 0 := rfl

@[simp] theorem get_add (h other : Holdings) (c : ResourceId) :
    (h.add other).get c = h.get c + other.get c := by
  unfold get
  rw [get?_add]
  cases other.amounts.get? c with
  | none => simp
  | some n => rfl

@[simp] theorem get_subtract (h other : Holdings) (c : ResourceId) :
    (h.subtract other).get c = h.get c - other.get c := by
  unfold get
  rw [get?_subtract]
  cases other.amounts.get? c with
  | none => simp
  | some n => exact (Int.sub_eq_add_neg ..).symm

/-- A price is covered when each amount that it names is. -/
theorem covers_iff :
    h.covers price = true ↔ ∀ c n, price.amounts.get? c = some n → n ≤ h.get c := by
  unfold covers entries
  rw [List.all_eq_true]
  constructor
  · intro hall c n hn
    exact of_decide_eq_true (hall (c, n) (SortedMap.get?_eq_some_iff.mp hn))
  · rintro hall ⟨c, n⟩ hmem
    exact decide_eq_true (hall c n (SortedMap.get?_eq_some_iff.mpr hmem))

/-- What covers a price has as much of each currency as the price asks, if that is anything. -/
theorem get_le_of_covers (hcovers : h.covers price = true) (c : ResourceId) :
    price.get c ≤ max 0 (h.get c) := by
  cases hprice : price.amounts.get? c with
  | none =>
    rw [get_eq_of_none hprice]
    exact Int.le_max_left _ _
  | some n =>
    rw [get_eq_of_some hprice]
    exact Int.le_trans (covers_iff.mp hcovers c n hprice) (Int.le_max_right _ _)

theorem shortfall?_eq_none_iff : h.shortfall? price = none ↔ h.covers price = true := by
  unfold shortfall? covers
  rw [List.findSome?_eq_none_iff, List.all_eq_true]
  refine forall₂_congr fun e _ => ?_
  rw [ite_eq_right_iff, decide_eq_true_iff, ← Int.not_lt]
  simp

end Holdings

/-! ## Ledgers -/

namespace Ledger

variable {l l' : Ledger} {o : Offer} {start : Holdings}

theorem purchase_eq_ok_iff :
    l.purchase o = .ok l' ↔ l.affords o = true ∧
      l' = { l with holdings := l.holdings.subtract o.costs, spent := l.spent.add o.costs } := by
  show _ ↔ l.remaining.covers o.costs = true ∧ _
  rw [← Holdings.shortfall?_eq_none_iff]
  unfold purchase
  cases l.remaining.shortfall? o.costs with
  | none => simp [eq_comm]
  | some short => simp

/-- What holds of a ledger that only purchases have changed, given what it started with. -/
structure Solvent (start : Holdings) (l : Ledger) : Prop where
  unreserved : l.reserved = .empty
  conserved : ∀ c, l.holdings.get c + l.spent.get c = start.get c
  /-- A currency that was ever spent is not overdrawn. -/
  covered : ∀ c n, l.spent.amounts.get? c = some n → 0 ≤ l.holdings.get c

theorem solvent_ofPlayer (p : Player) : (ofPlayer p).Solvent p.holdings where
  unreserved := rfl
  conserved c := by
    show p.holdings.get c + 0 = p.holdings.get c
    exact Int.add_zero _
  covered c n hn := by cases hn

theorem Solvent.purchase (hl : l.Solvent start) (h : l.purchase o = .ok l') :
    l'.Solvent start := by
  obtain ⟨hafford, rfl⟩ := purchase_eq_ok_iff.mp h
  have hcovers : ∀ c n, o.costs.amounts.get? c = some n → n ≤ l.holdings.get c := by
    intro c n hn
    have hn' := Holdings.covers_iff.mp hafford c n hn
    rwa [remaining, Holdings.get_subtract, hl.unreserved, Holdings.get_empty, Int.sub_zero]
      at hn'
  constructor
  · exact hl.unreserved
  · intro c
    have hc := hl.conserved c
    rw [Holdings.get_subtract, Holdings.get_add]
    omega
  · intro c n hn
    rw [Holdings.get_subtract]
    rw [Holdings.get?_add] at hn
    cases hcost : o.costs.amounts.get? c with
    | some m =>
      -- the price names the currency, and was found covered in it
      have hm := hcovers c m hcost
      have hget : o.costs.get c = m := Holdings.get_eq_of_some hcost
      omega
    | none =>
      rw [hcost] at hn
      have hheld := hl.covered c n hn
      have hget : o.costs.get c = 0 := Holdings.get_eq_of_none hcost
      omega

/-- A solvent ledger has spent nothing that was not there. -/
theorem Solvent.covers_spent (hl : l.Solvent start) : start.covers l.spent = true := by
  rw [Holdings.covers_iff]
  intro c n hn
  have hheld := hl.covered c n hn
  have hsum := hl.conserved c
  have hget : l.spent.get c = n := Holdings.get_eq_of_some hn
  omega

/-- What is left of a budget is what it had at the start less what was spent. -/
theorem Solvent.affords_of_covers (h : l.Solvent start)
    (hcovers : (start.subtract l.spent).covers o.costs = true) : l.affords o = true := by
  unfold affords covers remaining
  rw [Holdings.covers_iff] at hcovers ⊢
  intro c n hn
  have hcovered := hcovers c n hn
  have hsum := h.conserved c
  rw [Holdings.get_subtract] at hcovered
  rw [Holdings.get_subtract, h.unreserved, Holdings.get_empty]
  omega

/-- What can be paid after a purchase could be paid before it. -/
theorem affords_of_purchase {bought : Offer} (h : l.purchase bought = .ok l')
    (hcosts : ∀ c, 0 ≤ bought.costs.get c) (ho : l'.affords o = true) :
    l.affords o = true := by
  obtain ⟨-, rfl⟩ := purchase_eq_ok_iff.mp h
  unfold affords covers remaining at ho ⊢
  rw [Holdings.covers_iff] at ho ⊢
  intro c n hn
  have hcovered := ho c n hn
  have hcost := hcosts c
  rw [Holdings.get_subtract] at hcovered ⊢
  dsimp only at hcovered
  rw [Holdings.get_subtract] at hcovered
  omega

/-- What has a price in a currency takes that much of it. -/
theorem remainingOf_purchase {c : ResourceId} (h : l.purchase o = .ok l')
    (hprice : 0 < o.costs.get c) :
    o.costs.get c ≤ l.remainingOf c ∧ l'.remainingOf c = l.remainingOf c - o.costs.get c := by
  obtain ⟨hafford, rfl⟩ := purchase_eq_ok_iff.mp h
  have hcovered : o.costs.get c ≤ max 0 (l.remaining.get c) :=
    Holdings.get_le_of_covers hafford c
  rw [remaining, Holdings.get_subtract] at hcovered
  unfold remainingOf
  constructor
  · omega
  · show (l.holdings.subtract o.costs).get c - l.reserved.get c = _
    rw [Holdings.get_subtract]
    omega

end Ledger

/-! ## Plans -/

/-- The price of all the listed batches. -/
def Purchase.bill (bs : List Purchase) : Holdings :=
  bs.foldl (fun sum b => sum.add b.offer.costs) .empty

/-- A purchase adds its price to what is spent. -/
theorem Buys.get_spent {arbiter : Arbiter} {pass next : Pass} {b : Purchase}
    (h : Buys arbiter pass b next) (c : ResourceId) :
    next.ledger.spent.get c = pass.ledger.spent.get c + b.offer.costs.get c := by
  obtain ⟨-, hnext⟩ := Ledger.purchase_eq_ok_iff.mp h.paid
  rw [hnext, Holdings.get_add]

namespace Bought

variable {arbiter : Arbiter} {eligible : Purchase → Prop} {pass last : Pass} {bs : List Purchase}

theorem solvent {start : Holdings} (h : Bought arbiter eligible pass bs last)
    (hpass : pass.ledger.Solvent start) : last.ledger.Solvent start :=
  h.invariant (P := fun q => q.ledger.Solvent start)
    (fun _ _ _ hbuys _ hq => hq.purchase hbuys.paid) hpass

/-- What a pass has spent is the price of what it has bought. -/
theorem spent_eq (h : Bought arbiter eligible pass bs last) :
    last.ledger.spent = bs.foldl (fun sum b => sum.add b.offer.costs) pass.ledger.spent := by
  induction h with
  | nil pass => rfl
  | @cons pass next last b bs hbuys _ _ ih =>
    obtain ⟨-, hnext⟩ := Ledger.purchase_eq_ok_iff.mp hbuys.paid
    rw [ih, hnext, List.foldl_cons]

end Bought

namespace Planner

section

variable {s : Snapshot} {player : PlayerId} {owner : Player} {currency : ResourceId}
  {arbiter : Arbiter} {catalog : Catalog} {pass : Pass} (hplayer : s.player player = .ok owner)
  (h : Reached s arbiter catalog player pass)

include hplayer h

theorem Reached.solvent : pass.ledger.Solvent owner.holdings := by
  obtain ⟨start, bs, hstart, hbs⟩ := h
  obtain ⟨p, hp, -, -, hledger, -⟩ := openPass_eq_ok hstart
  obtain rfl : owner = p := Except.ok.inj (hplayer.symm.trans hp)
  apply hbs.solvent
  rw [hledger]
  exact Ledger.solvent_ofPlayer owner

variable (hpriced : owner.Priced)
  (hcatalog : Catalog.ofFrontier s player currency = .ok catalog)

include hpriced hcatalog

/-- Where no rule pays its buyer, nothing comes in. -/
theorem Reached.spent_nonneg (c : ResourceId) : 0 ≤ pass.ledger.spent.get c := by
  obtain ⟨start, bs, hstart, hbs⟩ := h
  refine hbs.invariant (P := fun pass => 0 ≤ pass.ledger.spent.get c) ?_ ?_
  · intro pass b next hbuys heligible hpass
    have hcost := Catalog.costs_nonneg hplayer hpriced hcatalog heligible.mem_catalog c
    rw [hbuys.get_spent]
    omega
  · obtain ⟨p, -, -, -, hledger, -⟩ := openPass_eq_ok hstart
    rw [hledger]
    exact Int.le_refl 0

end

/-- No plan overspends. Whatever the arbiter allows and the generator draws, the player's
holdings cover the price of the batches whose pieces are queued, in every currency in which
anything was spent. -/
theorem plan_covered {s : Snapshot} {arbiter : Arbiter} {player : PlayerId} {p p' : Planner}
    {plan : Plan} (h : p.plan s arbiter player = (.ok plan, p')) :
    ∃ owner bs, s.player player = .ok owner ∧ plan.queued.Perm (bs.flatMap Purchase.pieces) ∧
      plan.spent = Purchase.bill bs ∧ owner.holdings.covers plan.spent = true ∧
      ∀ c n, plan.spent.amounts.get? c = some n → n ≤ owner.holdings.get c := by
  obtain ⟨catalog, start, bs, last, -, hstart, hbs, hplan⟩ := plan_eq_ok h
  obtain ⟨owner, howner, -, -, hledger, -⟩ := openPass_eq_ok hstart
  obtain ⟨-, hyards, hspent, -⟩ := toPlan_eq_ok hplan
  have hsolvent : last.ledger.Solvent owner.holdings := by
    apply hbs.solvent
    rw [hledger]
    exact Ledger.solvent_ofPlayer owner
  have hcovers : owner.holdings.covers plan.spent = true := by
    rw [hspent]
    exact hsolvent.covers_spent
  refine ⟨owner, bs, howner, ?_, ?_, hcovers, Holdings.covers_iff.mp hcovers⟩
  · show plan.yards.queued.Perm _
    have hperm := hbs.queued_perm
    rwa [← hyards, queued_eq_nil_of_openPass hstart, List.nil_append] at hperm
  · rw [hspent, hbs.spent_eq, hledger]
    rfl

theorem plan_covered_sharedSeas :
    ∃ plan p', Samples.planner.plan Samples.sharedSeas (.ofRules Samples.sharedSeas) Samples.red =
        (.ok plan, p') ∧
      plan.spent.get .productionUnits = 16 ∧
      ∃ owner bs, Samples.sharedSeas.player Samples.red = .ok owner ∧
        plan.queued.Perm (bs.flatMap Purchase.pieces) ∧ plan.spent = Purchase.bill bs ∧
        owner.holdings.covers plan.spent = true ∧
        ∀ c n, plan.spent.amounts.get? c = some n → n ≤ owner.holdings.get c := by
  obtain ⟨plan, p', h, hspent⟩ := Outcome.exists_run_of_toOption
    (show (Samples.planner.plan Samples.sharedSeas (.ofRules Samples.sharedSeas)
      Samples.red).1.toOption.map (fun plan => plan.spent.get .productionUnits) = some 16 by
        decide +kernel)
  exact ⟨plan, p', h, hspent, plan_covered h⟩

end Planner

end Quartermaster
