import Quartermaster.Proofs.Budget
import Quartermaster.Proofs.Frontier

/-!
# Reservations

A ledger as it may be used for weighing what could be bought: money is spent, given back, set aside,
and what is set aside is spent for good or released, in any order (`Ledger.Entry`).

Two equations are all that the entries have in common. What is held and what is spent come to the
starting budget, because every entry that moves the one moves the other against it; and what remains
is what is held less what is set aside. That no currency is overdrawn needs prices that are not
negative, and a second fact beside it (`Ledger.Unoverdrawn`): what is set aside is not negative
either, or releasing it would take money away.
-/

namespace Quartermaster

/-- No amount is negative. -/
def Holdings.Nonneg (h : Holdings) : Prop := ∀ c, 0 ≤ h.get c

namespace Ledger

variable {l l' : Ledger} {o : Offer} {start : Holdings} {c : ResourceId}

/-! ## Entries -/

/-- What may be entered in a ledger. -/
inductive Entry where
  | purchase (o : Offer)
  | refund (o : Offer)
  | reserve (o : Offer)
  | confirm
  | release

/-- The offers whose price an entry moves. -/
def Entry.offers : Entry → List Offer
  | .purchase o | .refund o | .reserve o => [o]
  | .confirm | .release => []

/-- What a ledger is after an entry. One that is refused leaves it as it was. -/
def enter (l : Ledger) : Entry → Ledger
  | .purchase o =>
    match l.purchase o with
    | .ok l' => l'
    | .error _ => l
  | .refund o => l.refund o
  | .reserve o => (l.reserve? o).getD l
  | .confirm => l.confirm
  | .release => l.release

/-- What a ledger is after entries made one after the other. -/
def enterAll (l : Ledger) (entries : List Entry) : Ledger := entries.foldl enter l

theorem enterAll_snoc (l : Ledger) (entries : List Entry) (e : Entry) :
    l.enterAll (entries ++ [e]) = (l.enterAll entries).enter e := by
  unfold enterAll
  rw [List.foldl_append]
  rfl

theorem reserve?_eq_some_iff :
    l.reserve? o = some l' ↔
      l.affords o = true ∧ l' = { l with reserved := l.reserved.add o.costs } := by
  unfold reserve?
  split
  · rename_i h
    simp [h, eq_comm]
  · rename_i h
    simp [h]

theorem enter_purchase (l : Ledger) (o : Offer) :
    l.enter (.purchase o) = if l.affords o then
      { l with holdings := l.holdings.subtract o.costs, spent := l.spent.add o.costs } else l := by
  rw [enter]
  cases hpaid : l.purchase o with
  | ok next =>
    obtain ⟨hafford, rfl⟩ := purchase_eq_ok_iff.mp hpaid
    rw [if_pos hafford]
  | error fault =>
    rw [if_neg]
    intro hafford
    rw [purchase_eq_ok_iff.mpr ⟨hafford, rfl⟩] at hpaid
    cases hpaid

theorem enter_reserve (l : Ledger) (o : Offer) :
    l.enter (.reserve o) =
      if l.affords o then { l with reserved := l.reserved.add o.costs } else l := by
  rw [enter, reserve?]
  split <;> rfl

/-! ## What every entry keeps -/

theorem get_remaining (l : Ledger) (c : ResourceId) : l.remaining.get c = l.remainingOf c :=
  Holdings.get_subtract ..

/-- An entry moves what is held and what is spent against each other. -/
theorem get_holdings_add_get_spent_enter (l : Ledger) (e : Entry) (c : ResourceId) :
    (l.enter e).holdings.get c + (l.enter e).spent.get c = l.holdings.get c + l.spent.get c := by
  cases e with
  | purchase o =>
    rw [enter_purchase]
    split
    · simp only [Holdings.get_subtract, Holdings.get_add]
      omega
    · rfl
  | refund o =>
    show (l.holdings.add o.costs).get c + (l.spent.subtract o.costs).get c = _
    rw [Holdings.get_subtract, Holdings.get_add]
    omega
  | reserve o =>
    rw [enter_reserve]
    split <;> rfl
  | confirm =>
    show (l.holdings.subtract l.reserved).get c + (l.spent.add l.reserved).get c = _
    rw [Holdings.get_subtract, Holdings.get_add]
    omega
  | release => rfl

theorem get_holdings_add_get_spent (start : Holdings) (entries : List Entry) (c : ResourceId) :
    (enterAll { holdings := start } entries).holdings.get c +
      (enterAll { holdings := start } entries).spent.get c = start.get c := by
  induction entries using List.reverseRecOn with
  | nil => exact Int.add_zero _
  | append_singleton entries e ih => rw [enterAll_snoc, get_holdings_add_get_spent_enter, ih]

/-- Spending what is set aside leaves what remains. -/
theorem remainingOf_confirm (l : Ledger) (c : ResourceId) :
    l.confirm.remainingOf c = l.remainingOf c := by
  show (l.holdings.subtract l.reserved).get c - Holdings.empty.get c = _
  rw [Holdings.get_subtract, Holdings.get_empty, Int.sub_zero]
  rfl

/-- Nothing is overdrawn, and nothing negative is set aside. -/
structure Unoverdrawn (l : Ledger) : Prop where
  remaining : ∀ c, 0 ≤ l.remainingOf c
  reserved : l.reserved.Nonneg

theorem Unoverdrawn.enter (h : l.Unoverdrawn) {e : Entry}
    (hprices : ∀ o ∈ e.offers, o.costs.Nonneg) : (l.enter e).Unoverdrawn := by
  obtain ⟨hremaining, hreserved⟩ := h
  -- what is affordable asks of no currency more than remains of it
  have hafforded : ∀ o, l.affords o = true → ∀ c, o.costs.get c ≤ l.remainingOf c := by
    intro o hafford c
    have hcovered : o.costs.get c ≤ max 0 (l.remaining.get c) :=
      Holdings.get_le_of_covers hafford c
    have hc := hremaining c
    rw [get_remaining] at hcovered
    omega
  cases e with
  | purchase o =>
    rw [enter_purchase]
    split
    · rename_i hafford
      refine ⟨fun c => ?_, hreserved⟩
      have hc := hafforded o hafford c
      show 0 ≤ (l.holdings.subtract o.costs).get c - l.reserved.get c
      unfold remainingOf at hc
      rw [Holdings.get_subtract]
      omega
    · exact ⟨hremaining, hreserved⟩
  | refund o =>
    refine ⟨fun c => ?_, hreserved⟩
    have hprice := hprices o (List.mem_singleton_self o) c
    have hc := hremaining c
    show 0 ≤ (l.holdings.add o.costs).get c - l.reserved.get c
    unfold remainingOf at hc
    rw [Holdings.get_add]
    omega
  | reserve o =>
    rw [enter_reserve]
    split
    · rename_i hafford
      constructor
      · intro c
        have hc := hafforded o hafford c
        show 0 ≤ l.holdings.get c - (l.reserved.add o.costs).get c
        unfold remainingOf at hc
        rw [Holdings.get_add]
        omega
      · intro c
        have hprice := hprices o (List.mem_singleton_self o) c
        have hc := hreserved c
        rw [Holdings.get_add]
        omega
    · exact ⟨hremaining, hreserved⟩
  | confirm =>
    refine ⟨fun c => ?_, fun c => Int.le_refl 0⟩
    show 0 ≤ l.confirm.remainingOf c
    rw [remainingOf_confirm]
    exact hremaining c
  | release =>
    refine ⟨fun c => ?_, fun c => Int.le_refl 0⟩
    have hc := hremaining c
    have haside := hreserved c
    show 0 ≤ l.holdings.get c - 0
    unfold remainingOf at hc
    omega

theorem unoverdrawn_enterAll (hstart : start.Nonneg) {entries : List Entry}
    (hprices : ∀ e ∈ entries, ∀ o ∈ e.offers, o.costs.Nonneg) :
    (enterAll { holdings := start } entries).Unoverdrawn := by
  induction entries using List.reverseRecOn with
  | nil =>
    refine ⟨fun c => ?_, fun c => Int.le_refl 0⟩
    show 0 ≤ start.get c - 0
    rw [Int.sub_zero]
    exact hstart c
  | append_singleton entries e ih =>
    rw [enterAll_snoc]
    apply Unoverdrawn.enter
    · exact ih fun e he => hprices e (List.mem_append_left _ he)
    · exact hprices e (List.mem_append_right _ (List.mem_singleton_self e))

/-! ## Ledgers in use -/

/-- What holds of a ledger at any time, whatever was entered and whatever was refused. What is held
and what is spent come to the starting budget, and what remains is that budget less what is spent
and what is set aside. A price is spent or set aside exactly when it is found affordable, and to its
full amount; else the ledger stays as it was. Spending what is set aside leaves what remains and
sets nothing aside. And where neither the budget nor a price is negative, no currency is overdrawn.
-/
theorem enterAll_conserves (start : Holdings) (entries : List Entry) :
    let l := enterAll { holdings := start } entries
    (∀ c, l.holdings.get c + l.spent.get c = start.get c) ∧
    (∀ c, l.remainingOf c = l.remaining.get c ∧
      l.remainingOf c = start.get c - l.spent.get c - l.reserved.get c) ∧
    (∀ o, ((∃ l', l.purchase o = .ok l') ↔ l.affords o = true) ∧
      ((∃ l', l.reserve? o = some l') ↔ l.affords o = true)) ∧
    (∀ o, l.affords o = true → ∀ c,
      (l.enter (.purchase o)).spent.get c = l.spent.get c + o.costs.get c ∧
      (l.enter (.reserve o)).reserved.get c = l.reserved.get c + o.costs.get c) ∧
    (∀ o, l.affords o = false → l.enter (.purchase o) = l ∧ l.enter (.reserve o) = l) ∧
    (∀ c, l.confirm.remaining.get c = l.remaining.get c) ∧ l.confirm.reserved = .empty ∧
    (start.Nonneg → (∀ e ∈ entries, ∀ o ∈ e.offers, o.costs.Nonneg) →
      ∀ c, 0 ≤ l.remainingOf c) := by
  intro l
  have hconserved : ∀ c, l.holdings.get c + l.spent.get c = start.get c :=
    get_holdings_add_get_spent start entries
  refine ⟨hconserved, ?_, ?_, ?_, ?_, ?_, rfl, ?_⟩
  · intro c
    have hc := hconserved c
    refine ⟨(l.get_remaining c).symm, ?_⟩
    unfold remainingOf
    omega
  · intro o
    constructor
    · simp [purchase_eq_ok_iff]
    · simp [reserve?_eq_some_iff]
  · intro o hafford c
    rw [enter_purchase, if_pos hafford, enter_reserve, if_pos hafford]
    exact ⟨Holdings.get_add .., Holdings.get_add ..⟩
  · intro o hrefused
    rw [enter_purchase, enter_reserve, hrefused]
    exact ⟨rfl, rfl⟩
  · intro c
    rw [get_remaining, get_remaining, remainingOf_confirm]
  · intro hstart hprices
    exact (unoverdrawn_enterAll hstart hprices).remaining

/-- Of a budget of ten, two pieces of artillery can be set aside but not a third. Once they are
spent another cannot be paid for, and of the two one is given back. -/
theorem enterAll_conserves_artillery :
    let start := Samples.price 10
    let o : Offer := .ofRule (Samples.saleOf "buyArtillery" Samples.artillery 1 4)
      { id := Samples.artillery, name := "artillery" } .productionUnits
    let l := enterAll { holdings := start } [.reserve o, .reserve o, .reserve o, .confirm,
      .purchase o, .refund o]
    start.Nonneg ∧ o.costs.Nonneg ∧ l.spent.get .productionUnits = 4 ∧
      l.holdings.get .productionUnits + l.spent.get .productionUnits = 10 ∧
      l.affords o = true ∧ (∃ l', l.purchase o = .ok l') ∧ ∀ c, 0 ≤ l.remainingOf c := by
  intro start o l
  have hstart : start.Nonneg := Holdings.get_nonneg (by decide)
  have hprice : o.costs.Nonneg := Holdings.get_nonneg (by decide)
  have hprices : ∀ e ∈ [Entry.reserve o, .reserve o, .reserve o, .confirm, .purchase o, .refund o],
      ∀ o' ∈ e.offers, o'.costs.Nonneg := by
    simpa [Entry.offers] using hprice
  have hspent : l.spent.get .productionUnits = 4 := by decide
  have hafford : l.affords o = true := by decide
  obtain ⟨hconserved, -, hpays, -, -, -, -, hremains⟩ := enterAll_conserves start
    [.reserve o, .reserve o, .reserve o, .confirm, .purchase o, .refund o]
  exact ⟨hstart, hprice, hspent, hconserved .productionUnits, hafford,
    (hpays o).1.mpr hafford, hremains hstart hprices⟩

end Ledger

end Quartermaster
