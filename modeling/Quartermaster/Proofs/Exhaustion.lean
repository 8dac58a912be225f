import Mathlib.Order.Bounds.Defs
import Quartermaster.Proofs.Acceptance
import Quartermaster.Proofs.Budget
import Quartermaster.Proofs.Defenders

/-!
# How many defenders are bought

The loop of `maxDefenders` ends when money or capacity is gone, and would do so without a count of
its turns. How many more batches are possible (`Offer.Possible`) has a greatest number, which each
turn lowers by one. That there is one needs an argument where the capacity is unlimited: what scores
has a price in the currency of the scores, and a price that is not zero and pays nobody is positive.
The count of turns that the loop is given is an upper bound of that number
(`Offer.Possible.le_purchaseBound`), and therefore never what ends it (`buyRepeatedly_buysMost`).

So the defenders have a closed form (`maxDefenders_exhausts`): the greatest possible number of
batches of the best offer.
-/

namespace Quartermaster

variable {s : Snapshot} {player : PlayerId} {territory : TerritoryId} {o best : Offer}
  {offers : List Offer} {holdings : Holdings} {capacity left : Capacity} {ledger ledger' : Ledger}
  {k m n : Nat}

/-! ## Possible batches -/

namespace Offer

/-- So many batches of an offer fit a capacity, and each amount of the price is covered so many
times. -/
structure Possible (o : Offer) (holdings : Holdings) (capacity : Capacity) (count : Nat) :
    Prop where
  fits : capacity.fits (count * o.quantity) = true
  covered : ∀ c n, o.costs.amounts.get? c = some n → count * n ≤ holdings.get c

/-- The price pays its buyer in no currency. -/
def Costly (o : Offer) : Prop := ∀ c n, o.costs.amounts.get? c = some n → 0 ≤ n

/-- The consecutive new pieces that come to so many. -/
def pieces (o : Offer) (owner : PlayerId) (first count : Nat) : List Piece :=
  (List.range' first count).map fun n => { id := ⟨n⟩, kind := o.kind, owner }

theorem map_kind_pieces (o : Offer) (owner : PlayerId) (first count : Nat) :
    (o.pieces owner first count).map Piece.kind = List.replicate count o.kind := by
  unfold pieces
  rw [List.map_map]
  refine List.eq_replicate_iff.mpr ⟨by rw [List.length_map, List.length_range'], ?_⟩
  intro kind hkind
  obtain ⟨n, -, rfl⟩ := List.mem_map.mp hkind
  rfl

theorem pieces_append (o : Offer) (owner : PlayerId) (first m n : Nat) :
    o.pieces owner first m ++ o.pieces owner (first + m) n = o.pieces owner first (m + n) := by
  unfold pieces
  rw [← List.map_append, List.range'_append_1]

theorem materialize_eq (hquantity : 0 < o.quantity) (source : PieceSource) (owner : PlayerId) :
    o.materialize source owner =
      .ok (o.pieces owner source.next o.quantity, ⟨source.next + o.quantity⟩) :=
  materialize_eq_ok_iff.mpr ⟨Nat.ne_of_gt hquantity, rfl, rfl⟩

theorem Possible.mono (h : o.Possible holdings capacity n) (hcostly : o.Costly) (hle : m ≤ n) :
    o.Possible holdings capacity m where
  fits := Capacity.fits_mono h.fits (Nat.mul_le_mul_right _ hle)
  covered c price hprice := by
    have hmore : (m : Int) * price ≤ n * price :=
      Int.mul_le_mul_of_nonneg_right (Int.ofNat_le.mpr hle) (hcostly c price hprice)
    exact Int.le_trans hmore (h.covered c price hprice)

/-- The loop goes on exactly as long as one more batch is possible. -/
theorem possible_one_iff (hunreserved : ledger.reserved = .empty) :
    o.Possible ledger.holdings capacity 1 ↔
      ledger.affords o = true ∧ capacity.fits o.quantity = true := by
  have hafford : ledger.affords o = true ↔
      ∀ c n, o.costs.amounts.get? c = some n → n ≤ ledger.holdings.get c := by
    unfold Ledger.affords Ledger.covers Ledger.remaining
    rw [Holdings.covers_iff, hunreserved]
    simp
  rw [hafford]
  constructor
  · rintro ⟨hfits, hcovered⟩
    simp only [Nat.one_mul, Int.natCast_one, Int.one_mul] at hfits hcovered
    exact ⟨hcovered, hfits⟩
  · rintro ⟨hcovered, hfits⟩
    constructor
    · simpa using hfits
    · simpa using hcovered

/-- After a batch has been bought one batch fewer is possible. -/
theorem possible_succ_iff (hleft : capacity.consume? o.quantity = some left)
    (hpaid : ledger.purchase o = .ok ledger') :
    o.Possible ledger.holdings capacity (m + 1) ↔ o.Possible ledger'.holdings left m := by
  obtain ⟨-, rfl⟩ := Ledger.purchase_eq_ok_iff.mp hpaid
  have hfits : capacity.fits ((m + 1) * o.quantity) = true ↔ left.fits (m * o.quantity) = true := by
    rw [Nat.succ_mul, Nat.add_comm]
    exact Capacity.fits_add_iff_of_consume? hleft
  have hcovered : ∀ c n, o.costs.amounts.get? c = some n →
      (((m + 1 : Nat) : Int) * n ≤ ledger.holdings.get c ↔
        m * n ≤ (ledger.holdings.subtract o.costs).get c) := by
    intro c n hn
    rw [Holdings.get_subtract, Holdings.get_eq_of_some hn, Int.natCast_succ, Int.add_mul,
      Int.one_mul]
    omega
  constructor
  · rintro ⟨h, h'⟩
    exact ⟨hfits.mp h, fun c n hn => (hcovered c n hn).mp (h' c n hn)⟩
  · rintro ⟨h, h'⟩
    exact ⟨hfits.mpr h, fun c n hn => (hcovered c n hn).mpr (h' c n hn)⟩

theorem isGreatest_succ (hleft : capacity.consume? o.quantity = some left)
    (hpaid : ledger.purchase o = .ok ledger')
    (h : IsGreatest {m | o.Possible ledger'.holdings left m} k) :
    IsGreatest {m | o.Possible ledger.holdings capacity m} (k + 1) := by
  obtain ⟨hpossible, hmost⟩ := h
  refine ⟨(possible_succ_iff hleft hpaid).mpr hpossible, ?_⟩
  intro m hm
  cases m with
  | zero => exact Nat.zero_le _
  | succ m => exact Nat.succ_le_succ (hmost ((possible_succ_iff hleft hpaid).mp hm))

/-- What scores has a positive amount in its price. -/
theorem exists_price_pos {rule : ProductionRule} {kind : PieceKind} {currency : ResourceId}
    (hcostly : (ofRule rule kind currency).Costly)
    (hscore : .zero < (ofRule rule kind currency).defenseEfficiency) :
    ∃ e ∈ rule.costs.entries, 0 < e.2 := by
  have hne : rule.costs.get currency ≠ 0 :=
    cost_ne_zero (show .zero < Role.efficiency .defense (ofRule rule kind currency) from hscore)
  cases hprice : rule.costs.amounts.get? currency with
  | none => exact absurd (Holdings.get_eq_of_none hprice) hne
  | some n =>
    have hnonneg : 0 ≤ n := hcostly currency n hprice
    rw [Holdings.get_eq_of_some hprice] at hne
    exact ⟨(currency, n), SortedMap.get?_eq_some_iff.mp hprice, by show 0 < n; omega⟩

/-- There are no more batches than pieces that fit, or else than units of a currency in which the
price is positive. -/
theorem Possible.le_purchaseBound (hquantity : 0 < o.quantity)
    (hprice : ∃ e ∈ o.costs.entries, 0 < e.2) (h : o.Possible holdings capacity m) :
    m ≤ Planner.purchaseBound o holdings capacity := by
  cases capacity with
  | limited n =>
    have hfits : m * o.quantity ≤ n := of_decide_eq_true h.fits
    exact Nat.le_trans (Nat.le_mul_of_pos_right m hquantity) hfits
  | unlimited =>
    unfold Planner.purchaseBound
    cases hfind : o.costs.entries.find? fun e => decide (0 < e.2) with
    | none =>
      obtain ⟨e, he, hpos⟩ := hprice
      exact absurd (decide_eq_true hpos) (List.find?_eq_none.mp hfind e he)
    | some e =>
      have hpos : 0 < e.2 := by simpa using List.find?_some hfind
      have hentry : o.costs.amounts.get? e.1 = some e.2 :=
        SortedMap.get?_eq_some_iff.mpr (List.mem_of_find?_eq_some hfind)
      have hcovered := h.covered e.1 e.2 hentry
      have hmore : (m : Int) * 1 ≤ m * e.2 :=
        Int.mul_le_mul_of_nonneg_left hpos (Int.natCast_nonneg m)
      show m ≤ (holdings.get e.1).toNat
      omega

end Offer

namespace Planner

/-! ## The loop -/

/-- The loop without a count of turns: as long as money and capacity last a batch is bought. -/
inductive Exhausts (o : Offer) (player : PlayerId) :
    Ledger → Capacity → PieceSource → List Piece → PieceSource → Prop
  | stop {ledger : Ledger} {capacity : Capacity} (source : PieceSource) :
      ¬(ledger.affords o = true ∧ capacity.fits o.quantity = true) →
      Exhausts o player ledger capacity source [] source
  | turn {ledger ledger' : Ledger} {capacity left : Capacity}
      {source source₁ source' : PieceSource} {batch rest : List Piece} :
      ledger.affords o = true → capacity.consume? o.quantity = some left →
      ledger.purchase o = .ok ledger' → o.materialize source player = .ok (batch, source₁) →
      Exhausts o player ledger' left source₁ rest source' →
      Exhausts o player ledger capacity source (batch ++ rest) source'

theorem buyRepeatedly_stop (source : PieceSource) (n : Nat)
    (hstop : ¬(ledger.affords o = true ∧ capacity.fits o.quantity = true)) :
    buyRepeatedly o player n ledger capacity source = (.ok [], source) := by
  cases n with
  | zero => rfl
  | succ n =>
    rw [buyRepeatedly]
    split
    · rename_i hafford
      cases hleft : capacity.consume? o.quantity with
      | none => rfl
      | some left =>
        exact absurd ⟨hafford, Capacity.exists_consume?_iff.mp ⟨left, hleft⟩⟩ hstop
    · rfl

/-- The loop, given so many turns, buys the greatest number of batches that is possible, and does so
without a count of turns. -/
structure BuysMost (o : Offer) (player : PlayerId) (n : Nat) (ledger : Ledger)
    (capacity : Capacity) (source : PieceSource) (k : Nat) : Prop where
  greatest : IsGreatest {m | o.Possible ledger.holdings capacity m} k
  bought : buyRepeatedly o player n ledger capacity source =
    (.ok (o.pieces player source.next (k * o.quantity)), ⟨source.next + k * o.quantity⟩)
  exhausts : Exhausts o player ledger capacity source
    (o.pieces player source.next (k * o.quantity)) ⟨source.next + k * o.quantity⟩

section

variable {source : PieceSource} (hcostly : o.Costly) (hunreserved : ledger.reserved = .empty)

include hcostly hunreserved

theorem BuysMost.of_stop (hnone : o.Possible ledger.holdings capacity 0)
    (hstop : ¬(ledger.affords o = true ∧ capacity.fits o.quantity = true)) :
    BuysMost o player n ledger capacity source 0 := by
  have hempty : o.pieces player source.next (0 * o.quantity) = [] := by
    rw [Nat.zero_mul]
    rfl
  refine ⟨⟨hnone, ?_⟩, ?_, ?_⟩
  · -- were more than none possible, one would be
    intro m hm
    refine Nat.le_of_not_lt fun hpos => hstop ?_
    exact (Offer.possible_one_iff hunreserved).mp (Offer.Possible.mono hm hcostly hpos)
  · rw [buyRepeatedly_stop source n hstop, hempty, Nat.zero_mul, Nat.add_zero]
  · rw [hempty, Nat.zero_mul, Nat.add_zero]
    exact .stop source hstop

omit hcostly hunreserved in
theorem BuysMost.turn (hquantity : 0 < o.quantity) (hafford : ledger.affords o = true)
    (hleft : capacity.consume? o.quantity = some left) (hpaid : ledger.purchase o = .ok ledger')
    (h : BuysMost o player n ledger' left ⟨source.next + o.quantity⟩ k) :
    BuysMost o player (n + 1) ledger capacity source (k + 1) := by
  have hmade := Offer.materialize_eq hquantity source player
  have hcount : (k + 1) * o.quantity = o.quantity + k * o.quantity := by
    rw [Nat.succ_mul, Nat.add_comm]
  refine ⟨Offer.isGreatest_succ hleft hpaid h.greatest, ?_, ?_⟩
  · rw [buyRepeatedly, if_pos hafford, hcount, ← Offer.pieces_append, ← Nat.add_assoc]
    simp only [hleft, hpaid, hmade, h.bought]
  · rw [hcount, ← Offer.pieces_append, ← Nat.add_assoc]
    exact .turn hafford hleft hpaid hmade h.exhausts

/-- As many turns as there are possible batches are enough. -/
theorem buyRepeatedly_buysMost (hquantity : 0 < o.quantity)
    (hnone : o.Possible ledger.holdings capacity 0)
    (hbound : ∀ m, o.Possible ledger.holdings capacity m → m ≤ n) :
    ∃ k, BuysMost o player n ledger capacity source k := by
  induction n generalizing ledger capacity source with
  | zero =>
    refine ⟨0, .of_stop hcostly hunreserved hnone fun hmore => ?_⟩
    exact absurd (hbound 1 ((Offer.possible_one_iff hunreserved).mpr hmore)) (by decide)
  | succ n ih =>
    by_cases hmore : ledger.affords o = true ∧ capacity.fits o.quantity = true
    · obtain ⟨hafford, hfits⟩ := hmore
      obtain ⟨left, hleft⟩ := Capacity.exists_consume?_iff.mpr hfits
      have hone := (Offer.possible_one_iff hunreserved).mpr ⟨hafford, hfits⟩
      obtain ⟨ledger', hpaid, hunreserved'⟩ :
          ∃ ledger', ledger.purchase o = .ok ledger' ∧ ledger'.reserved = .empty :=
        ⟨_, Ledger.purchase_eq_ok_iff.mpr ⟨hafford, rfl⟩, hunreserved⟩
      obtain ⟨k, hk⟩ : ∃ k, BuysMost o player n ledger' left ⟨source.next + o.quantity⟩ k :=
        ih hunreserved' ((Offer.possible_succ_iff hleft hpaid).mp hone) fun m hm =>
          Nat.le_of_succ_le_succ
            (hbound (m + 1) ((Offer.possible_succ_iff hleft hpaid).mpr hm))
      exact ⟨k + 1, hk.turn hquantity hafford hleft hpaid⟩
    · exact ⟨0, .of_stop hcostly hunreserved hnone hmore⟩

end

/-! ## The best offer -/

theorem bestDefender?_eq_none (h : bestDefender? ledger offers = none) (ho : o ∈ offers) :
    ¬(ledger.affords o = true ∧ .zero < o.defenseEfficiency) := by
  induction offers using List.reverseRecOn with
  | nil => cases ho
  | append_singleton offers last ih =>
    rw [bestDefender?_snoc] at h
    split at h
    · cases h
    · rename_i hlast
      rw [h] at hlast
      rcases List.mem_append.mp ho with ho | ho
      · exact ih h ho
      · obtain rfl := List.mem_singleton.mp ho
        exact fun hgood => hlast hgood.symm

theorem bestDefender?_foremost (h : bestDefender? ledger offers = some best) :
    Selection.Foremost Offer.defenseEfficiency
      (fun o => ledger.affords o = true ∧ .zero < o.defenseEfficiency) offers best := by
  induction offers using List.reverseRecOn generalizing best with
  | nil => cases h
  | append_singleton offers last ih =>
    rw [bestDefender?_snoc] at h
    cases hbefore : bestDefender? ledger offers with
    | none =>
      -- nothing before this one counts
      rw [hbefore] at h
      split at h
      · rename_i hgood
        obtain rfl : last = best := Option.some.inj h
        exact .snoc_lt hgood.symm fun o ho hcounts =>
          absurd hcounts (bestDefender?_eq_none hbefore ho)
      · cases h
    | some earlier =>
      have hearlier := ih hbefore
      rw [hbefore] at h
      split at h
      · rename_i hbetter
        obtain rfl : last = best := Option.some.inj h
        obtain ⟨hscore, hafford⟩ := hbetter
        refine .snoc_lt ⟨hafford, Int.lt_trans hearlier.holds.2 hscore⟩ fun o ho hcounts => ?_
        exact Int.lt_of_le_of_lt (hearlier.score_le ho hcounts) hscore
      · rename_i hnot
        obtain rfl : earlier = best := Option.some.inj h
        exact hearlier.snoc_le fun hcounts => Int.not_lt.mp fun hmore => hnot ⟨hmore, hcounts.1⟩

/-! ## The closed form -/

/-- An offer of which one batch may be placed by itself, can be paid from the start and scores for
defence. -/
structure Defends (s : Snapshot) (owner : Player) (player : PlayerId) (territory : TerritoryId)
    (o : Offer) : Prop where
  legal : ∃ batch source source', o.materialize source player = .ok (batch, source') ∧
    PlaceTurn.check s { player } territory batch = .ok ()
  affordable : owner.holdings.covers o.costs = true
  scores : .zero < o.defenseEfficiency

theorem defends_iff {owner : Player} :
    Defends s owner player territory o ↔ (Arbiter.ofRules s).Accepts territory player [] o ∧
      (Ledger.ofPlayer owner).affords o = true ∧ .zero < o.defenseEfficiency := by
  have hlegal : (Arbiter.ofRules s).Accepts territory player [] o ↔
      ∃ batch source source', o.materialize source player = .ok (batch, source') ∧
        PlaceTurn.check s { player } territory batch = .ok () := by
    unfold Arbiter.Accepts
    simp only [Arbiter.permits_eq_true_iff]
    rfl
  rw [hlegal]
  exact ⟨fun h => ⟨h.legal, h.affordable, h.scores⟩, fun ⟨h, h', h''⟩ => ⟨h, h', h''⟩⟩

/-- What may be placed on land by itself fits the capacity of the land. -/
theorem fits_of_check {t : Territory} {ps : List Piece} (ht : s.territory territory = .ok t)
    (hland : t.isWater = false) (hcapacity : s.capacity territory player = .ok capacity)
    (hcheck : PlaceTurn.check s { player } territory ps = .ok ()) :
    capacity.fits ps.length = true := by
  obtain ⟨t', hsuits, room, hroom, hfits, -⟩ := PlaceTurn.check_eq_ok_iff.mp hcheck
  obtain rfl : t = t' := Except.ok.inj (ht.symm.trans hsuits.territory)
  rw [PlaceTurn.roomFor_of_land hland, PlaceTurn.landRoom_eq_ok_iff] at hroom
  obtain ⟨-, c, hc, rfl⟩ := hroom
  obtain rfl : capacity = c := Except.ok.inj (hcapacity.symm.trans hc)
  rw [Room.fits_iff] at hfits
  exact Capacity.fits_mono hfits (Nat.le_add_left ..)

/-- Of an offer that can defend, as many batches are bought as possible, and at least one: it may be
placed alone, so that it fits, and it can be paid. -/
theorem Defends.exists_buysMost {t : Territory} {owner : Player}
    (h : Defends s owner player territory o) (ht : s.territory territory = .ok t)
    (hland : t.isWater = false) (hcapacity : s.capacity territory player = .ok capacity)
    (hquantity : 0 < o.quantity)
    (hmade : ∃ rule kind currency, o = .ofRule rule kind currency ∧
      ∀ e ∈ rule.costs.entries, 0 ≤ e.2) (source : PieceSource) :
    ∃ k, 1 ≤ k ∧ BuysMost o player (purchaseBound o owner.holdings capacity) (.ofPlayer owner)
      capacity source k := by
  obtain ⟨rule, kind, currency, rfl, hnonneg⟩ := hmade
  have hcostly : (Offer.ofRule rule kind currency).Costly := fun c n hn =>
    hnonneg (c, n) (SortedMap.get?_eq_some_iff.mp hn)
  have hunreserved : (Ledger.ofPlayer owner).reserved = .empty := rfl
  have hprice := Offer.exists_price_pos hcostly h.scores
  obtain ⟨batch, source₁, source₁', hbatch, hcheck⟩ := h.legal
  have hfits := fits_of_check ht hland hcapacity hcheck
  rw [Offer.length_of_materialize hbatch] at hfits
  have hone : (Offer.ofRule rule kind currency).Possible owner.holdings capacity 1 :=
    (Offer.possible_one_iff hunreserved).mpr ⟨h.affordable, hfits⟩
  obtain ⟨k, hk⟩ := buyRepeatedly_buysMost hcostly hunreserved hquantity
    (hone.mono hcostly (Nat.zero_le 1)) fun m hm => hm.le_purchaseBound hquantity hprice
  exact ⟨k, hk.greatest.2 hone, hk⟩

/-- How many defenders are bought on land. Let the offers be made by rules that pay nobody, in
batches that are not empty. Trying them may meet a fault; nothing else fails. If none of them can
defend, nothing is bought. Otherwise it is the greatest number of batches, at least one, of the
first offer that defends best, for which capacity and holdings suffice: so many consecutive new
pieces of its kind, numbered after those of the batches that were tried. The loop that buys them
ends by itself. -/
theorem maxDefenders_exhausts {t : Territory} {owner : Player}
    (ht : s.territory territory = .ok t) (hland : t.isWater = false)
    (howner : s.player player = .ok owner)
    (hcapacity : s.capacity territory player = .ok capacity)
    (hoffers : ∀ o ∈ offers, 0 < o.quantity ∧ ∃ rule kind currency, o = .ofRule rule kind currency ∧
      ∀ e ∈ rule.costs.entries, 0 ≤ e.2) (p : Planner) :
    (∃ f source, (Arbiter.ofRules s).permitted territory player [] offers p.source =
        (.error f, source) ∧
      p.maxDefenders s (.ofRules s) player territory offers = (.error f, { p with source })) ∨
    ∃ ps source, p.maxDefenders s (.ofRules s) player territory offers =
        (.ok ps, { p with source }) ∧
      ((∀ o ∈ offers, ¬Defends s owner player territory o) ∧ ps = [] ∨
        ∃ best k first, Selection.Foremost Offer.defenseEfficiency
            (Defends s owner player territory) offers best ∧
          1 ≤ k ∧ IsGreatest {m | best.Possible owner.holdings capacity m} k ∧
          ps = best.pieces player first (k * best.quantity) ∧
          first = p.source.next + (offers.map Offer.quantity).sum ∧
          source = ⟨first + k * best.quantity⟩ ∧
          Exhausts best player (.ofPlayer owner) capacity ⟨first⟩ ps source) := by
  unfold maxDefenders
  simp only [howner, hcapacity, bind, Except.bind, pure, Except.pure]
  cases hpermitted : (Arbiter.ofRules s).permitted territory player [] offers p.source with
  | mk outcome source =>
    cases outcome with
    | error f => exact .inl ⟨f, source, rfl, rfl⟩
    | ok batches =>
      right
      obtain rfl := Arbiter.source_of_permitted hpermitted
      simp only
      cases hbest : bestDefender? (.ofPlayer owner) (batches.map Prod.fst) with
      | none =>
        refine ⟨[], _, rfl, .inl ⟨fun o ho hdefends => ?_, rfl⟩⟩
        obtain ⟨haccepted, hcounts⟩ := defends_iff.mp hdefends
        refine bestDefender?_eq_none hbest ?_ hcounts
        classical
        rw [Arbiter.map_fst_permitted hpermitted]
        exact List.mem_filter.mpr ⟨ho, decide_eq_true haccepted⟩
      | some best =>
        have hfirst : Selection.Foremost Offer.defenseEfficiency
            (Defends s owner player territory) offers best :=
          (Arbiter.foremost_of_permitted hpermitted (bestDefender?_foremost hbest)).congr
            fun o _ => defends_iff.symm
        obtain ⟨hquantity, hmade⟩ := hoffers best hfirst.mem
        obtain ⟨k, hsome, hk⟩ := hfirst.holds.exists_buysMost ht hland hcapacity hquantity hmade
          ⟨p.source.next + (offers.map Offer.quantity).sum⟩
        have hholdings : (Ledger.ofPlayer owner).holdings = owner.holdings := rfl
        refine ⟨_, _, ?_, .inr ⟨best, k, _, hfirst, hsome, hk.greatest, rfl, rfl, rfl,
          hk.exhausts⟩⟩
        simp only [hholdings, hk.bought]

/-- A port makes five pieces, and there is money for six batches of two infantry. Infantry defends
better for its price than the tank that is offered first, and two batches of it fit. -/
theorem maxDefenders_exhausts_tankPorts :
    let s := Samples.tankPorts 5 2
    let tank : PieceKind := { id := Samples.tank, name := "tank", attack := 3, defense := 3 }
    let infantry : PieceKind := { id := Samples.infantry, name := "infantry", defense := 2 }
    let sale : Offer := .ofRule (Samples.saleOf "buyInfantry" Samples.infantry 2 5) infantry
      .productionUnits
    let offers : List Offer :=
      [.ofRule (Samples.saleOf "buyTank" Samples.tank 1 6) tank .productionUnits, sale]
    (∃ t, s.territory Samples.redCapital = .ok t ∧ t.isWater = false) ∧
      s.capacity Samples.redCapital Samples.red = .ok (.limited 5) ∧
      ∃ owner, s.player Samples.red = .ok owner ∧
        IsGreatest {m | sale.Possible owner.holdings (.limited 5) m} 2 ∧
        ∃ source, Samples.planner.maxDefenders s (.ofRules s) Samples.red Samples.redCapital
            offers = (.ok (sale.pieces Samples.red (PieceId.temporaryBase + 3) 4),
              { Samples.planner with source }) := by
  intro s tank infantry sale offers
  obtain ⟨t, ht, hland⟩ := Outcome.exists_of_toOption
    (show (s.territory Samples.redCapital).toOption.map Territory.isWater = some false by
      decide +kernel)
  obtain ⟨owner, howner, -⟩ := Outcome.exists_of_toOption
    (show (s.player Samples.red).toOption.map Player.placesAnywhere = some false by
      decide +kernel)
  have hcapacity : s.capacity Samples.redCapital Samples.red = .ok (.limited 5) := by
    decide +kernel
  have hoffers : ∀ o ∈ offers, 0 < o.quantity ∧
      ∃ rule kind currency, o = .ofRule rule kind currency ∧ ∀ e ∈ rule.costs.entries, 0 ≤ e.2 := by
    intro o ho
    rcases List.mem_cons.mp ho with rfl | ho
    · exact ⟨by decide +kernel, _, _, _, rfl, by decide +kernel⟩
    · obtain rfl := List.mem_singleton.mp ho
      exact ⟨by decide +kernel, _, _, _, rfl, by decide +kernel⟩
  have hread : (Samples.planner.maxDefenders s (.ofRules s) Samples.red Samples.redCapital
      offers).1.toOption.map (List.map Piece.kind) = some (.replicate 4 Samples.infantry) := by
    decide +kernel
  refine ⟨⟨t, ht, hland⟩, hcapacity, owner, howner, ?_⟩
  rcases maxDefenders_exhausts ht hland howner hcapacity hoffers Samples.planner with
    ⟨f, source, -, hfault⟩ |
      ⟨ps, source, hps, ⟨-, rfl⟩ | ⟨best, k, first, hfirst, -, hgreatest, rfl, rfl, rfl, -⟩⟩
  · rw [hfault] at hread
    cases hread
  · rw [hps] at hread
    cases hread
  · -- four infantry are two batches of the second offer
    rw [hps] at hread
    obtain ⟨hcount, hkind⟩ := List.replicate_inj.mp
      ((Offer.map_kind_pieces ..).symm.trans (Option.some.inj hread))
    rcases List.mem_cons.mp hfirst.mem with rfl | hsale
    · exact absurd (hkind.resolve_left (by omega)) (by decide)
    · obtain rfl := List.mem_singleton.mp hsale
      have hquantity : sale.quantity = 2 := by decide +kernel
      rw [hquantity] at hcount
      obtain rfl : k = 2 := by omega
      have htried : (offers.map Offer.quantity).sum = 3 := by decide +kernel
      rw [hquantity, htried] at hps
      exact ⟨hgreatest, _, hps⟩

end Planner

end Quartermaster
