import Quartermaster.Proofs.Board
import Quartermaster.Proofs.Outcome
import Quartermaster.Samples

/-!
# Sorting by price

Every piece is priced before the first slot is written. So either all pieces have a price, and the
slots end up as `Snapshot.Arranged` says: the cheapest first, and pieces of one price in their old
order. Or the slots stay as they are, and the fault is that of the first piece without a price.
`Snapshot.arrangeByCost_outcome` states both.

A piece is without a price if nobody knows its kind or its owner, or if the rule for it makes more
pieces than a price is divided by (`Snapshot.Unpriced`). The pieces of a rule are counted before
they are compared with that bound. So a rule that makes more than a word can count is never found
to make too many: the count overflows first (`Snapshot.arrangeByCost_overflows_flood`).
-/

namespace Quartermaster

/-! ## The output of a rule -/

namespace ProductionRule

/-- All pieces that one purchase makes, however many. -/
def output (r : ProductionRule) : Nat := r.results.values.foldr (· + ·) 0

theorem totalResults_eq (r : ProductionRule) :
    r.totalResults =
      if r.output < wordValues 32 then .ok r.output else .error (.overflow .addition) :=
  Checked.sum_eq r.results.values

end ProductionRule

/-! ## Lists sorted by a key -/

/-- Items of one key keep their order in a sorted list. -/
theorem filter_mergeSort {α κ : Type} [DecidableEq κ] (key : α → κ) {le : α → α → Bool}
    (htrans : ∀ a b c, le a b → le b c → le a c) (htotal : ∀ a b, le a b || le b a)
    (hkey : ∀ a b, key a = key b → le a b) (k : κ) (as : List α) :
    (as.mergeSort le).filter (fun a => decide (key a = k)) =
      as.filter fun a => decide (key a = k) := by
  have hsub : (as.filter fun a => decide (key a = k)).Sublist (as.mergeSort le) := by
    refine List.sublist_mergeSort htrans htotal ?_ List.filter_sublist
    refine List.pairwise_of_forall_mem_list fun a ha b hb => hkey a b ?_
    rw [of_decide_eq_true (List.mem_filter.mp ha).2, of_decide_eq_true (List.mem_filter.mp hb).2]
  -- the items of the key are found in the sorted list, and there are no more of them in it
  have hwithin := hsub.filter fun a => decide (key a = k)
  rw [List.filter_filter, funext fun a => Bool.and_self _] at hwithin
  exact (hwithin.eq_of_length ((List.mergeSort_perm as le).filter _).length_eq.symm).symm

namespace Snapshot

variable {s : Snapshot} {currency : ResourceId} {p : Piece} {slots : List Piece}
  {priced : List (Fixed × Piece)}

/-! ## Prices -/

/-- Why no price can be told for a piece, and in what fault that ends: its kind or its owner is
unknown; the first rule of its owner for the kind makes more pieces than a price is divided by; or
that rule makes more than a word can count. -/
inductive Unpriced (s : Snapshot) (p : Piece) : Fault → Prop
  | kind (h : ∀ k, s.kind p.kind ≠ .ok k) : Unpriced s p (.unknownKind p.kind)
  | owner {k : PieceKind} (hk : s.kind p.kind = .ok k) (h : ∀ owner, s.player p.owner ≠ .ok owner) :
      Unpriced s p (.unknownPlayer p.owner)
  | output {k : PieceKind} {owner : Player} {rule : ProductionRule} (hk : s.kind p.kind = .ok k)
      (howner : s.player p.owner = .ok owner) (hrule : owner.ruleFor? p.kind = some rule)
      (h : strengthLimit < rule.output) (hword : rule.output < wordValues 32) :
      Unpriced s p (.excessiveOutput rule.name)
  | overflow {k : PieceKind} {owner : Player} {rule : ProductionRule} (hk : s.kind p.kind = .ok k)
      (howner : s.player p.owner = .ok owner) (hrule : owner.ruleFor? p.kind = some rule)
      (hword : wordValues 32 ≤ rule.output) : Unpriced s p (.overflow .addition)

theorem ownerCost_of_kind {f : Fault} (hk : s.kind p.kind = .error f) :
    s.ownerCost p currency = .error f := by
  simp only [ownerCost, pieceCost, ruleFor?, hk]
  rfl

section

variable {k : PieceKind} (hk : s.kind p.kind = .ok k)

include hk

theorem ownerCost_of_owner {f : Fault} (howner : s.player p.owner = .error f) :
    s.ownerCost p currency = .error f := by
  simp only [ownerCost, pieceCost, ruleFor?, hk, howner]
  rfl

variable {owner : Player} (howner : s.player p.owner = .ok owner)

include howner

theorem ownerCost_of_noRule (hrule : owner.ruleFor? p.kind = none) :
    s.ownerCost p currency = .ok (.ofInt k.value) := by
  simp only [ownerCost, pieceCost, ruleFor?, hk, howner, bind, Except.bind, pure, Except.pure,
    hrule]

theorem ownerCost_of_rule {rule : ProductionRule} (hrule : owner.ruleFor? p.kind = some rule) :
    s.ownerCost p currency =
      if wordValues 32 ≤ rule.output then .error (.overflow .addition)
      else if strengthLimit < rule.output then .error (.excessiveOutput rule.name)
      else .ok (.ratio (rule.costs.get currency) rule.output) := by
  simp only [ownerCost, pieceCost, ruleFor?, hk, howner, bind, Except.bind, pure, Except.pure,
    hrule, rule.totalResults_eq]
  by_cases hword : rule.output < wordValues 32
  · rw [if_pos hword, if_neg (Nat.not_le.mpr hword)]
    dsimp only
    split <;> rfl
  · rw [if_neg hword, if_pos (Nat.not_lt.mp hword)]

end

theorem ownerCost_of_unpriced {f : Fault} (h : s.Unpriced p f) :
    s.ownerCost p currency = .error f := by
  cases h with
  | kind h =>
    refine ownerCost_of_kind ?_
    rcases hget : s.roster.kinds.get? p.kind with _ | k
    · simp only [Snapshot.kind, Roster.kind, hget]
    · exact absurd (kind_eq_ok_iff.mpr hget) (h k)
  | owner hk h =>
    refine ownerCost_of_owner hk ?_
    rcases hget : s.players.get? p.owner with _ | owner
    · simp only [Snapshot.player, hget]
    · exact absurd (player_eq_ok_iff.mpr hget) (h owner)
  | output hk howner hrule h hword =>
    rw [ownerCost_of_rule hk howner hrule, if_neg (Nat.not_le.mpr hword), if_pos h]
  | overflow hk howner hrule hword => rw [ownerCost_of_rule hk howner hrule, if_pos hword]

/-- A piece has a price or is one of the unpriced. -/
theorem ownerCost_cases (s : Snapshot) (p : Piece) (currency : ResourceId) :
    (∃ cost, s.ownerCost p currency = .ok cost) ∨ ∃ f, s.Unpriced p f := by
  by_cases hkind : ∃ k, s.kind p.kind = .ok k
  case neg => exact .inr ⟨_, .kind (not_exists.mp hkind)⟩
  by_cases hplayer : ∃ owner, s.player p.owner = .ok owner
  case neg =>
    obtain ⟨k, hk⟩ := hkind
    exact .inr ⟨_, .owner hk (not_exists.mp hplayer)⟩
  obtain ⟨k, hk⟩ := hkind
  obtain ⟨owner, howner⟩ := hplayer
  cases hrule : owner.ruleFor? p.kind with
  | none => exact .inl ⟨_, ownerCost_of_noRule hk howner hrule⟩
  | some rule =>
    by_cases hword : wordValues 32 ≤ rule.output
    · exact .inr ⟨_, .overflow hk howner hrule hword⟩
    by_cases hmany : strengthLimit < rule.output
    · exact .inr ⟨_, .output hk howner hrule hmany (Nat.not_le.mp hword)⟩
    · rw [ownerCost_of_rule hk howner hrule, if_neg hword, if_neg hmany]
      exact .inl ⟨_, rfl⟩

/-- A price ends in a fault exactly if the piece is unpriced for it. -/
theorem ownerCost_eq_error_iff {f : Fault} :
    s.ownerCost p currency = .error f ↔ s.Unpriced p f := by
  refine ⟨fun h => ?_, ownerCost_of_unpriced⟩
  rcases ownerCost_cases s p currency with ⟨cost, hcost⟩ | ⟨f', hf'⟩
  · rw [h] at hcost
    cases hcost
  · obtain rfl : f = f' := Except.error.inj (h.symm.trans (ownerCost_of_unpriced hf'))
    exact hf'

theorem pricePieces_eq_ok_iff : s.pricePieces slots currency = .ok priced ↔
    priced.map Prod.snd = slots ∧ ∀ e ∈ priced, s.ownerCost e.2 currency = .ok e.1 := by
  unfold pricePieces
  rw [Outcome.mapM_eq_ok_iff]
  constructor
  · intro h
    induction h with
    | nil => simp
    | cons he _ ih =>
      obtain ⟨cost, hcost, he⟩ := Outcome.bind_eq_ok_iff.mp he
      obtain rfl := Outcome.pure_eq_ok_iff.mp he
      exact ⟨congrArg _ ih.1, List.forall_mem_cons.mpr ⟨hcost, ih.2⟩⟩
  · rintro ⟨rfl, hcosts⟩
    rw [List.forall₂_map_left_iff]
    apply List.forall₂_same.mpr
    intro e he
    exact Outcome.bind_eq_ok_iff.mpr ⟨e.1, hcosts e he, rfl⟩

theorem exists_entry_iff :
    (∃ e, (do return (← s.ownerCost p currency, p) : Except Fault (Fixed × Piece)) = .ok e) ↔
      ∃ cost, s.ownerCost p currency = .ok cost :=
  Outcome.exists_bind_pure_iff

theorem exists_pricePieces_iff : (∃ priced, s.pricePieces slots currency = .ok priced) ↔
    ∀ p ∈ slots, ∃ cost, s.ownerCost p currency = .ok cost :=
  Outcome.exists_mapM_eq_ok_iff.trans (forall₂_congr fun _ _ => exists_entry_iff)

/-- Pricing ends at the first piece without a price, with the fault of that piece. -/
theorem split_of_pricePieces_error {f : Fault} (h : s.pricePieces slots currency = .error f) :
    ∃ before p after, slots = before ++ p :: after ∧
      (∀ q ∈ before, ∃ cost, s.ownerCost q currency = .ok cost) ∧ s.Unpriced p f := by
  obtain ⟨before, p, after, hslots, hbefore, hfault⟩ := Outcome.mapM_split_of_error h
  have hcost : s.ownerCost p currency = .error f := by
    cases hcost : s.ownerCost p currency with
    | ok cost =>
      rw [hcost] at hfault
      cases hfault
    | error f' =>
      rw [hcost] at hfault
      exact congrArg _ (Except.error.inj hfault)
  exact ⟨before, p, after, hslots, fun q hq => exists_entry_iff.mp (hbefore q hq),
    ownerCost_eq_error_iff.mp hcost⟩

/-! ## Slots -/

theorem refill_eq {ps : List Piece} (h : ps.length = slots.length) : refill slots ps = ps := by
  induction slots generalizing ps with
  | nil => rw [List.length_eq_zero_iff.mp h, refill]; simp
  | cons slot slots ih =>
    cases ps with
    | nil => cases h
    | cons p ps => rw [refill, ih (Nat.succ.inj h)]

/-- Pieces are put in order of price: none is lost or doubled, the prices never decrease, and the
pieces of any one price follow each other as before. -/
structure Arranged (s : Snapshot) (currency : ResourceId) (before after : List Piece) : Prop where
  perm : after.Perm before
  ascending : ∃ costs, List.Forall₂ (fun p cost => s.ownerCost p currency = .ok cost) after costs ∧
    costs.Pairwise (· ≤ ·)
  stable : ∀ cost, (after.filter fun p => decide (s.ownerCost p currency = .ok cost)) =
    before.filter fun p => decide (s.ownerCost p currency = .ok cost)

theorem noDearer_iff {a b : Fixed × Piece} : noDearer a b = true ↔ a.1 ≤ b.1 :=
  decide_eq_true_iff

theorem noDearer_trans (a b c : Fixed × Piece) (hab : noDearer a b) (hbc : noDearer b c) :
    noDearer a c := by
  rw [noDearer_iff] at *
  exact Int.le_trans hab hbc

theorem noDearer_total (a b : Fixed × Piece) : noDearer a b || noDearer b a := by
  rw [Bool.or_eq_true, noDearer_iff, noDearer_iff]
  exact Int.le_total a.1.bits b.1.bits

theorem noDearer_of_eq (a b : Fixed × Piece) (h : a.1 = b.1) : noDearer a b := by
  rw [noDearer_iff, h]
  exact Int.le_refl b.1.bits

/-- Sorting pieces by the prices before them arranges the pieces. -/
theorem arranged_of_priced (hcosts : ∀ e ∈ priced, s.ownerCost e.2 currency = .ok e.1) :
    s.Arranged currency (priced.map Prod.snd) ((priced.mergeSort noDearer).map Prod.snd) := by
  have hperm := List.mergeSort_perm priced noDearer
  have hsorted := List.pairwise_mergeSort noDearer_trans noDearer_total priced
  -- to pick the pieces of a price is to pick the entries with it
  have hpick : ∀ (entries : List (Fixed × Piece)) (cost : Fixed), (∀ e ∈ entries, e ∈ priced) →
      ((entries.map Prod.snd).filter fun p => decide (s.ownerCost p currency = .ok cost)) =
        (entries.filter fun e => decide (e.1 = cost)).map Prod.snd := by
    intro entries cost hentries
    rw [List.filter_map]
    refine congrArg _ (List.filter_congr fun e he => ?_)
    simp [hcosts e (hentries e he)]
  constructor
  case perm => exact hperm.map _
  case ascending =>
    refine ⟨(priced.mergeSort noDearer).map Prod.fst, ?_, ?_⟩
    · rw [List.forall₂_map_left_iff, List.forall₂_map_right_iff]
      apply List.forall₂_same.mpr
      intro e he
      exact hcosts e (hperm.mem_iff.mp he)
    · exact hsorted.map Prod.fst fun a b => noDearer_iff.mp
  case stable =>
    intro cost
    rw [hpick _ cost fun e he => hperm.mem_iff.mp he, hpick _ cost fun e he => he,
      filter_mergeSort Prod.fst noDearer_trans noDearer_total noDearer_of_eq]

theorem arrangeByCost_of_priced (h : s.pricePieces slots currency = .ok priced) :
    s.arrangeByCost slots currency =
      (.ok (), (priced.mergeSort noDearer).map Prod.snd) := by
  have hlength : ((priced.mergeSort noDearer).map Prod.snd).length = slots.length := by
    rw [List.length_map, List.length_mergeSort, ← (pricePieces_eq_ok_iff.mp h).1, List.length_map]
  simp only [arrangeByCost, h, refill_eq hlength]

/-- If every piece has a price then sorting by price arranges the slots. If there is one without,
then the fault is that of the first such piece, and nothing is moved. -/
theorem arrangeByCost_outcome (s : Snapshot) (slots : List Piece) (currency : ResourceId) :
    (∀ p f, s.ownerCost p currency = .error f ↔ s.Unpriced p f) ∧
      ((∀ p ∈ slots, ∃ cost, s.ownerCost p currency = .ok cost) →
        ∃ after, s.arrangeByCost slots currency = (.ok (), after) ∧
          s.Arranged currency slots after) ∧
      ((∃ p ∈ slots, ∃ f, s.Unpriced p f) →
        ∃ before p after f, slots = before ++ p :: after ∧
          (∀ q ∈ before, ∃ cost, s.ownerCost q currency = .ok cost) ∧ s.Unpriced p f ∧
          s.arrangeByCost slots currency = (.error f, slots)) := by
  refine ⟨fun p f => ownerCost_eq_error_iff, fun hpriced => ?_, fun ⟨p, hp, f, hunpriced⟩ => ?_⟩
  · obtain ⟨priced, h⟩ := exists_pricePieces_iff.mpr hpriced
    refine ⟨_, arrangeByCost_of_priced h, ?_⟩
    obtain ⟨rfl, hcosts⟩ := pricePieces_eq_ok_iff.mp h
    exact arranged_of_priced hcosts
  · cases h : s.pricePieces slots currency with
    | ok priced =>
      obtain ⟨cost, hcost⟩ := exists_pricePieces_iff.mp ⟨priced, h⟩ p hp
      rw [ownerCost_of_unpriced hunpriced] at hcost
      cases hcost
    | error f =>
      obtain ⟨before, p, after, hslots, hbefore, hfirst⟩ := split_of_pricePieces_error h
      exact ⟨before, p, after, f, hslots, hbefore, hfirst, by rw [arrangeByCost, h]⟩

/-- A batch so great that no word can count it. -/
def flood : ProductionRule where
  name := "buyFlood"
  costs := Samples.price 12
  results := .ofList [(Samples.infantry, wordValues 32 - 1), (Samples.tank, 2)]

/-- The first rule for infantry makes far too many pieces, but sorting infantry ends in an overflow
before that is found. -/
theorem arrangeByCost_overflows_flood :
    let s := Samples.singleFactory 2 20 [flood]
    let infantry := Samples.piece 1 Samples.infantry Samples.red
    s.ruleFor? Samples.infantry Samples.red = .ok (some flood) ∧
      strengthLimit < (flood.output : Int) ∧
      s.arrangeByCost [infantry] .productionUnits =
        (.error (.overflow .addition), [infantry]) := by
  intro s infantry
  refine ⟨by decide, by decide, by decide +kernel⟩

end Snapshot

end Quartermaster
