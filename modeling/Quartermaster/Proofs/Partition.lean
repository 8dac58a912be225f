import Mathlib.Data.List.Find
import Quartermaster.Proofs.Frontier
import Quartermaster.Samples

/-!
# The catalog as a partition of the frontier

A catalog is filled rule by rule, and each offer goes to the end of its category. So the offers of
the frontier, in its order, are the whole catalog: each category keeps those of its own
(`exists_offers_of_ofFrontier`), and since a kind belongs to one category, searching the categories
one after the other finds what a search of the frontier would find (`Catalog.Parts.find?_eq`).
`ofFrontier_partitions` puts this together, and sets the catalog beside the other way of looking a
kind up, by the rules themselves.
-/

namespace Quartermaster

/-! ## Lists parted by a key -/

/-- If every item has one of the keys, then the items of the several keys are all items. -/
theorem flatMap_filter_perm {α κ : Type} [DecidableEq κ] (f : α → κ) {ks : List κ}
    {as : List α} (hks : ks.Nodup) (has : ∀ a ∈ as, f a ∈ ks) :
    (ks.flatMap fun k => as.filter fun a => f a == k).Perm as := by
  induction ks generalizing as with
  | nil =>
    rw [List.eq_nil_iff_forall_not_mem.mpr fun a ha => List.not_mem_nil (has a ha)]
    exact .nil
  | cons k ks ih =>
    obtain ⟨hk, hrest⟩ := List.nodup_cons.mp hks
    -- the items of the other keys are found among those that are not of the first
    have hothers : ∀ k' ∈ ks, (as.filter fun a => f a == k') =
        (as.filter fun a => !(f a == k)).filter fun a => f a == k' := by
      intro k' hk'
      rw [List.filter_filter]
      refine List.filter_congr fun a _ => ?_
      by_cases ha : f a = k'
      · have hne : f a ≠ k := fun h => hk (h ▸ ha ▸ hk')
        simp [ha, ha ▸ hne]
      · simp [ha]
    have hleft : ∀ a ∈ as.filter (fun a => !(f a == k)), f a ∈ ks := by
      intro a ha
      obtain ⟨ha, hne⟩ := List.mem_filter.mp ha
      exact (List.mem_cons.mp (has a ha)).resolve_left (by simpa using hne)
    rw [List.flatMap_cons, List.flatMap_congr hothers]
    exact ((ih hrest hleft).append_left _).trans (List.filter_append_perm (fun a => f a == k) as)

/-! ## Rules -/

namespace ProductionRule

variable {r : ProductionRule} {kind other : KindId}

/-- Of the kinds that a rule makes, this is the lowest. -/
structure Leads (r : ProductionRule) (kind : KindId) : Prop where
  makes : 0 < r.quantityOf kind
  lowest : ∀ other, 0 < r.quantityOf other → Key.lt other kind = false

/-- A rule makes no more than one kind. -/
def Plain (r : ProductionRule) : Prop :=
  ∀ kind other, 0 < r.quantityOf kind → 0 < r.quantityOf other → kind = other

/-- Whether a rule makes anything. -/
def isProductive (r : ProductionRule) : Bool := r.results.values.any fun n => decide (0 < n)

theorem quantityOf_pos_iff : 0 < r.quantityOf kind ↔ ∃ n, (kind, n) ∈ r.results.entries ∧ 0 < n := by
  simp only [← SortedMap.get?_eq_some_iff]
  unfold quantityOf
  cases r.results.get? kind <;> simp

theorem isProductive_iff : r.isProductive = true ↔ ∃ kind, 0 < r.quantityOf kind := by
  simp only [quantityOf_pos_iff]
  simp [isProductive, SortedMap.values]

theorem Leads.eq (h : r.Leads kind) (h' : r.Leads other) : kind = other :=
  Key.eq_of_not_lt (h'.lowest kind h.makes) (h.lowest other h'.makes)

theorem leads_of_firstResult? (h : r.firstResult? = some kind) : r.Leads kind := by
  obtain ⟨e, he, rfl⟩ := Option.map_eq_some_iff.mp h
  obtain ⟨hpos, before, after, hsplit, hbefore⟩ := List.find?_eq_some_iff_append.mp he
  refine ⟨quantityOf_pos h, fun other hother => ?_⟩
  obtain ⟨n, hmem, hn⟩ := quantityOf_pos_iff.mp hother
  rw [hsplit] at hmem
  rcases List.mem_append.mp hmem with hmem | hmem
  · have hnone := hbefore _ hmem
    simp [hn] at hnone
  · rcases List.mem_cons.mp hmem with rfl | hmem
    · exact Key.lt_irrefl _
    · have hascending := r.results.ascending
      rw [hsplit] at hascending
      obtain ⟨-, hrest, -⟩ := List.pairwise_append.mp hascending
      exact Key.lt_asymm ((List.pairwise_cons.mp hrest).1 _ hmem)

theorem exists_firstResult? (h : 0 < r.quantityOf kind) : ∃ lead, r.firstResult? = some lead := by
  obtain ⟨n, hmem, hn⟩ := quantityOf_pos_iff.mp h
  cases hfind : r.results.entries.find? fun e => decide (0 < e.2) with
  | none => exact absurd (decide_eq_true hn) (List.find?_eq_none.mp hfind _ hmem)
  | some e => exact ⟨e.1, by rw [firstResult?, hfind]; rfl⟩

theorem firstResult?_eq_some_iff : r.firstResult? = some kind ↔ r.Leads kind := by
  refine ⟨leads_of_firstResult?, fun h => ?_⟩
  obtain ⟨lead, hlead⟩ := exists_firstResult? h.makes
  rw [hlead, (leads_of_firstResult? hlead).eq h]

instance (r : ProductionRule) (kind : KindId) : Decidable (r.Leads kind) :=
  decidable_of_iff (r.firstResult? = some kind) firstResult?_eq_some_iff

instance (r : ProductionRule) : Decidable r.Plain :=
  decidable_of_iff (∀ e ∈ r.results.entries, ∀ e' ∈ r.results.entries,
      0 < e.2 → 0 < e'.2 → e.1 = e'.1) <| by
    simp only [Plain, quantityOf_pos_iff]
    constructor
    · rintro h kind other ⟨n, hmem, hn⟩ ⟨n', hmem', hn'⟩
      exact h _ hmem _ hmem' hn hn'
    · intro h e he e' he' hn hn'
      exact h e.1 e'.1 ⟨e.2, he, hn⟩ ⟨e'.2, he', hn'⟩

theorem firstResult?_eq_none_iff : r.firstResult? = none ↔ r.isProductive = false := by
  rw [← Bool.not_eq_true, isProductive_iff]
  constructor
  · rintro hnone ⟨kind, hkind⟩
    obtain ⟨lead, hlead⟩ := exists_firstResult? hkind
    rw [hnone] at hlead
    cases hlead
  · intro hnot
    cases hfirst : r.firstResult? with
    | none => rfl
    | some lead => exact absurd ⟨lead, quantityOf_pos hfirst⟩ hnot

/-- A rule that makes one kind at most leads with any kind that it makes. -/
theorem Plain.leads_iff (h : r.Plain) : r.Leads kind ↔ 0 < r.quantityOf kind := by
  refine ⟨Leads.makes, fun hmakes => ⟨hmakes, fun other hother => ?_⟩⟩
  rw [h other kind hother hmakes]
  exact Key.lt_irrefl _

end ProductionRule

/-! ## Offers -/

/-- What a rule offers: a batch of the lowest kind that it makes. -/
structure Offer.IsOf (o : Offer) (r : ProductionRule) (s : Snapshot) (currency : ResourceId) :
    Prop where
  leads : r.Leads o.kind
  batch : 0 < o.quantity
  made : ∃ k, s.kind o.kind = .ok k ∧ o = .ofRule r k currency

namespace Offer

variable {s : Snapshot} {currency : ResourceId} {r r' : ProductionRule} {o o' : Offer}

theorem isOf_ofRule (hs : s.roster.Keyed) {kind : KindId} {k : PieceKind} (h : r.Leads kind)
    (hk : s.kind kind = .ok k) : (ofRule r k currency).IsOf r s currency := by
  have hid := Snapshot.kind_id_of_keyed hs hk
  subst hid
  exact ⟨h, h.makes, k, hk, rfl⟩

/-- A kind belongs to one category. -/
theorem IsOf.category_eq (h : o.IsOf r s currency) (h' : o'.IsOf r' s currency)
    (hkind : o.kind = o'.kind) : o.category = o'.category := by
  obtain ⟨k, hk, hmade⟩ := h.made
  obtain ⟨k', hk', hmade'⟩ := h'.made
  rw [hkind] at hk
  obtain rfl : k = k' := Except.ok.inj (hk.symm.trans hk')
  rw [hmade, hmade']
  rfl

end Offer

namespace Catalog

variable {s : Snapshot} {player : PlayerId} {currency : ResourceId} {c catalog : Catalog}
  {rules : List ProductionRule} {os : List Offer}

/-- Each category holds those offers of a list that belong to it, in the order of the list. -/
def Parts (c : Catalog) (os : List Offer) : Prop :=
  ∀ category, c.offers category = os.filter fun o => decide (o.category = category)

/-- Each productive rule adds its offer behind those of its category. -/
theorem exists_offers_of_insertRules (hs : s.roster.Keyed)
    (h : insertRules s currency c rules = .ok catalog) :
    ∃ os, List.Forall₂ (fun r o => o.IsOf r s currency) (rules.filter (·.isProductive)) os ∧
      ∀ category, catalog.offers category =
        c.offers category ++ os.filter fun o => decide (o.category = category) := by
  induction rules generalizing c with
  | nil =>
    obtain rfl : c = catalog := by simpa [insertRules] using h
    exact ⟨[], .nil, fun category => (List.append_nil _).symm⟩
  | cons r rs ih =>
    rw [insertRules] at h
    cases hfirst : r.firstResult? with
    | none =>
      simp only [hfirst] at h
      rw [List.filter_cons_of_neg]
      · exact ih h
      · rw [ProductionRule.firstResult?_eq_none_iff.mp hfirst]
        exact Bool.false_ne_true
    | some kind =>
      simp only [hfirst] at h
      obtain ⟨k, hk, h⟩ := Outcome.bind_eq_ok_iff.mp h
      obtain ⟨os, hos, hparts⟩ := ih h
      have hleads := ProductionRule.firstResult?_eq_some_iff.mp hfirst
      refine ⟨.ofRule r k currency :: os, ?_, fun category => ?_⟩
      · rw [List.filter_cons_of_pos]
        · exact .cons (Offer.isOf_ofRule hs hleads hk) hos
        · exact ProductionRule.isProductive_iff.mpr ⟨kind, hleads.makes⟩
      · rw [hparts, offers_insert, List.append_assoc, List.filter_cons]
        by_cases hcategory : (Offer.ofRule r k currency).category = category <;> simp [hcategory]

theorem exists_offers_of_ofFrontier (hs : s.roster.Keyed) {p : Player}
    (hp : s.player player = .ok p) (h : ofFrontier s player currency = .ok catalog) :
    ∃ os, List.Forall₂ (fun r o => o.IsOf r s currency) (p.frontier.filter (·.isProductive)) os ∧
      catalog.Parts os := by
  obtain ⟨p', hp', h⟩ := Outcome.bind_eq_ok_iff.mp h
  obtain rfl : p = p' := Except.ok.inj (hp.symm.trans hp')
  obtain ⟨os, hos, hparts⟩ := exists_offers_of_insertRules hs h
  refine ⟨os, hos, fun category => (hparts category).trans ?_⟩
  cases category <;> rfl

/-- Nothing is lost or doubled by sorting into categories. -/
theorem Parts.perm (h : catalog.Parts os) : catalog.toList.Perm os := by
  have hparts : catalog.toList = [Category.land, .air, .sea, .factory].flatMap fun category =>
      os.filter fun o => o.category == category := by
    simp only [List.flatMap_cons, List.flatMap_nil, List.append_nil, beq_eq_decide, ← h _, toList,
      List.append_assoc]
    rfl
  rw [hparts]
  refine flatMap_filter_perm Offer.category (by decide) fun o _ => ?_
  cases o.category <;> decide

/-- Where the first offer of a kind is in a category, that is where the catalog has it, and the
other categories have none. -/
theorem Parts.find?_offers (h : catalog.Parts os)
    (hone : ∀ o ∈ os, ∀ o' ∈ os, o.kind = o'.kind → o.category = o'.category) {kind : KindId}
    {o : Offer} (ho : os.find? (fun o => o.kind == kind) = some o) (category : Category) :
    (catalog.offers category).find? (fun o => o.kind == kind) =
      if o.category = category then some o else none := by
  have hkind : o.kind = kind := by simpa using List.find?_some ho
  have hshared : ∀ o' ∈ os, o'.kind = kind → o'.category = o.category := fun o' ho' hkind' =>
    hone o' ho' o (List.mem_of_find?_eq_some ho) (hkind'.trans hkind.symm)
  rw [h, List.find?_filter]
  split
  · rename_i hcategory
    rw [← ho]
    refine List.find?_congr fun o' ho' => ?_
    by_cases hkind' : o'.kind = kind
    · simp [hkind', hshared o' ho' hkind', hcategory]
    · simp [hkind']
  · rename_i hcategory
    refine List.find?_eq_none.mpr fun o' ho' => ?_
    simp only [decide_eq_true_eq, beq_iff_eq]
    rintro ⟨hcategory', hkind'⟩
    exact hcategory ((hshared o' ho' hkind').symm.trans hcategory')

/-- To search one category after the other is to search the offers in their own order. -/
theorem Parts.find?_eq (h : catalog.Parts os)
    (hone : ∀ o ∈ os, ∀ o' ∈ os, o.kind = o'.kind → o.category = o'.category) (kind : KindId) :
    catalog.find? kind = os.find? fun o => o.kind == kind := by
  cases hfind : os.find? fun o => o.kind == kind with
  | none =>
    refine List.find?_eq_none.mpr fun o ho => ?_
    exact List.find?_eq_none.mp hfind o (h.perm.mem_iff.mp ho)
  | some o =>
    have hpart := h.find?_offers hone hfind
    have hland := hpart .land
    have hair := hpart .air
    have hsea := hpart .sea
    have hfactory := hpart .factory
    simp only [offers] at hland hair hsea hfactory
    rw [find?, toList, List.find?_append, List.find?_append, List.find?_append, hland, hair, hsea,
      hfactory]
    cases o.category <;> rfl

/-- Searches of two lists item by item alike end at items that are alike. -/
theorem rel_find? {α β : Type} {R : α → β → Prop} {p : α → Bool} {q : β → Bool} {as : List α}
    {bs : List β} (h : List.Forall₂ R as bs) (hpq : ∀ a b, R a b → p a = q b) :
    Option.Rel R (as.find? p) (bs.find? q) := by
  induction h with
  | nil => exact .none
  | cons hab _ ih =>
    rw [List.find?_cons, List.find?_cons, hpq _ _ hab]
    split
    · exact .some hab
    · exact ih

theorem exists_isOf_of_mem (h : List.Forall₂ (fun r o => o.IsOf r s currency) rules os) {o : Offer}
    (ho : o ∈ os) : ∃ r, o.IsOf r s currency := by
  induction h with
  | nil => cases ho
  | cons hof _ ih =>
    rcases List.mem_cons.mp ho with rfl | ho
    · exact ⟨_, hof⟩
    · exact ih ho

/-- A catalog holds the offers of the productive rules of a frontier and no others: each rule's for
the lowest kind that it makes, in the category of that kind, in the order of the frontier. It finds
for a kind the offer of the first rule that leads with it. If the rules make one kind each, then
that is the rule that the frontier itself finds for the kind. -/
theorem ofFrontier_partitions (hs : s.roster.Keyed)
    (h : ofFrontier s player currency = .ok catalog) :
    ∃ p os, s.player player = .ok p ∧
      List.Forall₂ (fun r o => o.IsOf r s currency) (p.frontier.filter (·.isProductive)) os ∧
      catalog.Parts os ∧ catalog.toList.Perm os ∧
      (∀ kind, Option.Rel (fun r o => o.IsOf r s currency)
        (p.frontier.find? fun r => decide (r.Leads kind)) (catalog.find? kind)) ∧
      ((∀ r ∈ p.frontier, r.Plain) → ∀ kind k, s.kind kind = .ok k →
        s.ruleFor? kind player = .ok (p.frontier.find? fun r => decide (r.Leads kind))) := by
  obtain ⟨p, hp, -⟩ := Outcome.bind_eq_ok_iff.mp h
  obtain ⟨os, hos, hparts⟩ := exists_offers_of_ofFrontier hs hp h
  have hone : ∀ o ∈ os, ∀ o' ∈ os, o.kind = o'.kind → o.category = o'.category := by
    intro o ho o' ho' hkind
    obtain ⟨r, hof⟩ := exists_isOf_of_mem hos ho
    obtain ⟨r', hof'⟩ := exists_isOf_of_mem hos ho'
    exact hof.category_eq hof' hkind
  refine ⟨p, os, hp, hos, hparts, hparts.perm, fun kind => ?_, ?_⟩
  · -- a rule that leads with a kind is productive
    have hproductive : (p.frontier.find? fun r => decide (r.Leads kind)) =
        (p.frontier.filter (·.isProductive)).find? fun r => decide (r.Leads kind) := by
      rw [List.find?_filter]
      refine List.find?_congr fun r _ => decide_eq_decide.mpr ?_
      simp only [decide_eq_true_eq]
      exact ⟨fun hr => ⟨ProductionRule.isProductive_iff.mpr ⟨kind, hr.makes⟩, hr⟩, And.right⟩
    rw [hproductive, hparts.find?_eq hone]
    refine rel_find? hos fun r o hof => ?_
    rw [Bool.eq_iff_iff, decide_eq_true_eq, beq_iff_eq]
    exact ⟨fun hr => hof.leads.eq hr, fun hkind => hkind ▸ hof.leads⟩
  · intro hplain kind k hk
    have hsearch : p.ruleFor? kind = p.frontier.find? fun r => decide (r.Leads kind) := by
      refine List.find?_congr fun r hr => ?_
      simp [(hplain r hr).leads_iff]
    simp only [Snapshot.ruleFor?, hk, hp]
    exact congrArg Except.ok hsearch

/-- Sales in no order of category: one kind is sold twice, one sale is of nothing, and one is of
two tanks and no infantry. -/
def wares : List ProductionRule := [
  Samples.saleOf "buyDestroyer" Samples.destroyer 1 8,
  Samples.saleOf "buyInfantry" Samples.infantry 1 3,
  Samples.saleOf "keepFighter" Samples.fighter 0 1,
  Samples.saleOf "buyFactory" Samples.factory 1 15,
  { name := "buyTanks", costs := Samples.price 11,
    results := .ofList [(Samples.infantry, 0), (Samples.tank, 2)] },
  Samples.saleOf "buyInfantryAgain" Samples.infantry 2 5]

theorem ofFrontier_partitions_wares :
    let s := Samples.singleFactory 2 20 wares
    ∃ catalog os, ofFrontier s Samples.red .productionUnits = .ok catalog ∧
      List.Forall₂ (fun r o => o.IsOf r s .productionUnits) (wares.filter (·.isProductive)) os ∧
      catalog.toList.Perm os ∧ os.length = 5 ∧
      s.ruleFor? Samples.infantry Samples.red =
        .ok (some (Samples.saleOf "buyInfantry" Samples.infantry 1 3)) := by
  intro s
  obtain ⟨catalog, hcatalog⟩ :
      ∃ catalog, ofFrontier s Samples.red .productionUnits = .ok catalog :=
    ⟨_, rfl⟩
  obtain ⟨p, os, hp, hos, -, hperm, -, hrule⟩ := ofFrontier_partitions (by decide) hcatalog
  obtain rfl : _ = p := Except.ok.inj ((rfl : s.player Samples.red = .ok _).symm.trans hp)
  exact ⟨catalog, os, hcatalog, hos, hperm, hos.length_eq.symm, hrule (by decide) _ _ rfl⟩

end Catalog

end Quartermaster
