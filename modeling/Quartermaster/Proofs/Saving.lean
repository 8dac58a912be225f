import Quartermaster.Proofs.Storage
import Quartermaster.Scenario

/-!
# Saved scenarios

A scenario is read back from its text as it was (`Scenario.toText_restores`): its names may be of
any characters, its settings may be there or not, and the tallies of its territories, which are not
written, are those that a reader takes. So it is planned as the original is.

What is asked of the scenario is what is asked of a snapshot that is stored as bytes: numbers fit
their widths, and no text or list is longer than a word can count.
-/

namespace Quartermaster

open Archive (ShortId ShortCount ShortText byteValues wordWidth)

/-! ## What can be saved -/

structure PlannerConfig.Storable (c : PlannerConfig) : Prop where
  seed : ∀ n ∈ c.seed, n < byteValues wordWidth
  currency : ShortId c.currency
  maxRounds : ShortCount c.maxRounds

structure Scenario.Storable (s : Scenario) : Prop where
  name : ShortText s.name
  description : ShortText s.description
  snapshot : s.snapshot.Storable
  planner : ∀ c ∈ s.planner, c.Storable

namespace Archive

variable {depth : Nat}

theorem faithful_plannerConfig :
    plannerConfig.Faithful (depth + 2) PlannerConfig.Storable := by
  refine Schema.Faithful.via (.record (by decide) <|
    .fieldOr (Schema.faithful_natural wordWidth).optional <|
    .fieldOr faithful_resourceId <|
    .fieldOr Schema.faithful_bool <|
    .fieldOr faithful_quantity .done) ?_ ?_
  · intro c hc
    exact ⟨⟨hc.seed, hc.currency, trivial, hc.maxRounds, trivial⟩, rfl⟩
  · rintro ⟨seed, currency, randomize, maxRounds, _⟩ ⟨hseed, hcurrency, -, hmaxRounds, -⟩
    exact ⟨hseed, hcurrency, hmaxRounds⟩

theorem faithful_scenario : Scenario.schema.Faithful (depth + 9) Scenario.Storable := by
  refine Schema.Faithful.via (.record (by decide) <|
    .field Schema.faithful_text <|
    .fieldOr Schema.faithful_text <|
    .field faithful_snapshot <|
    .fieldOr faithful_plannerConfig.optional .done) ?_ ?_
  · intro s hs
    exact ⟨⟨hs.name, hs.description, hs.snapshot, hs.planner, trivial⟩, rfl⟩
  · rintro ⟨name, description, snapshot, planner, _⟩
      ⟨hname, hdescription, hsnapshot, hplanner, -⟩
    exact ⟨hname, hdescription, hsnapshot, hplanner⟩

/-- A faithful schema whose brackets nest no deeper than a reader follows. -/
theorem Schema.Faithful.ofText?_print {α : Type} {s : Schema α} {P : α → Prop}
    (h : s.Faithful Text.depthLimit P) {a : α} (ha : P a) :
    s.ofText? (Text.print (s.toNode a)) = some a := by
  unfold Schema.ofText?
  rw [Text.parse?_print (h.plain_toNode a ha)]
  exact h.ofNode_toNode a ha

end Archive

/-! ## Reading a saved scenario -/

namespace Scenario

variable {s : Scenario}

theorem ofText_toText (h : s.Storable) : ofText s.toText = .ok s := by
  have hread : schema.ofText? s.toText = some s :=
    (@Archive.faithful_scenario 119).ofText?_print h
  unfold ofText
  rw [hread]

theorem ofFile_text (path text : String) : ofFile path (.text text) = ofText text := rfl

/-- Saving a scenario loses nothing: what its file is read as is the same scenario, and every pass
for any player and seed goes as it did. Two scenarios with one text are the same. -/
theorem toText_restores (s : Scenario) (h : s.Storable) :
    (∃ restored, ofText s.toText = .ok restored ∧ restored = s ∧
      ∀ player seed entropy, restored.runPlan player seed entropy = s.runPlan player seed entropy) ∧
      (∀ path, ofFile path (.text s.toText) = .ok s) ∧
      ∀ s' : Scenario, s'.Storable → s'.toText = s.toText → s' = s := by
  refine ⟨⟨s, ofText_toText h, rfl, fun _ _ _ => rfl⟩, ?_, ?_⟩
  · intro path
    rw [ofFile_text, ofText_toText h]
  intro s' h' hsame
  have hread : ofText s.toText = .ok s' := hsame ▸ ofText_toText h'
  rw [ofText_toText h] at hread
  exact (Except.ok.inj hread).symm

/-- The name has quotes, line breaks, characters that are not shown and some that are beyond sixteen
bits; the seed is the largest; a piece stands twice in one province, and its tally counts both. -/
theorem toText_restores_unusual :
    let infantry := Samples.piece 1 Samples.infantry Samples.red
    let province : TerritoryRecord := {
      id := Samples.redProvince, name := "Red Province", isWater := false
      site := some { production := -2 }, stack := ⟨[infantry, infantry]⟩ }
    let s : Scenario := {
      name := "\x22\x27\\ \n\r\t\x00\x7f\u0301\u200b\u00e9😀"
      snapshot := { Samples.separateSeas with
        territories := .ofList [(Samples.redCapital, .ofRecord province)] }
      planner := some (.deterministic (.seeded (wordValues 64 - 1))) }
    s.Storable ∧ ∃ restored, ofText s.toText = .ok restored ∧ restored = s ∧
      (restored.snapshot.territory Samples.redCapital).toOption.map
        (·.countOwned Samples.red Samples.infantry) = some 2 := by
  intro infantry province s
  have hs : s.Storable := by
    refine ⟨by decide +kernel, by decide +kernel, by decide +kernel, ?_⟩
    intro c hc
    obtain rfl := Option.some.inj hc
    refine ⟨?_, by decide, by decide⟩
    intro n hn
    obtain rfl := Option.some.inj hn
    decide
  obtain ⟨⟨restored, hread, hsame, -⟩, -⟩ := toText_restores s hs
  refine ⟨hs, restored, hread, hsame, ?_⟩
  rw [hsame]
  decide +kernel

end Scenario

end Quartermaster
