import Mathlib.Algebra.BigOperators.Group.List.Basic
import Mathlib.Data.List.Nodup
import Quartermaster.Proofs.Accounts
import Quartermaster.Samples

/-!
# Counts by name

A plan counts what it bought by kind, and its record enters these counts under the names of the
kinds. Nothing keeps two kinds from having one name, and `validate` does not look for it. Of such
namesakes only the one of greatest number is found in the record: the counts of the others are
overwritten, where `PlayerSummary.addPieces` would have added them up.

So a record tells the sum under a name, and the number of all pieces, exactly where no two kinds
that were bought have one name (`Planner.plan_recorded`). What it misses elsewhere is what it
overwrote.
-/

namespace Quartermaster

/-! ## Maps made from lists -/

namespace SortedMap

variable {κ β : Type} [Key κ]

/-- Of the pairs with one key the last is found. -/
theorem get?_ofList [DecidableEq κ] (es : List (κ × β)) (k : κ) :
    (ofList es).get? k = ((es.filter fun e => e.1 == k).getLast?).map Prod.snd := by
  induction es using List.reverseRecOn with
  | nil => rfl
  | append_singleton es e ih =>
    have hinsert : ofList (es ++ [e]) = (ofList es).insert e.1 e.2 := by
      unfold ofList
      rw [List.foldl_append]
      rfl
    rw [hinsert, List.filter_append]
    by_cases hk : e.1 = k
    · subst hk
      simp
    · rw [get?_insert_of_ne _ _ (Ne.symm hk), ih]
      simp [hk]

/-- The values are what is found under the keys. -/
theorem values_eq_map_keys (m : SortedMap κ Nat) :
    m.values = m.keys.map fun k => (m.get? k).getD 0 := by
  unfold values keys
  rw [List.map_map]
  refine List.map_congr_left fun e he => ?_
  show e.2 = (m.get? e.1).getD 0
  rw [get?_eq_some_iff.mpr he]
  rfl

end SortedMap

/-! ## Namesakes -/

namespace PassRecord

variable {s : Snapshot} {plan : Plan} {seed : Nat} {name : String}

/-- The kinds of one name that a plan bought, in the order of their numbers, with their counts. -/
def namesakes (s : Snapshot) (plan : Plan) (name : String) : List (KindId × Nat) :=
  plan.purchased.entries.filter fun e => kindName s e.1 == name

/-- What was bought of the namesakes before the last one. -/
def overwritten (s : Snapshot) (plan : Plan) (name : String) : Nat :=
  ((namesakes s plan name).dropLast.map Prod.snd).sum

theorem mem_namesakes_iff {e : KindId × Nat} :
    e ∈ namesakes s plan name ↔ e ∈ plan.purchased.entries ∧ kindName s e.1 = name := by
  rw [namesakes, List.mem_filter, beq_iff_eq]

/-- A record finds under a name what was bought of the last of the namesakes. -/
theorem get?_pieces_ofPlan (s : Snapshot) (plan : Plan) (seed : Nat) (name : String) :
    (ofPlan s plan seed).pieces.get? name = ((namesakes s plan name).getLast?).map Prod.snd := by
  show (SortedMap.ofList _).get? name = _
  rw [SortedMap.get?_ofList, List.filter_map, List.getLast?_map, Option.map_map]
  rfl

theorem mem_names_iff :
    name ∈ (ofPlan s plan seed).pieces.keys ↔
      ∃ e ∈ plan.purchased.entries, kindName s e.1 = name := by
  show name ∈ (SortedMap.ofList _).keys ↔ _
  rw [SortedMap.mem_keys_ofList_iff, List.map_map, List.mem_map]
  rfl

/-- What is recorded under a name and what was overwritten there make up what was bought. -/
theorem bought_add_overwritten (s : Snapshot) (plan : Plan) (seed : Nat) (name : String) :
    (ofPlan s plan seed).bought name + overwritten s plan name =
      ((namesakes s plan name).map Prod.snd).sum := by
  unfold bought overwritten
  rw [get?_pieces_ofPlan]
  rcases List.eq_nil_or_concat (namesakes s plan name) with hnone | ⟨before, e, hlast⟩
  · rw [hnone]
    rfl
  · rw [hlast]
    simp [Nat.add_comm]

/-- Where every count is positive, nothing is overwritten under a name that no two of the kinds
have. -/
theorem overwritten_eq_zero_iff (hpos : ∀ e ∈ plan.purchased.entries, 0 < e.2) :
    overwritten s plan name = 0 ↔ (namesakes s plan name).length ≤ 1 := by
  unfold overwritten
  rw [List.sum_eq_zero_iff_forall_eq_nat, ← Nat.sub_eq_zero_iff_le, ← List.length_dropLast,
    List.length_eq_zero_iff]
  constructor
  · intro hzero
    refine List.eq_nil_iff_forall_not_mem.mpr fun e he => ?_
    have hbought := hpos e (mem_namesakes_iff.mp (List.dropLast_subset _ he)).1
    exact Nat.ne_of_gt hbought (hzero e.2 (List.mem_map_of_mem he))
  · intro hnil
    rw [hnil]
    exact fun n hn => absurd hn List.not_mem_nil

/-- No name has two namesakes if and only if the names of the kinds bought are distinct. -/
theorem length_namesakes_le_one_iff :
    (∀ name, (namesakes s plan name).length ≤ 1) ↔
      (plan.purchased.keys.map (kindName s)).Nodup := by
  rw [List.nodup_iff_count_le_one]
  refine forall_congr' fun name => ?_
  rw [SortedMap.keys, List.map_map, List.count_eq_countP, List.countP_map, namesakes,
    ← List.countP_eq_length_filter]
  rfl

/-- A record's total and what was overwritten under its names make up the total of the plan. -/
theorem totalPieces_add_overwritten (s : Snapshot) (plan : Plan) (seed : Nat) :
    (ofPlan s plan seed).totalPieces +
        ((ofPlan s plan seed).pieces.keys.map (overwritten s plan)).sum = plan.totalPieces := by
  let names := (ofPlan s plan seed).pieces.keys
  have hnames : ∀ e ∈ plan.purchased.entries, kindName s e.1 ∈ names := fun e he =>
    mem_names_iff.mpr ⟨e, he, rfl⟩
  calc (ofPlan s plan seed).totalPieces + (names.map (overwritten s plan)).sum
      = (names.map (ofPlan s plan seed).bought).sum + (names.map (overwritten s plan)).sum := by
        rw [totalPieces, ← List.sum_eq_foldr, SortedMap.values_eq_map_keys]
        rfl
    _ = (names.map fun name => (ofPlan s plan seed).bought name + overwritten s plan name).sum :=
        List.sum_map_add.symm
    _ = (names.map fun name => ((namesakes s plan name).map Prod.snd).sum).sum :=
        congrArg List.sum (List.map_congr_left fun name _ => bought_add_overwritten ..)
    _ = (plan.purchased.entries.map Prod.snd).sum :=
        sum_map_filter (fun e => kindName s e.1) Prod.snd (SortedMap.nodup_keys _) hnames
    _ = plan.totalPieces := List.sum_eq_foldr

/-- Where every count is positive, a record tells the total of the plan if and only if no two of the
kinds bought have one name. -/
theorem totalPieces_eq_iff (hpos : ∀ e ∈ plan.purchased.entries, 0 < e.2) :
    (ofPlan s plan seed).totalPieces = plan.totalPieces ↔
      (plan.purchased.keys.map (kindName s)).Nodup := by
  rw [← length_namesakes_le_one_iff, ← totalPieces_add_overwritten s plan seed,
    Nat.left_eq_add, List.sum_eq_zero_iff_forall_eq_nat, List.forall_mem_map]
  constructor
  · intro hnone name
    by_cases hname : name ∈ (ofPlan s plan seed).pieces.keys
    · exact (overwritten_eq_zero_iff hpos).mp (hnone name hname)
    · -- a name that is not in the record is that of no kind bought
      have hnil : namesakes s plan name = [] := List.eq_nil_iff_forall_not_mem.mpr fun e he =>
        hname (mem_names_iff.mpr ⟨e, mem_namesakes_iff.mp he⟩)
      rw [hnil]
      exact Nat.zero_le 1
  · exact fun hone name _ => (overwritten_eq_zero_iff hpos).mpr (hone name)

end PassRecord

namespace Planner

variable {s : Snapshot} {arbiter : Arbiter} {player : PlayerId} {p p' : Planner} {plan : Plan}

/-- A plan counts no kind of which it bought nothing. -/
theorem purchased_pos (h : p.plan s arbiter player = (.ok plan, p')) :
    ∀ e ∈ plan.purchased.entries, 0 < e.2 := by
  obtain ⟨-, -, -, last, -, -, -, hplan⟩ := plan_eq_ok h
  obtain ⟨-, -, -, hpurchased⟩ := toPlan_eq_ok hplan
  rw [hpurchased]
  exact fun e he => (Stack.mem_entries_countBy.mp he).2

/-- What the record of a plan tells, whatever names the kinds have. Under a name it has the count of
the last kind bought that is so named; the counts of the others are missing from it there, and
together from its total. Nothing is missing under a name that only one of the kinds bought has, and
nothing from the total if that is so of all names. -/
theorem plan_recorded (h : p.plan s arbiter player = (.ok plan, p')) (seed : Nat) :
    (∀ name, (PassRecord.ofPlan s plan seed).pieces.get? name =
        ((PassRecord.namesakes s plan name).getLast?).map Prod.snd) ∧
      (∀ name, (PassRecord.ofPlan s plan seed).bought name + PassRecord.overwritten s plan name =
        ((PassRecord.namesakes s plan name).map Prod.snd).sum) ∧
      (∀ name, PassRecord.overwritten s plan name = 0 ↔
        (PassRecord.namesakes s plan name).length ≤ 1) ∧
      (PassRecord.ofPlan s plan seed).totalPieces +
        ((PassRecord.ofPlan s plan seed).pieces.keys.map (PassRecord.overwritten s plan)).sum =
          plan.totalPieces ∧
      ((PassRecord.ofPlan s plan seed).totalPieces = plan.totalPieces ↔
        (plan.purchased.keys.map (PassRecord.kindName s)).Nodup) :=
  have hpos := purchased_pos h
  ⟨PassRecord.get?_pieces_ofPlan s plan seed, PassRecord.bought_add_overwritten s plan seed,
    fun _ => PassRecord.overwritten_eq_zero_iff hpos,
    PassRecord.totalPieces_add_overwritten s plan seed, PassRecord.totalPieces_eq_iff hpos⟩

/-- On the separate seas every kind has its own name, so the record misses nothing. -/
theorem plan_recorded_separateSeas :
    let s := Samples.separateSeas
    ∃ plan p', Samples.planner.plan s (.ofRules s) Samples.red = (.ok plan, p') ∧
      plan.totalPieces = 4 ∧ ∀ seed, (PassRecord.ofPlan s plan seed).totalPieces = 4 := by
  intro s
  obtain ⟨plan, p', hplan, hread⟩ := Outcome.exists_run_of_toOption
    (show (Samples.planner.plan s (.ofRules s) Samples.red).1.toOption.map (fun plan =>
      (plan.totalPieces, plan.purchased.keys)) =
        some (4, [Samples.infantry, Samples.destroyer]) by decide +kernel)
  obtain ⟨htotal, hkinds⟩ := Prod.mk.inj hread
  refine ⟨plan, p', hplan, htotal, fun seed => ?_⟩
  obtain ⟨-, -, -, -, hall⟩ := plan_recorded hplan seed
  rw [hall.mpr, htotal]
  rw [hkinds]
  decide +kernel

/-- Where the destroyers go by the name of the infantry, two of each are bought, and the record
tells of two pieces in all: the destroyers, entered last. The map passes its checks. -/
theorem record_misses_homonyms :
    let s := Samples.homonyms
    s.Keyed ∧ s.validate = .ok () ∧
      ∃ plan p', Samples.planner.plan s (.ofRules s) Samples.red = (.ok plan, p') ∧
        plan.totalPieces = 4 ∧
        PassRecord.namesakes s plan "infantry" = [(Samples.infantry, 2), (Samples.destroyer, 2)] ∧
        ∀ seed, (PassRecord.ofPlan s plan seed).totalPieces = 2 ∧
          (PassRecord.ofPlan s plan seed).bought "infantry" = 2 := by
  intro s
  have hkeyed : s.Keyed := by decide +kernel
  have hvalid : s.validate = .ok () := by decide +kernel
  obtain ⟨plan, p', hplan, hread⟩ := Outcome.exists_run_of_toOption
    (show (Samples.planner.plan s (.ofRules s) Samples.red).1.toOption.map Plan.purchased =
      some (.ofList [(Samples.infantry, 2), (Samples.destroyer, 2)]) by decide +kernel)
  have hnamesakes : PassRecord.namesakes s plan "infantry" =
      [(Samples.infantry, 2), (Samples.destroyer, 2)] := by
    rw [PassRecord.namesakes, hread]
    decide +kernel
  refine ⟨hkeyed, hvalid, plan, p', hplan, ?_, hnamesakes, fun seed => ⟨?_, ?_⟩⟩
  · rw [Plan.totalPieces, hread]
    rfl
  · show (SortedMap.ofList (plan.purchased.entries.map fun e =>
      (PassRecord.kindName s e.1, e.2))).values.foldr (· + ·) 0 = 2
    rw [hread]
    decide +kernel
  · rw [PassRecord.bought, PassRecord.get?_pieces_ofPlan, hnamesakes]
    rfl

end Planner

end Quartermaster
