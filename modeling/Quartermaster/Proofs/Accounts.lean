import Mathlib.Algebra.Ring.Nat
import Quartermaster.Batch
import Quartermaster.Proofs.Opening
import Quartermaster.Proofs.Partition
import Quartermaster.Samples

/-!
# The accounts of a batch

A batch keeps account of every job once: as a record where the job's pass ends in a plan, and as a
failure where it does not, each list in the order of the jobs (`Batch.run_accounts`). The summaries
then part the records among the players that have any, so that no record is lost and none is
counted under two of them. There is no account if the pass of some job overflows, not even of the
other jobs.

The jobs are those of the computer players in the order of their numbers. A scenario can list a
player under another's number, and then the order of the jobs is that of the numbers listed; the
theorem is about scenarios that do not.
-/

namespace Quartermaster

/-! ## Records parted by a key -/

/-- What is added up for each key apart comes to the sum over all items. -/
theorem sum_map_filter {α κ : Type} [DecidableEq κ] (f : α → κ) (part : α → Nat) {ks : List κ}
    {as : List α} (hks : ks.Nodup) (has : ∀ a ∈ as, f a ∈ ks) :
    (ks.map fun k => ((as.filter fun a => f a == k).map part).sum).sum = (as.map part).sum := by
  rw [← ((flatMap_filter_perm f hks has).map part).sum_nat, List.map_flatMap, List.flatMap_def,
    List.sum_flatten, List.map_map]
  rfl

/-! ## Sums by name -/

/-- The pieces bought under a name. -/
def PassRecord.bought (r : PassRecord) (name : String) : Nat := (r.pieces.get? name).getD 0

namespace PlayerSummary

/-- The pieces counted under a name. -/
def bought (t : PlayerSummary) (name : String) : Nat := (t.pieces.get? name).getD 0

theorem get?_addPieces (sums : SortedMap String Nat) (r : PassRecord) (name : String) :
    (addPieces sums r).get? name =
      (r.pieces.get? name).elim (sums.get? name) fun n => some ((sums.get? name).getD 0 + n) :=
  SortedMap.get?_foldl_update (fun v n => v.getD 0 + n) ..

/-- Adding up records makes an entry for the names that occur in them, and of each name the sum. -/
theorem foldl_addPieces (rs : List PassRecord) (sums : SortedMap String Nat) (name : String) :
    ((rs.foldl addPieces sums).get? name).getD 0 =
        (sums.get? name).getD 0 + (rs.map fun r => r.bought name).sum ∧
      ((rs.foldl addPieces sums).contains name = true ↔
        sums.contains name = true ∨ ∃ r ∈ rs, r.pieces.contains name = true) := by
  induction rs generalizing sums with
  | nil => simp
  | cons r rs ih =>
    obtain ⟨hsum, hnames⟩ := ih (addPieces sums r)
    rw [List.foldl_cons, hsum, hnames, List.map_cons, List.sum_cons, List.exists_mem_cons_iff]
    unfold SortedMap.contains PassRecord.bought
    rw [get?_addPieces]
    cases r.pieces.get? name with
    | none => simp
    | some n => simp [Nat.add_assoc]

theorem bought_ofRecords (rs : List PassRecord) (name : String) :
    (ofRecords rs).bought name = (rs.map fun r => r.bought name).sum :=
  (foldl_addPieces rs .empty name).1.trans (Nat.zero_add _)

theorem contains_ofRecords (rs : List PassRecord) (name : String) :
    (ofRecords rs).pieces.contains name = true ↔ ∃ r ∈ rs, r.pieces.contains name = true :=
  (foldl_addPieces rs .empty name).2.trans (or_iff_right Bool.false_ne_true)

/-! ## Summaries -/

/-- The players that have a record, in the order of their numbers. -/
def recorded (rs : List PassRecord) : List PlayerId :=
  (SortedSet.ofList (rs.map PassRecord.player)).toList

theorem mem_recorded_iff {rs : List PassRecord} {p : PlayerId} :
    p ∈ recorded rs ↔ ∃ r ∈ rs, r.player = p :=
  SortedSet.mem_toList_ofList_iff.trans List.mem_map

theorem nodup_recorded (rs : List PassRecord) : (recorded rs).Nodup := SortedMap.nodup_keys _

theorem entries_ofAll (rs : List PassRecord) :
    (ofAll rs).entries =
      (recorded rs).map fun p => (p, ofRecords (rs.filter fun r => r.player == p)) := by
  refine SortedMap.entries_ofList ?_
  rw [List.pairwise_map]
  exact List.pairwise_map.mpr (SortedMap.ascending _)

theorem get?_ofAll_eq_some_iff {rs : List PassRecord} {p : PlayerId} {t : PlayerSummary} :
    (ofAll rs).get? p = some t ↔
      (∃ r ∈ rs, r.player = p) ∧ ofRecords (rs.filter fun r => r.player == p) = t := by
  rw [SortedMap.get?_eq_some_iff, entries_ofAll, List.mem_map, ← mem_recorded_iff]
  constructor
  · rintro ⟨q, hq, hpair⟩
    obtain ⟨rfl, ht⟩ := Prod.mk.inj hpair
    exact ⟨hq, ht⟩
  · rintro ⟨hp, rfl⟩
    exact ⟨p, hp, rfl⟩

theorem values_ofAll (rs : List PassRecord) :
    (ofAll rs).values =
      (recorded rs).map fun p => ofRecords (rs.filter fun r => r.player == p) := by
  unfold SortedMap.values
  rw [entries_ofAll, List.map_map]
  rfl

/-- What adds up over the records of a player adds up over all players to the sum of all
records. -/
theorem sum_values_ofAll (total : PlayerSummary → Nat) (part : PassRecord → Nat)
    (h : ∀ rs, total (ofRecords rs) = (rs.map part).sum) (rs : List PassRecord) :
    ((ofAll rs).values.map total).sum = (rs.map part).sum := by
  calc ((ofAll rs).values.map total).sum
      = ((recorded rs).map fun p => ((rs.filter fun r => r.player == p).map part).sum).sum := by
        rw [values_ofAll, List.map_map]
        exact congrArg List.sum (List.map_congr_left fun p _ => h _)
    _ = (rs.map part).sum :=
      sum_map_filter PassRecord.player part (nodup_recorded rs) fun r hr =>
        mem_recorded_iff.mpr ⟨r, hr, rfl⟩

end PlayerSummary

/-! ## Jobs -/

namespace Batch

variable {s : Scenario} {entropy : Nat}

/-- The record of a job whose pass ends in a plan. -/
def recordOf (s : Scenario) (entropy : Nat) (job : PlayerId × Nat) : Option PassRecord :=
  match s.runPlan job.1 (some job.2) entropy with
  | .ok plan => some (.ofPlan s.snapshot plan job.2)
  | .error _ => none

/-- The failure of a job whose pass does not. -/
def failureOf (s : Scenario) (entropy : Nat) (job : PlayerId × Nat) : Option BatchFailure :=
  match s.runPlan job.1 (some job.2) entropy with
  | .ok _ => none
  | .error f => some { player := job.1, seed := job.2, message := f.message }

/-- A pass with a seed of its own does without the other one. -/
theorem runPlan_some (s : Scenario) (p : PlayerId) (seed entropy : Nat) :
    s.runPlan p (some seed) entropy = s.runPlan p (some seed) 0 := rfl

/-- A job stops a batch exactly if its pass overflows. -/
theorem runJob_eq_error_iff {job : PlayerId × Nat} {step : Overflow} :
    runJob s job = .error step ↔
      s.runPlan job.1 (some job.2) entropy = .error (.overflow step) := by
  rw [runPlan_some s job.1 job.2 entropy]
  unfold runJob
  split
  · rename_i hplan
    rw [hplan]
    exact iff_of_false nofun nofun
  · rename_i hover
    rw [hover, Except.error.injEq, Except.error.injEq, ScenarioFault.overflow.injEq]
  · rename_i hother hf
    rw [hf, Except.error.injEq]
    exact iff_of_false nofun fun h => hother step h

/-- Any other job has a record or a failure. -/
theorem split_of_runJob {job : PlayerId × Nat} {outcome : Except BatchFailure PassRecord}
    (h : runJob s job = .ok outcome) :
    split [outcome] = ((recordOf s entropy job).toList, (failureOf s entropy job).toList) := by
  unfold runJob at h
  unfold recordOf failureOf
  rw [runPlan_some s job.1 job.2 entropy]
  split at h
  · rename_i hplan
    rw [hplan, ← Except.ok.inj h]
    rfl
  · cases h
  · rename_i hf
    rw [hf, ← Except.ok.inj h]
    rfl

theorem split_cons (outcome : Except BatchFailure PassRecord)
    (outcomes : List (Except BatchFailure PassRecord)) :
    split (outcome :: outcomes) =
      ((split [outcome]).1 ++ (split outcomes).1, (split [outcome]).2 ++ (split outcomes).2) := by
  cases outcome <;> rfl

/-- Jobs that do not overflow leave their records and failures, each in order. -/
theorem split_of_mapM {jobs : List (PlayerId × Nat)}
    {outcomes : List (Except BatchFailure PassRecord)} (h : jobs.mapM (runJob s) = .ok outcomes) :
    split outcomes =
      (jobs.filterMap (recordOf s entropy), jobs.filterMap (failureOf s entropy)) := by
  rw [Outcome.mapM_eq_ok_iff] at h
  induction h with
  | nil => rfl
  | @cons job outcome jobs outcomes hjob _ ih =>
    rw [split_cons, split_of_runJob hjob, ih, List.filterMap_cons, List.filterMap_cons]
    cases recordOf s entropy job <;> cases failureOf s entropy job <;> rfl

/-- A record tells which job it is of. -/
theorem record_tells {job : PlayerId × Nat} {r : PassRecord} (h : recordOf s entropy job = some r) :
    (r.player, r.seed) = job := by
  unfold recordOf at h
  split at h
  · rename_i plan hplan
    have hplanned := Outcome.mapError_eq_ok_iff.mp hplan
    have hplayer : plan.player = job.1 := Planner.plan_player (Prod.ext hplanned rfl)
    rw [← Option.some.inj h]
    exact Prod.ext hplayer rfl
  · cases h

/-- The two lists name the jobs, each job in one of them. -/
theorem jobs_of_entries (s : Scenario) (entropy : Nat) (jobs : List (PlayerId × Nat)) :
    (jobs.filterMap (recordOf s entropy)).map (fun r => (r.player, r.seed)) =
        jobs.filter (fun job => (s.runPlan job.1 (some job.2) entropy).isOk) ∧
      (jobs.filterMap (failureOf s entropy)).map (fun f => (f.player, f.seed)) =
        jobs.filter (fun job => !(s.runPlan job.1 (some job.2) entropy).isOk) := by
  induction jobs with
  | nil => exact ⟨rfl, rfl⟩
  | cons job jobs ih =>
    obtain ⟨hrecords, hfailures⟩ := ih
    rw [List.filterMap_cons, List.filterMap_cons, List.filter_cons, List.filter_cons]
    cases hrecord : recordOf s entropy job with
    | some r =>
      have htells := record_tells hrecord
      unfold recordOf at hrecord
      unfold failureOf
      split at hrecord
      · rename_i plan hplan
        rw [hplan]
        exact ⟨congrArg₂ List.cons htells hrecords, hfailures⟩
      · cases hrecord
    | none =>
      unfold recordOf at hrecord
      unfold failureOf
      split at hrecord
      · cases hrecord
      · rename_i f hf
        rw [hf]
        exact ⟨hrecords, congrArg (job :: ·) hfailures⟩

/-- What a batch has to report of its jobs. -/
structure Accounts (s : Scenario) (entropy : Nat) (jobs : List (PlayerId × Nat))
    (results : BatchResults) : Prop where
  /-- The jobs that end in a plan leave the record of it, in the order of the jobs; -/
  plans_eq : results.plans = jobs.filterMap (recordOf s entropy)
  plans_jobs : results.plans.map (fun r => (r.player, r.seed)) =
    jobs.filter fun job => (s.runPlan job.1 (some job.2) entropy).isOk
  /-- and the other jobs leave their faults. -/
  failures_eq : results.failures = jobs.filterMap (failureOf s entropy)
  failures_jobs : results.failures.map (fun f => (f.player, f.seed)) =
    jobs.filter fun job => !(s.runPlan job.1 (some job.2) entropy).isOk
  /-- Together the two lists hold each job once. -/
  jobs_perm : (results.plans.map (fun r => (r.player, r.seed)) ++
    results.failures.map (fun f => (f.player, f.seed))).Perm jobs
  /-- There is a summary of each player with a record, -/
  summarized : ∀ p, results.players.contains p = true ↔ ∃ r ∈ results.plans, r.player = p
  /-- made of the records of that player and of no others. -/
  summary : ∀ p t, results.players.get? p = some t →
    t.plans = (results.plans.filter fun r => r.player == p).length ∧
    ∀ name, t.bought name =
        ((results.plans.filter fun r => r.player == p).map fun r => r.bought name).sum ∧
      (t.pieces.contains name = true ↔
        ∃ r ∈ results.plans, r.player = p ∧ r.pieces.contains name = true)
  /-- Over all players the summaries come to what the records come to. -/
  plans_total : (results.players.values.map PlayerSummary.plans).sum = results.plans.length
  bought_total : ∀ name, (results.players.values.map fun t => t.bought name).sum =
    (results.plans.map fun r => r.bought name).sum

theorem accounts_run {config : BatchConfig} {results : BatchResults}
    (h : run s config = .ok results) :
    Accounts s entropy (jobs s.computerPlayers config) results := by
  obtain ⟨outcomes, houtcomes, h⟩ := Outcome.bind_eq_ok_iff.mp h
  rw [split_of_mapM houtcomes, Outcome.pure_eq_ok_iff] at h
  have hplans : results.plans =
      (jobs s.computerPlayers config).filterMap (recordOf s entropy) := by rw [← h]
  have hfailures : results.failures =
      (jobs s.computerPlayers config).filterMap (failureOf s entropy) := by rw [← h]
  have hplayers : results.players = PlayerSummary.ofAll results.plans := by rw [← h]
  obtain ⟨hplansjobs, hfailuresjobs⟩ := jobs_of_entries s entropy (jobs s.computerPlayers config)
  rw [← hplans] at hplansjobs
  rw [← hfailures] at hfailuresjobs
  refine ⟨hplans, hplansjobs, hfailures, hfailuresjobs, ?_, ?_, ?_, ?_, ?_⟩
  · rw [hplansjobs, hfailuresjobs]
    exact List.filter_append_perm ..
  · intro p
    rw [hplayers]
    unfold SortedMap.contains
    rw [Option.isSome_iff_exists]
    constructor
    · rintro ⟨t, ht⟩
      exact (PlayerSummary.get?_ofAll_eq_some_iff.mp ht).1
    · intro hp
      exact ⟨_, PlayerSummary.get?_ofAll_eq_some_iff.mpr ⟨hp, rfl⟩⟩
  · intro p t ht
    rw [hplayers] at ht
    obtain ⟨-, rfl⟩ := PlayerSummary.get?_ofAll_eq_some_iff.mp ht
    refine ⟨rfl, fun name => ⟨PlayerSummary.bought_ofRecords _ name, ?_⟩⟩
    rw [PlayerSummary.contains_ofRecords]
    simp only [List.mem_filter, beq_iff_eq, and_assoc]
  · rw [hplayers, PlayerSummary.sum_values_ofAll PlayerSummary.plans (fun _ => 1)]
    · simp
    · intro rs
      simp [PlayerSummary.ofRecords]
  · intro name
    rw [hplayers]
    exact PlayerSummary.sum_values_ofAll _ _ (fun rs => PlayerSummary.bought_ofRecords rs name) _

/-- A batch without results stops as one of its jobs does. -/
theorem exists_job_of_run_error {config : BatchConfig} {step : Overflow} (entropy : Nat)
    (h : run s config = .error step) :
    ∃ job ∈ jobs s.computerPlayers config,
      s.runPlan job.1 (some job.2) entropy = .error (.overflow step) := by
  unfold run at h
  cases hjobs : (jobs s.computerPlayers config).mapM (runJob s) with
  | ok outcomes =>
    rw [hjobs] at h
    cases h
  | error step' =>
    rw [hjobs] at h
    obtain rfl : step' = step := Except.error.inj h
    obtain ⟨before, job, after, hmem, -, hjob⟩ := Outcome.mapM_split_of_error hjobs
    exact ⟨job, by simp [hmem], runJob_eq_error_iff.mp hjob⟩

/-- No job of a batch with results overflows. -/
theorem runPlan_ne_overflow {config : BatchConfig} {results : BatchResults}
    (h : run s config = .ok results) {job : PlayerId × Nat}
    (hjob : job ∈ jobs s.computerPlayers config) (step : Overflow) :
    s.runPlan job.1 (some job.2) entropy ≠ .error (.overflow step) := by
  obtain ⟨outcomes, houtcomes, -⟩ := Outcome.bind_eq_ok_iff.mp h
  obtain ⟨outcome, hran⟩ := Outcome.exists_mapM_eq_ok_iff.mp ⟨outcomes, houtcomes⟩ job hjob
  intro hover
  rw [runJob_eq_error_iff.mpr hover] at hran
  cases hran

/-- Where players are listed under their own numbers, the computer players come in the order of
these. -/
theorem computerPlayers_sorted (hids : ∀ e ∈ s.snapshot.players.entries, e.2.id = e.1) :
    s.computerPlayers.Pairwise (fun p q => p.number < q.number) ∧
      ∀ p, p ∈ s.computerPlayers ↔
        ∃ x, s.snapshot.players.get? p = some x ∧ x.isComputer = true := by
  have hkeys : s.computerPlayers =
      (s.snapshot.players.entries.filter fun e => e.2.isComputer).map Prod.fst := by
    unfold Scenario.computerPlayers SortedMap.values
    rw [List.filter_map, List.map_map]
    exact List.map_congr_left fun e he => hids e (List.mem_filter.mp he).1
  rw [hkeys]
  constructor
  · rw [List.pairwise_map]
    exact (s.snapshot.players.ascending.filter _).imp fun h => of_decide_eq_true h
  · intro p
    simp only [List.mem_map, List.mem_filter, SortedMap.get?_eq_some_iff]
    constructor
    · rintro ⟨⟨q, x⟩, he, rfl⟩
      exact ⟨x, he⟩
    · rintro ⟨x, he⟩
      exact ⟨(p, x), he, rfl⟩

/-- A batch plans each computer player, in the order of their numbers, with each of the seeds, and
accounts for every one of these jobs once, if none of them overflows. Otherwise it has no results,
and stops as one of these does. -/
theorem run_accounts (s : Scenario) (config : BatchConfig) (entropy : Nat)
    (hids : ∀ e ∈ s.snapshot.players.entries, e.2.id = e.1) :
    ∃ (players : List PlayerId) (jobs : List (PlayerId × Nat)),
      players.Pairwise (fun p q => p.number < q.number) ∧
      (∀ p, p ∈ players ↔ ∃ x, s.snapshot.players.get? p = some x ∧ x.isComputer = true) ∧
      jobs = players.flatMap (fun p =>
        (List.range config.runs).map fun i => (p, (config.seedStart + i) % wordValues 64)) ∧
      ((∀ job ∈ jobs, ∀ step,
          s.runPlan job.1 (some job.2) entropy ≠ .error (.overflow step)) →
        ∃ results, run s config = .ok results ∧ Accounts s entropy jobs results) ∧
      ((∃ job ∈ jobs, ∃ step, s.runPlan job.1 (some job.2) entropy = .error (.overflow step)) →
        ∃ job ∈ jobs, ∃ step, s.runPlan job.1 (some job.2) entropy = .error (.overflow step) ∧
          run s config = .error step) := by
  obtain ⟨hsorted, hmem⟩ := computerPlayers_sorted hids
  refine ⟨s.computerPlayers, jobs s.computerPlayers config, hsorted, hmem, rfl, ?_, ?_⟩
  · intro hnone
    rcases hrun : run s config with step | results
    · obtain ⟨job, hjob, hover⟩ := exists_job_of_run_error entropy hrun
      exact absurd hover (hnone job hjob step)
    · exact ⟨results, rfl, accounts_run hrun⟩
  · rintro ⟨job, hjob, step, hover⟩
    rcases hrun : run s config with step' | results
    · obtain ⟨job', hjob', hover'⟩ := exists_job_of_run_error entropy hrun
      exact ⟨job', hjob', step', hover', rfl⟩
    · exact absurd hover (runPlan_ne_overflow hrun hjob step)

/-- Red can plan, and so can Blue, who has nothing to place a piece in; the third player buys what
the ruleset does not know, and the fourth is not the computer's. The second seed comes after the
largest one. -/
theorem run_accounts_fourPlayers :
    let blue : Player := { id := Samples.blue, name := "Blue", isComputer := true }
    let third : Player := { id := ⟨3⟩, name := "Green", isComputer := true
                            frontier := [Samples.rule ⟨99⟩ 1 3] }
    let fourth : Player := { id := ⟨4⟩, name := "Grey" }
    let ports := Samples.separateSeas
    let s : Scenario := {
      name := "Ports", planner := some (.deterministic {})
      snapshot := { ports with players :=
        [fourth, third, blue].foldl (fun m p => m.insert p.id p) ports.players } }
    let config : BatchConfig := { runs := 2, seedStart := wordValues 64 - 1 }
    (∀ e ∈ s.snapshot.players.entries, e.2.id = e.1) ∧
      ∃ results, run s config = .ok results ∧
        results.plans.map (fun r => (r.player, r.seed)) =
          [(Samples.red, wordValues 64 - 1), (Samples.red, 0),
            (Samples.blue, wordValues 64 - 1), (Samples.blue, 0)] ∧
        results.failures.map (fun f => (f.player, f.seed)) =
          [(⟨3⟩, wordValues 64 - 1), (⟨3⟩, 0)] ∧
        ∃ (players : List PlayerId) (jobs : List (PlayerId × Nat)),
          players.Pairwise (fun p q => p.number < q.number) ∧
          (∀ p, p ∈ players ↔ ∃ x, s.snapshot.players.get? p = some x ∧ x.isComputer = true) ∧
          jobs = players.flatMap (fun p =>
            (List.range config.runs).map fun i => (p, (config.seedStart + i) % wordValues 64)) ∧
          Accounts s 0 jobs results := by
  intro blue third fourth ports s config
  have hids : ∀ e ∈ s.snapshot.players.entries, e.2.id = e.1 := by decide +kernel
  obtain ⟨players, jobs, hsorted, hmem, hjobs, haccounts, hstops⟩ := run_accounts s config 0 hids
  obtain ⟨results, hrun, hlists⟩ := Outcome.exists_of_toOption
    (show (run s config).toOption.map (fun r =>
        (r.plans.map (fun r => (r.player, r.seed)), r.failures.map fun f => (f.player, f.seed))) =
      some ([(Samples.red, wordValues 64 - 1), (Samples.red, 0), (Samples.blue, wordValues 64 - 1),
        (Samples.blue, 0)], [(⟨3⟩, wordValues 64 - 1), (⟨3⟩, 0)]) by decide +kernel)
  obtain ⟨hplans, hfailures⟩ := Prod.mk.inj hlists
  obtain ⟨results', hrun', hall⟩ := haccounts fun job hjob step hover => by
    obtain ⟨_, _, step', -, herror⟩ := hstops ⟨job, hjob, step, hover⟩
    rw [hrun] at herror
    cases herror
  obtain rfl : results = results' := Except.ok.inj (hrun.symm.trans hrun')
  exact ⟨hids, results, hrun, hplans, hfailures, players, jobs, hsorted, hmem, hjobs, hall⟩

/-- The pass of Red's only job overflows, and with it the batch. -/
theorem run_overflows_vastProvince :
    let s : Scenario := { name := "Vast Province", snapshot := Samples.vastProvince }
    let config : BatchConfig := { runs := 1 }
    (∀ e ∈ s.snapshot.players.entries, e.2.id = e.1) ∧
      jobs s.computerPlayers config = [(Samples.red, 0)] ∧
      s.runPlan Samples.red (some 0) 0 = .error (.overflow .addition) ∧
      run s config = .error .addition := by decide +kernel

end Batch

end Quartermaster
