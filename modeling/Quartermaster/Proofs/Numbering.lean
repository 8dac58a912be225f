import Mathlib.Data.List.Nodup
import Quartermaster.Proofs.Destinations
import Quartermaster.Proofs.Frontier
import Quartermaster.Proofs.Opening
import Quartermaster.Samples

/-!
# Numbers of temporary pieces

A planner makes far more pieces than it hands out: every offer that is tried is made into a batch,
and most batches are thrown away. What keeps the numbers of the others apart is that the source only
moves forward. Whatever is made between two moments has numbers between them (`Numbered`), so that
what is kept from a run lies above all that was kept before it, and below all that comes after
(`Numbered.append`).

The loops are followed once more for this, in whatever they end (`Yields`): a run that fails hands
out nothing, but the numbers that it used up stay used.
-/

namespace Quartermaster

variable {s : Snapshot} {arbiter : Arbiter} {player : PlayerId} {territory : TerritoryId}
  {o : Offer} {offers : List Offer} {ps qs : List Piece} {low middle high : Nat}

/-! ## Ranges of numbers -/

/-- Pieces of different numbers, all of them at least `low` and below `high`. -/
structure Numbered (low high : Nat) (ps : List Piece) : Prop where
  nodup : (ps.map Piece.id).Nodup
  low_le : ∀ q ∈ ps, low ≤ q.id.number
  lt_high : ∀ q ∈ ps, q.id.number < high

namespace Numbered

theorem nil (low high : Nat) : Numbered low high [] where
  nodup := List.nodup_nil
  low_le _ hq := absurd hq List.not_mem_nil
  lt_high _ hq := absurd hq List.not_mem_nil

theorem mono {low' high' : Nat} (h : Numbered low high ps) (hlow : low' ≤ low)
    (hhigh : high ≤ high') : Numbered low' high' ps where
  nodup := h.nodup
  low_le q hq := Nat.le_trans hlow (h.low_le q hq)
  lt_high q hq := Nat.lt_of_lt_of_le (h.lt_high q hq) hhigh

theorem perm (h : Numbered low high ps) (hperm : qs.Perm ps) : Numbered low high qs where
  nodup := (hperm.map Piece.id).nodup_iff.mpr h.nodup
  low_le q hq := h.low_le q (hperm.mem_iff.mp hq)
  lt_high q hq := h.lt_high q (hperm.mem_iff.mp hq)

/-- What was made earlier and what was made later have no number in common. -/
theorem append (h : Numbered low middle ps) (h' : Numbered middle high qs) (hlow : low ≤ middle)
    (hhigh : middle ≤ high) : Numbered low high (ps ++ qs) := by
  constructor
  · rw [List.map_append, List.nodup_append]
    refine ⟨h.nodup, h'.nodup, ?_⟩
    intro id hid id' hid' hsame
    obtain ⟨q, hq, rfl⟩ := List.mem_map.mp hid
    obtain ⟨q', hq', rfl⟩ := List.mem_map.mp hid'
    have hbelow := h.lt_high q hq
    have habove := h'.low_le q' hq'
    rw [hsame] at hbelow
    omega
  · intro q hq
    rcases List.mem_append.mp hq with hearly | hlate
    · exact h.low_le q hearly
    · exact Nat.le_trans hlow (h'.low_le q hlate)
  · intro q hq
    rcases List.mem_append.mp hq with hearly | hlate
    · exact Nat.lt_of_lt_of_le (h.lt_high q hearly) hhigh
    · exact h'.lt_high q hlate

end Numbered

/-! ## Batches -/

section

variable {source source' : PieceSource}

/-- A source moves forward over the numbers of a batch. -/
theorem Offer.numbered_of_materialize (h : o.materialize source player = .ok (ps, source')) :
    source.next ≤ source'.next ∧ Numbered source.next source'.next ps := by
  obtain ⟨-, rfl, rfl⟩ := Offer.materialize_eq_ok_iff.mp h
  refine ⟨Nat.le_add_right _ _, ?_, ?_, ?_⟩
  · rw [List.map_map]
    refine List.Nodup.map ?_ List.nodup_range'
    intro m n hsame
    exact congrArg Ident.number hsame
  · intro q hq
    obtain ⟨n, hn, rfl⟩ := List.mem_map.mp hq
    exact (List.mem_range'_1.mp hn).1
  · intro q hq
    obtain ⟨n, hn, rfl⟩ := List.mem_map.mp hq
    exact (List.mem_range'_1.mp hn).2

theorem Arbiter.next_le_tryOffer (arbiter : Arbiter) (o : Offer) (territory : TerritoryId)
    (player : PlayerId) (already : List Piece) (source : PieceSource) :
    source.next ≤ (arbiter.tryOffer o territory player already source).2.next := by
  unfold tryOffer
  cases hmade : o.materialize source player with
  | error f => exact Nat.le_refl _
  | ok made =>
    have hle := (Offer.numbered_of_materialize hmade).1
    simp only
    split <;> exact hle

theorem Arbiter.next_le_permitted (arbiter : Arbiter) (territory : TerritoryId)
    (player : PlayerId) (already : List Piece) (offers : List Offer) (source : PieceSource) :
    source.next ≤ (arbiter.permitted territory player already offers source).2.next := by
  induction offers generalizing source with
  | nil => exact Nat.le_refl _
  | cons o offers ih =>
    have htried := arbiter.next_le_tryOffer o territory player already source
    rw [permitted]
    cases htry : arbiter.tryOffer o territory player already source with
    | mk outcome source₁ =>
      rw [htry] at htried
      cases outcome with
      | error f => exact htried
      | ok batch =>
        have hrest := Nat.le_trans htried (ih source₁)
        simp only
        cases hlater : arbiter.permitted territory player already offers source₁ with
        | mk outcome source₂ =>
          rw [hlater] at hrest
          cases outcome <;> exact hrest

/-- The batches that may be placed were made while the offers were tried. -/
theorem Arbiter.numbered_of_permitted {already : List Piece}
    {batches : List (Offer × List Piece)} {batch : Offer × List Piece}
    (h : arbiter.permitted territory player already offers source = (.ok batches, source'))
    (hbatch : batch ∈ batches) : Numbered source.next source'.next batch.2 := by
  induction offers generalizing source batches with
  | nil =>
    obtain rfl : [] = batches := Except.ok.inj (congrArg Prod.fst h)
    cases hbatch
  | cons o offers ih =>
    obtain ⟨ps, source₁, allowed, rest, hmade, -, hrest, rfl⟩ := permitted_cons_eq_ok h
    obtain ⟨hle, hps⟩ := Offer.numbered_of_materialize hmade
    have hlater : source₁.next ≤ source'.next := by
      have hmoves := arbiter.next_le_permitted territory player already offers source₁
      rwa [hrest] at hmoves
    have htail : batch ∈ rest → Numbered source.next source'.next batch.2 := by
      intro hmem
      exact (ih hrest hmem).mono hle (Nat.le_refl _)
    cases allowed with
    | false => exact htail hbatch
    | true =>
      rcases List.mem_cons.mp hbatch with rfl | hmem
      · exact hps.mono (Nat.le_refl _) hlater
      · exact htail hmem

end

/-! ## Runs -/

/-- What a run leaves behind, whatever it ends in. The source has not moved back, and the pieces in
what the run ends with, if that is no fault, have been numbered from `low` on. -/
structure Yields {α : Type} (low : Nat) (pieces : α → List Piece) (source : PieceSource)
    (outcome : Except Fault α) (source' : PieceSource) : Prop where
  next_le : source.next ≤ source'.next
  numbered : ∀ a, outcome = .ok a → Numbered low source'.next (pieces a)

namespace Yields

variable {α : Type} {pieces : α → List Piece} {source source' : PieceSource}
  {outcome : Except Fault α}

theorem error {f : Fault} (h : source.next ≤ source'.next) :
    Yields low pieces source (.error f) source' where
  next_le := h
  numbered _ ha := by cases ha

theorem ok {a : α} (h : source.next ≤ source'.next) (ha : Numbered low source'.next (pieces a)) :
    Yields low pieces source (.ok a) source' where
  next_le := h
  numbered b hb := by
    obtain rfl : a = b := Except.ok.inj hb
    exact ha

theorem trans {earlier : PieceSource} (h : earlier.next ≤ source.next)
    (hrun : Yields low pieces source outcome source') :
    Yields low pieces earlier outcome source' where
  next_le := Nat.le_trans h hrun.next_le
  numbered := hrun.numbered

end Yields

namespace Planner

variable {yard place : TerritoryId} {role : Role} {pass next : Pass} {p p' : Planner}

/-! ### Passes -/

/-- What is left behind by a run over a pass. -/
def Advances (low : Nat) (p : Planner) (run : Except Fault Pass × Planner) : Prop :=
  Yields low (fun pass => pass.yards.queued) p.source run.1 run.2.source

/-- A run goes on from the pass that an earlier one left. -/
theorem Advances.andThen {run : Except Fault Pass × Planner}
    {rest : Pass → Planner → Except Fault Pass × Planner} (h : Advances low p run)
    (hlow : low ≤ p.source.next)
    (hrest : ∀ next p', Numbered low p'.source.next next.yards.queued → low ≤ p'.source.next →
      Advances low p' (rest next p')) :
    Advances low p (match run with
      | (.error f, p) => (.error f, p)
      | (.ok next, p) => rest next p) := by
  obtain ⟨outcome, p₁⟩ := run
  cases outcome with
  | error f => exact h
  | ok next =>
    have hafter := hrest next p₁ (h.numbered next rfl) (Nat.le_trans hlow h.next_le)
    exact Yields.trans h.next_le hafter

theorem source_choose {κ : Type} (table : Selection.Table κ) (p : Planner) :
    (choose table p).2.source = p.source := by
  unfold choose
  split <;> rfl

theorem next_le_round (arbiter : Arbiter) (yard place : TerritoryId) (offers : List Offer)
    (role : Role) (pass : Pass) (p : Planner) :
    p.source.next ≤ (round arbiter yard place offers role pass p).2.source.next := by
  unfold round
  cases roundOffers yard offers pass with
  | error f => exact Nat.le_refl _
  | ok candidates =>
    have hle := arbiter.next_le_permitted place pass.player (pass.yards.queuedFor place) candidates
      p.source
    simp only
    cases hperm : arbiter.permitted place pass.player (pass.yards.queuedFor place) candidates
        p.source with
    | mk outcome source =>
      rw [hperm] at hle
      cases outcome with
      | error f => exact hle
      | ok batches =>
        simp only
        split
        · exact hle
        · have hchoose := source_choose (scored role batches) { p with source }
          cases hchoice : choose (scored role batches) { p with source } with
          | mk outcome p₁ =>
            rw [hchoice] at hchoose
            have hmoved : p.source.next ≤ p₁.source.next := by
              rw [hchoose]
              exact hle
            cases outcome <;> exact hmoved

/-- A round queues pieces that it has made. -/
theorem numbered_of_round (hpass : Numbered low p.source.next pass.yards.queued)
    (hlow : low ≤ p.source.next)
    (h : round arbiter yard place offers role pass p = (.ok (some next), p')) :
    Numbered low p'.source.next next.yards.queued := by
  obtain ⟨candidates, batches, source', -, hperm, ⟨-, hnone⟩ | hbought⟩ := round_eq_ok h
  · cases hnone
  · obtain ⟨batch, next', hchoice, hbuy, hnext⟩ := hbought
    obtain rfl : next = next' := Option.some.inj hnext
    have hsource : p'.source = source' := by
      have hchoose := source_choose (scored role batches) { p with source := source' }
      rwa [hchoice] at hchoose
    have hbatch : Numbered p.source.next source'.next batch.2 :=
      Arbiter.numbered_of_permitted hperm (mem_of_mem_scored (choose_mem hchoice)).1
    have hmoved : p.source.next ≤ source'.next := by
      have hle := arbiter.next_le_permitted place pass.player (pass.yards.queuedFor place)
        candidates p.source
      rwa [hperm] at hle
    obtain ⟨-, -, -, y, y', hy, hqueue, hyards⟩ := buy_eq_ok hbuy
    have hperm' : next.yards.queued.Perm (pass.yards.queued ++ batch.2) := by
      rw [hyards]
      exact Yards.queued_perm_of_insert hy (Yard.queued_perm_of_queue hqueue)
    -- what is bought was made after everything that is queued, so no number comes twice
    rw [hsource]
    exact (hpass.append hbatch hlow hmoved).perm hperm'

theorem fill_advances (n : Nat) (hpass : Numbered low p.source.next pass.yards.queued)
    (hlow : low ≤ p.source.next) :
    Advances low p (fill arbiter yard place offers role n pass p) := by
  induction n generalizing pass p with
  | zero => exact .ok (Nat.le_refl _) hpass
  | succ n ih =>
    have hmoved := next_le_round arbiter yard place offers role pass p
    rw [fill]
    cases hround : round arbiter yard place offers role pass p with
    | mk outcome p₁ =>
      rw [hround] at hmoved
      cases outcome with
      | error f => exact .error hmoved
      | ok found =>
        cases found with
        | none =>
          -- batches may have been made and thrown away
          exact .ok hmoved (hpass.mono (Nat.le_refl _) hmoved)
        | some next =>
          have hnext := numbered_of_round hpass hlow hround
          exact .trans hmoved (ih hnext (Nat.le_trans hlow hmoved))

theorem fillPlaces_advances (places : List TerritoryId)
    (hpass : Numbered low p.source.next pass.yards.queued) (hlow : low ≤ p.source.next) :
    Advances low p (fillPlaces arbiter yard offers role places pass p) := by
  induction places generalizing pass p with
  | nil => exact .ok (Nat.le_refl _) hpass
  | cons place places ih =>
    rw [fillPlaces]
    apply Advances.andThen (fill_advances p.config.maxRounds hpass hlow) hlow
    intro next p' hnext hlow'
    exact ih hnext hlow'

theorem phase_advances (places : Pass → TerritoryId → List TerritoryId)
    (yards : List TerritoryId) (hpass : Numbered low p.source.next pass.yards.queued)
    (hlow : low ≤ p.source.next) :
    Advances low p (phase s arbiter offers places yards pass p) := by
  induction yards generalizing pass p with
  | nil => exact .ok (Nat.le_refl _) hpass
  | cons yard yards ih =>
    rw [phase]
    cases roleOf s yard pass.player with
    | error f => exact .error (Nat.le_refl _)
    | ok role =>
      apply Advances.andThen (fillPlaces_advances (places pass yard) hpass hlow) hlow
      intro next p' hnext hlow'
      exact ih hnext hlow'

theorem runPhases_advances (catalog : Catalog)
    (hpass : Numbered low p.source.next pass.yards.queued) (hlow : low ≤ p.source.next) :
    Advances low p (runPhases s arbiter catalog pass p) := by
  unfold runPhases
  apply Advances.andThen (phase_advances (fun _ yard => [yard]) pass.yards.keys hpass hlow) hlow
  intro next p' hnext hlow'
  exact phase_advances seaZones pass.yards.keys hnext hlow'

/-- A plan hands out pieces that were made for it. -/
theorem plan_yields (s : Snapshot) (arbiter : Arbiter) (player : PlayerId) (p : Planner) :
    Yields p.source.next Plan.queued p.source (p.plan s arbiter player).1
      (p.plan s arbiter player).2.source := by
  unfold Planner.plan
  split
  · exact .error (Nat.le_refl _)
  · rename_i catalog start hopen
    have hqueued : start.yards.queued = [] := by
      obtain ⟨_, -, hopen⟩ := Outcome.bind_eq_ok_iff.mp hopen
      obtain ⟨start', hstart, hopen⟩ := Outcome.bind_eq_ok_iff.mp hopen
      simp only [Outcome.pure_eq_ok_iff, Prod.mk.injEq] at hopen
      obtain ⟨-, rfl⟩ := hopen
      exact queued_eq_nil_of_openPass hstart
    have hrun : Advances p.source.next p (runPhases s arbiter catalog start p) := by
      apply runPhases_advances catalog _ (Nat.le_refl _)
      rw [hqueued]
      exact .nil _ _
    cases hphases : runPhases s arbiter catalog start p with
    | mk outcome p₁ =>
      rw [hphases] at hrun
      cases outcome with
      | error f => exact .error hrun.next_le
      | ok last =>
        refine ⟨hrun.next_le, ?_⟩
        intro plan hplan
        obtain ⟨-, hyards, -⟩ := toPlan_eq_ok hplan
        rw [Plan.queued, hyards]
        exact hrun.numbered last rfl

/-! ### Defenders -/

theorem buyRepeatedly_yields (o : Offer) (player : PlayerId) (n : Nat) (ledger : Ledger)
    (remaining : Capacity) (source : PieceSource) :
    Yields source.next id source (buyRepeatedly o player n ledger remaining source).1
      (buyRepeatedly o player n ledger remaining source).2 := by
  have hnone : Yields source.next id source (.ok []) source :=
    .ok (Nat.le_refl _) (.nil _ _)
  induction n generalizing ledger remaining source with
  | zero => exact hnone
  | succ n ih =>
    rw [buyRepeatedly]
    split
    · cases remaining.consume? o.quantity with
      | none => exact hnone
      | some left =>
        simp only
        cases ledger.purchase o with
        | error f => exact .error (Nat.le_refl _)
        | ok ledger' =>
          cases hmade : o.materialize source player with
          | error f => exact .error (Nat.le_refl _)
          | ok made =>
            obtain ⟨batch, source₁⟩ := made
            obtain ⟨hle, hbatch⟩ := Offer.numbered_of_materialize hmade
            have hlater := ih ledger' left source₁ (.ok (Nat.le_refl _) (.nil _ _))
            simp only
            cases hrest : buyRepeatedly o player n ledger' left source₁ with
            | mk outcome source₂ =>
              rw [hrest] at hlater
              have hmoved := Nat.le_trans hle hlater.next_le
              cases outcome with
              | error f => exact .error hmoved
              | ok rest =>
                exact .ok hmoved (hbatch.append (hlater.numbered rest rfl) hle hlater.next_le)
    · exact hnone

theorem maxDefenders_yields (s : Snapshot) (arbiter : Arbiter) (player : PlayerId)
    (territory : TerritoryId) (offers : List Offer) (p : Planner) :
    Yields p.source.next id p.source (p.maxDefenders s arbiter player territory offers).1
      (p.maxDefenders s arbiter player territory offers).2.source := by
  unfold maxDefenders
  split
  · exact .error (Nat.le_refl _)
  · rename_i ledger capacity _
    have htried := arbiter.next_le_permitted territory player [] offers p.source
    cases hperm : arbiter.permitted territory player [] offers p.source with
    | mk outcome source =>
      rw [hperm] at htried
      cases outcome with
      | error f => exact .error htried
      | ok batches =>
        simp only
        cases bestDefender? ledger (batches.map Prod.fst) with
        | none => exact .ok htried (.nil _ _)
        | some o =>
          have hbought := buyRepeatedly_yields o player (purchaseBound o ledger.holdings capacity)
            ledger capacity source
          refine ⟨Nat.le_trans htried hbought.next_le, ?_⟩
          intro ps hps
          exact (hbought.numbered ps hps).mono htried (Nat.le_refl _)

end Planner

/-! ## Destinations -/

namespace Stack

variable {κ : Type} [Key κ]

/-- A count by a key counts every piece once. -/
theorem foldr_values_countBy (key : Piece → κ) (ps : List Piece) :
    (countBy key ps).values.foldr (· + ·) 0 = ps.length := by
  induction ps using List.reverseRecOn with
  | nil => rfl
  | append_singleton ps p ih =>
    obtain ⟨before, after, hvalues, hinsert⟩ := (countBy key ps).values_split (key p)
    rw [countBy_snoc, SortedMap.update, hinsert, List.length_append, ← ih, hvalues]
    simp only [← List.sum_eq_foldr]
    cases (countBy key ps).get? (key p) <;> simp <;> omega

end Stack

/-- Where no two pieces have one number, each has its own entry. -/
theorem MoveOptions.Describes.pieceCount_eq {yards : Yards} {m : MoveOptions}
    (h : m.Describes s player yards yards.recruits)
    (hnodup : (yards.queued.map Piece.id).Nodup) : m.pieceCount = yards.queued.length := by
  have hperm : m.moves.keys.Perm (yards.queued.map Piece.id) := by
    rw [List.perm_ext_iff_of_nodup m.moves.nodup_keys hnodup]
    intro id
    rw [h.moves.keys, ← Yards.map_piece_recruits, List.map_map, List.mem_map]
    simp
  have hlength := hperm.length_eq
  rwa [SortedMap.keys, List.length_map, List.length_map] at hlength

namespace Planner

variable {p p' : Planner} {plan : Plan}

theorem nodup_queued_of_plan (h : p.plan s arbiter player = (.ok plan, p')) :
    (plan.yards.queued.map Piece.id).Nodup := by
  have hyields := plan_yields s arbiter player p
  rw [h] at hyields
  exact (hyields.numbered plan rfl).nodup

/-- The options of a plan describe what waits in its yards. -/
theorem plan_describes (h : p.plan s arbiter player = (.ok plan, p')) :
    plan.moveOptions.Describes s player plan.yards plan.yards.recruits := by
  have hnodup := nodup_queued_of_plan h
  have hplayer := plan_player h
  obtain ⟨-, -, -, last, -, -, -, hplan⟩ := plan_eq_ok h
  obtain ⟨m, hmoves, hplan⟩ := Outcome.bind_eq_ok_iff.mp hplan
  rw [Outcome.pure_eq_ok_iff] at hplan
  subst hplan
  obtain rfl : last.player = player := hplayer
  exact .of_ofYards hmoves hnodup

/-- Every piece that a plan has bought has an entry of its own among the options. -/
theorem pieceCount_of_plan (h : p.plan s arbiter player = (.ok plan, p')) :
    plan.moveOptions.pieceCount = plan.totalPieces := by
  obtain ⟨-, -, -, last, -, -, -, hplan⟩ := plan_eq_ok h
  obtain ⟨-, hyards, -, hpurchased⟩ := toPlan_eq_ok hplan
  calc plan.moveOptions.pieceCount
      = plan.yards.queued.length := (plan_describes h).pieceCount_eq (nodup_queued_of_plan h)
    _ = (Stack.countBy Piece.kind plan.yards.queued).values.foldr (· + ·) 0 :=
      (Stack.foldr_values_countBy Piece.kind plan.yards.queued).symm
    _ = plan.totalPieces := by rw [Plan.totalPieces, hpurchased, hyards]

/-! ## Requests -/

/-- What a planner may be asked for. -/
inductive Request where
  | plan (player : PlayerId)
  | defenders (player : PlayerId) (territory : TerritoryId) (offers : List Offer)

/-- What comes of a request. -/
inductive Reply where
  | planned (outcome : Except Fault Plan)
  | defended (outcome : Except Fault (List Piece))

/-- The pieces that a reply hands out. -/
def Reply.pieces : Reply → List Piece
  | .planned (.ok plan) => plan.queued
  | .defended (.ok ps) => ps
  | _ => []

/-- The reply to a request, and the planner after it. -/
def reply (s : Snapshot) (arbiter : Arbiter) (p : Planner) : Request → Reply × Planner
  | .plan player =>
    let (outcome, p) := p.plan s arbiter player
    (.planned outcome, p)
  | .defenders player territory offers =>
    let (outcome, p) := p.maxDefenders s arbiter player territory offers
    (.defended outcome, p)

/-- The replies to requests made one after the other, and the planner after them. -/
def replies (s : Snapshot) (arbiter : Arbiter) : List Request → Planner → List Reply × Planner
  | [], p => ([], p)
  | request :: requests, p =>
    let (first, p) := p.reply s arbiter request
    let (rest, p) := replies s arbiter requests p
    (first :: rest, p)

theorem reply_numbered (s : Snapshot) (arbiter : Arbiter) (p : Planner) (request : Request) :
    p.source.next ≤ (p.reply s arbiter request).2.source.next ∧
      Numbered p.source.next (p.reply s arbiter request).2.source.next
        (p.reply s arbiter request).1.pieces := by
  cases request with
  | plan player =>
    have hyields := plan_yields s arbiter player p
    refine ⟨hyields.next_le, ?_⟩
    cases hplan : p.plan s arbiter player with
    | mk outcome p' =>
      rw [hplan] at hyields
      simp only [reply, hplan]
      cases outcome with
      | error f => exact .nil _ _
      | ok plan => exact hyields.numbered plan rfl
  | defenders player territory offers =>
    have hyields := maxDefenders_yields s arbiter player territory offers p
    refine ⟨hyields.next_le, ?_⟩
    cases hps : p.maxDefenders s arbiter player territory offers with
    | mk outcome p' =>
      rw [hps] at hyields
      simp only [reply, hps]
      cases outcome with
      | error f => exact .nil _ _
      | ok ps => exact hyields.numbered ps rfl

theorem replies_numbered (s : Snapshot) (arbiter : Arbiter) (requests : List Request)
    (p : Planner) :
    p.source.next ≤ (replies s arbiter requests p).2.source.next ∧
      Numbered p.source.next (replies s arbiter requests p).2.source.next
        ((replies s arbiter requests p).1.flatMap Reply.pieces) := by
  induction requests generalizing p with
  | nil => exact ⟨Nat.le_refl _, .nil _ _⟩
  | cons request requests ih =>
    obtain ⟨hle, hfirst⟩ := reply_numbered s arbiter p request
    obtain ⟨hle', hrest⟩ := ih (p.reply s arbiter request).2
    exact ⟨Nat.le_trans hle hle', hfirst.append hrest hle hle'⟩

/-- A plan among the replies was made by the planner at some moment. -/
theorem exists_of_mem_replies {requests : List Request} {plan : Plan}
    (h : .planned (.ok plan) ∈ (replies s arbiter requests p).1) :
    ∃ player, ∃ earlier later : Planner, earlier.plan s arbiter player = (.ok plan, later) := by
  induction requests generalizing p with
  | nil => cases h
  | cons request requests ih =>
    rcases List.mem_cons.mp h with hfirst | hlater
    · cases request with
      | plan player =>
        have hplan : .ok plan = (p.plan s arbiter player).1 := Reply.planned.inj hfirst
        exact ⟨player, p, (p.plan s arbiter player).2, by rw [hplan]⟩
      | defenders player territory offers => cases hfirst
    · exact ih hlater

/-- A planner never numbers two pieces alike. Over any run of requests, whoever they are for and
whether or not they fail, all pieces that are handed out have different numbers, from the base of
the temporary ones up to where the source stands in the end; so none is a piece of the board whose
number lies below that base, and in the options of every plan no piece has taken another's entry. -/
theorem replies_apart (s : Snapshot) (arbiter : Arbiter) (config : PlannerConfig)
    (generator : Generator) (requests : List Request) :
    let run := replies s arbiter requests { config, generator }
    let handedOut := run.1.flatMap Reply.pieces
    (handedOut.map Piece.id).Nodup ∧
      (∀ q ∈ handedOut,
        PieceId.temporaryBase ≤ q.id.number ∧ q.id.number < run.2.source.next) ∧
      (∀ t ∈ s.territories.values, ∀ b ∈ t.stack.pieces,
        b.id.number < PieceId.temporaryBase → b.id ∉ handedOut.map Piece.id) ∧
      ∀ plan, .planned (.ok plan) ∈ run.1 → plan.moveOptions.pieceCount = plan.totalPieces := by
  intro run handedOut
  obtain ⟨-, hnumbered⟩ := replies_numbered s arbiter requests { config, generator }
  refine ⟨hnumbered.nodup, ?_, ?_, ?_⟩
  · intro q hq
    exact ⟨hnumbered.low_le q hq, hnumbered.lt_high q hq⟩
  · intro t _ b _ hbelow hmem
    obtain ⟨q, hq, hid⟩ := List.mem_map.mp hmem
    have habove : PieceId.temporaryBase ≤ q.id.number := hnumbered.low_le q hq
    rw [hid] at habove
    exact absurd hbelow (Nat.not_lt.mpr habove)
  · intro plan hplan
    obtain ⟨player, earlier, later, hplanned⟩ := exists_of_mem_replies hplan
    exact pieceCount_of_plan hplanned

/-- Two plans and the defenders between them, on the separate seas. One request is for a player who
is not there, and the number that no reply has belongs to a batch that was only tried. -/
theorem replies_apart_separateSeas :
    let s := Samples.separateSeas
    let config : PlannerConfig := .deterministic (.seeded 0)
    let offers :=
      ((Catalog.ofFrontier s Samples.red config.currency).toOption.map Catalog.land).getD []
    let run := replies s (.ofRules s)
      [.plan Samples.red, .plan Samples.blue, .defenders Samples.red Samples.redCapital offers,
        .plan Samples.red] { config, generator := config.generator 0 }
    let handedOut := run.1.flatMap Reply.pieces
    run.1.map (fun r => r.pieces.map fun q => q.id.number - PieceId.temporaryBase) =
        [[0, 1, 2, 3], [], [5, 6], [7, 8, 9, 10]] ∧
      (handedOut.map Piece.id).Nodup ∧
      ∀ plan, .planned (.ok plan) ∈ run.1 → plan.moveOptions.pieceCount = plan.totalPieces := by
  intro s config offers run handedOut
  have hrun : run.1.map (fun r => r.pieces.map fun q => q.id.number - PieceId.temporaryBase) =
      [[0, 1, 2, 3], [], [5, 6], [7, 8, 9, 10]] := by decide +kernel
  obtain ⟨hnodup, -, -, hcounts⟩ := replies_apart s (.ofRules s) config (config.generator 0)
    [.plan Samples.red, .plan Samples.blue, .defenders Samples.red Samples.redCapital offers,
      .plan Samples.red]
  exact ⟨hrun, hnodup, hcounts⟩

end Planner

end Quartermaster
