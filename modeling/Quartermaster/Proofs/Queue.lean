import Mathlib.Data.List.Induction
import Quartermaster.Yard

/-!
# Queueing in a yard

What one call of `Yard.queue` does, and from it what any series of calls leaves behind.

A call is refused on exactly three grounds (`queue_eq_error_iff`). One that succeeds takes the
pieces off what is left of the capacity and puts them at the end of one queue
(`queue_eq_ok_iff`, `enqueue_split`), so the yard stays `Balanced`: what is left and what waits
make up the capacity. The rest of a yard is its `cleared` form, which no call touches.
-/

namespace Quartermaster

/-! ## Capacities -/

namespace Capacity

variable {c left : Capacity} {m n limit : Nat}

theorem consume?_eq_none_iff : c.consume? n = none ↔ c.fits n = false := by
  cases c <;> simp [consume?, fits]

theorem consume?_limited_eq_some_iff :
    (limited limit).consume? n = some left ↔ n ≤ limit ∧ left = limited (limit - n) := by
  simp [consume?, eq_comm]

/-- What fits in the capacity that is left fitted before. -/
theorem fits_of_consume? (h : c.consume? m = some left) (hn : left.fits n = true) :
    c.fits n = true := by
  cases c with
  | unlimited => rfl
  | limited limit =>
    obtain ⟨hfit, rfl⟩ := consume?_limited_eq_some_iff.mp h
    unfold fits at hn ⊢
    rw [decide_eq_true_iff] at hn ⊢
    omega

/-- What fits in the capacity that is left fits in the whole together with what was taken off. -/
theorem fits_add_iff_of_consume? (h : c.consume? m = some left) :
    c.fits (m + n) = true ↔ left.fits n = true := by
  cases c with
  | unlimited =>
    obtain rfl : unlimited = left := Option.some.inj h
    exact Iff.rfl
  | limited limit =>
    obtain ⟨hfit, rfl⟩ := consume?_limited_eq_some_iff.mp h
    unfold fits
    rw [decide_eq_true_iff, decide_eq_true_iff]
    omega

theorem fits_add_of_consume? (h : c.consume? m = some left) (hn : left.fits n = true) :
    c.fits (m + n) = true :=
  (fits_add_iff_of_consume? h).mpr hn

theorem exists_consume?_iff : (∃ left, c.consume? m = some left) ↔ c.fits m = true := by
  cases c with
  | unlimited => exact ⟨fun _ => rfl, fun _ => ⟨unlimited, rfl⟩⟩
  | limited limit => simp [consume?_limited_eq_some_iff, fits]

end Capacity

namespace Yard

variable {y y' : Yard} {place : TerritoryId} {ps : List Piece}

/-! ## One call -/

theorem place?_isSome_iff :
    (y.place? place).isSome = true ↔ place ∈ y.places.map Place.territory := by
  unfold place?
  simp [List.find?_isSome]

theorem queue_eq_ok_iff :
    y.queue place ps = .ok y' ↔
      place ∈ y.places.map Place.territory ∧ ps.length < countBound ∧
        ∃ left, y.remaining.consume? ps.length = some left ∧
          y' = { y with remaining := left, places := enqueue place ps y.places } := by
  rw [← place?_isSome_iff]
  unfold queue
  cases hp : y.place? place with
  | none => simp
  | some p =>
    by_cases hlen : countBound ≤ ps.length
    · simp [hlen, Nat.not_lt_of_le hlen]
    · cases hleft : y.remaining.consume? ps.length with
      | none => simp [hlen]
      | some left => simp [hlen, Nat.lt_of_not_le hlen, eq_comm]

/-- A batch is refused where the place is none of the yard's, where it has more pieces than can be
counted, and where it is larger than what is left; nowhere else. -/
theorem queue_eq_error_iff :
    (∃ f, y.queue place ps = .error f) ↔
      place ∉ y.places.map Place.territory ∨ countBound ≤ ps.length ∨
        y.remaining.fits ps.length = false := by
  rw [← place?_isSome_iff, ← Capacity.consume?_eq_none_iff]
  unfold queue
  cases hp : y.place? place with
  | none => simp
  | some p =>
    by_cases hlen : countBound ≤ ps.length
    · simp [hlen]
    · cases hleft : y.remaining.consume? ps.length <;> simp [hlen]

/-- Pieces go to the first place with the territory; the places around it stay. -/
theorem enqueue_split (ps : List Piece) {places : List Place}
    (h : place ∈ places.map Place.territory) :
    ∃ before p after, places = before ++ p :: after ∧ p.territory = place ∧
      enqueue place ps places = before ++ { p with queue := p.queue ++ ps } :: after := by
  induction places with
  | nil => simp at h
  | cons q rest ih =>
    by_cases hq : q.territory = place
    · exact ⟨[], q, rest, rfl, hq, by simp [enqueue, hq]⟩
    · have hrest : place ∈ rest.map Place.territory := by
        rw [List.map_cons, List.mem_cons] at h
        exact h.resolve_left (Ne.symm hq)
      obtain ⟨before, p, after, rfl, hp, henqueue⟩ := ih hrest
      exact ⟨q :: before, p, after, rfl, hp, by rw [enqueue, if_neg hq, henqueue]; rfl⟩

/-- A queued batch joins what waits already, and nothing else comes or goes. -/
theorem queued_perm_of_queue (h : y.queue place ps = .ok y') : y'.queued.Perm (y.queued ++ ps) := by
  obtain ⟨hplace, -, left, -, rfl⟩ := queue_eq_ok_iff.mp h
  obtain ⟨before, p, after, hsplit, -, henqueue⟩ := enqueue_split ps hplace
  unfold queued
  rw [henqueue, hsplit]
  simp only [List.flatMap_append, List.flatMap_cons, List.append_assoc]
  exact (List.Perm.append_left _ (List.Perm.append_left _ List.perm_append_comm))

/-! ## What a call leaves alone -/

/-- The yard with nothing queued and its whole capacity left. -/
def cleared (y : Yard) : Yard :=
  { y with remaining := y.capacity, places := y.places.map fun p => { p with queue := [] } }

theorem cleared_of_queue (h : y.queue place ps = .ok y') : y'.cleared = y.cleared := by
  obtain ⟨hplace, -, left, -, rfl⟩ := queue_eq_ok_iff.mp h
  obtain ⟨before, p, after, hsplit, -, henqueue⟩ := enqueue_split ps hplace
  unfold cleared
  rw [henqueue, hsplit]
  simp

theorem capacity_eq_of_cleared (h : y'.cleared = y.cleared) : y'.capacity = y.capacity := by
  show y'.cleared.capacity = y.cleared.capacity
  rw [h]

/-- The capacity, the remainder and the queues of a yard fit together. -/
def Balanced (y : Yard) : Prop :=
  match y.capacity with
  | .limited n => ∃ left, y.remaining = .limited left ∧ left + y.queuedCount = n
  | .unlimited => y.remaining = .unlimited

theorem Balanced.queue (hy : y.Balanced) (h : y.queue place ps = .ok y') : y'.Balanced := by
  have hcap : y'.capacity = y.capacity := capacity_eq_of_cleared (cleared_of_queue h)
  have hcount : y'.queuedCount = y.queuedCount + ps.length := by
    unfold queuedCount
    rw [(queued_perm_of_queue h).length_eq, List.length_append]
  have hleft : y.remaining.consume? ps.length = some y'.remaining := by
    obtain ⟨-, -, left, hleft, rfl⟩ := queue_eq_ok_iff.mp h
    exact hleft
  -- the sum stays: what the remainder loses, the queues gain
  unfold Balanced at hy ⊢
  rw [hcap, hcount]
  cases hc : y.capacity with
  | limited n =>
    simp only [hc] at hy ⊢
    obtain ⟨r, hr, hsum⟩ := hy
    rw [hr] at hleft
    obtain ⟨hfit, hrest⟩ := Capacity.consume?_limited_eq_some_iff.mp hleft
    exact ⟨r - ps.length, hrest, by omega⟩
  | unlimited =>
    simp only [hc] at hy ⊢
    rw [hy, Capacity.consume?, Option.some.injEq] at hleft
    exact hleft.symm

/-- A balanced yard holds no more than its capacity. -/
theorem Balanced.fits (hy : y.Balanced) : y.capacity.fits y.queuedCount = true := by
  unfold Balanced at hy
  cases hc : y.capacity with
  | limited n =>
    simp only [hc] at hy
    obtain ⟨r, -, hsum⟩ := hy
    simp only [Capacity.fits, decide_eq_true_eq]
    omega
  | unlimited => rfl

/-! ## Series of calls -/

/-- Takes so many pieces off a capacity in place, and says whether they fitted. -/
def takeOff (c : Capacity) (n : Nat) : Bool × Capacity :=
  match c with
  | .limited left => if n ≤ left then (true, .limited (left - n)) else (false, .limited left)
  | .unlimited => (true, .unlimited)

/-- A call made on a yard in place: its outcome, and what the yard is after it. The remainder is
written before the answer is known. -/
def queueInPlace (y : Yard) (place : TerritoryId) (ps : List Piece) : Except Fault Unit × Yard :=
  if (y.place? place).isNone then (.error (.notAPlace place y.territory), y)
  else if countBound ≤ ps.length then (.error .tooManyPieces, y)
  else
    let (fitted, left) := takeOff y.remaining ps.length
    let y := { y with remaining := left }
    if fitted then (.ok (), { y with places := enqueue place ps y.places })
    else (.error (.exceedsCapacity ps.length y.remaining y.territory), y)

/-- What a yard is after calls made on it one after the other, refused or not. -/
def queueAll (y : Yard) (calls : List (TerritoryId × List Piece)) : Yard :=
  calls.foldl (fun y call => (y.queueInPlace call.1 call.2).2) y

/-- A call in place gives what `queue` gives, and a refused one leaves the yard as it was. -/
theorem queueInPlace_eq (y : Yard) (place : TerritoryId) (ps : List Piece) :
    y.queueInPlace place ps =
      match y.queue place ps with
      | .ok y' => (.ok (), y')
      | .error f => (.error f, y) := by
  unfold queueInPlace queue
  split
  · rfl
  · split
    · rfl
    · obtain ⟨territory, capacity, remaining, places⟩ := y
      cases remaining with
      | unlimited => rfl
      | limited left =>
        by_cases hfit : ps.length ≤ left <;> simp [takeOff, Capacity.consume?, hfit]

theorem queueInPlace_of_error {f : Fault} (h : (y.queueInPlace place ps).1 = .error f) :
    (y.queueInPlace place ps).2 = y := by
  rw [queueInPlace_eq] at h ⊢
  cases hq : y.queue place ps with
  | ok y' =>
    rw [hq] at h
    cases h
  | error f => rfl

theorem queueAll_snoc (y : Yard) (calls : List (TerritoryId × List Piece))
    (call : TerritoryId × List Piece) :
    y.queueAll (calls ++ [call]) = ((y.queueAll calls).queueInPlace call.1 call.2).2 := by
  unfold queueAll
  rw [List.foldl_append]
  rfl

/-- What every granted call preserves holds after any calls. -/
theorem queueAll_invariant {P : Yard → Prop}
    (hstep : ∀ y y' place ps, y.queue place ps = .ok y' → P y → P y') (hy : P y)
    (calls : List (TerritoryId × List Piece)) : P (y.queueAll calls) := by
  induction calls using List.reverseRecOn with
  | nil => exact hy
  | append_singleton calls call ih =>
    rw [queueAll_snoc, queueInPlace_eq]
    cases hq : (y.queueAll calls).queue call.1 call.2 with
    | ok y' => exact hstep _ y' _ _ hq ih
    | error f => exact ih

theorem cleared_queueAll (y : Yard) (calls : List (TerritoryId × List Piece)) :
    (y.queueAll calls).cleared = y.cleared :=
  queueAll_invariant (P := fun z => z.cleared = y.cleared)
    (fun _ _ _ _ hq hz => (cleared_of_queue hq).trans hz) rfl calls

theorem Balanced.queueAll (hy : y.Balanced) (calls : List (TerritoryId × List Piece)) :
    (y.queueAll calls).Balanced :=
  queueAll_invariant (fun _ _ _ _ hq hz => hz.queue hq) hy calls

/-! ## New yards -/

/-- A yard in which nothing waits. -/
def IsClear (y : Yard) : Prop := y.cleared = y

theorem IsClear.queued_eq_nil (h : y.IsClear) : y.queued = [] := by
  unfold IsClear at h
  rw [← h]
  unfold queued cleared
  simp

theorem IsClear.balanced (h : y.IsClear) : y.Balanced := by
  have hrem : y.remaining = y.capacity := by
    conv_lhs => rw [← h]
    rfl
  have hcount : y.queuedCount = 0 := by rw [queuedCount, h.queued_eq_nil]; rfl
  unfold Balanced
  cases hc : y.capacity with
  | limited n => exact ⟨n, hrem.trans hc, by rw [hcount]; rfl⟩
  | unlimited => exact hrem.trans hc

end Yard

end Quartermaster
