import Quartermaster.Proofs.Board
import Quartermaster.Proofs.Piecewise

/-!
# Garrisons

The pieces of a territory in the course of time, and the tally kept beside them.

A territory takes a new tally only when its stack reports a change, so each report has to be right:
one that keeps silent leaves the stack as it was (`StackChange.Tells.eq_of_unchanged`). From this the
tally counts the stack after any changes (`built_iff`).

Which pieces are there, and in what order, is told by `Movement.held`. It looks at a history from
its beginning and asks of each piece that comes whether its number is taken away later; it knows
nothing of stacks. That it describes them rests on one law for each kind of movement
(`held_snoc_comes`, `held_snoc_goes`, `held_snoc_allGo`).
-/

namespace Quartermaster

/-! ## Comings and goings -/

/-- What happens in a territory to one number, or to all. -/
inductive Movement where
  | comes (p : Piece)
  | goes (id : PieceId)
  | allGo

namespace Movement

variable {ms : List Movement} {p : Piece} {id : PieceId}

/-- Whether a number is taken away. -/
def takes (id : PieceId) : Movement → Bool
  | .comes _ => false
  | .goes gone => gone == id
  | .allGo => true

/-- The pieces that a territory holds after movements, if it held none before, in the order in which
they came. A piece is held if its number is not taken away after it came. Then whoever comes
later with the same number is turned away. -/
def held : List Movement → List Piece
  | [] => []
  | .comes p :: ms =>
    if ms.any (takes p.id) then held ms else p :: (held ms).filter fun q => q.id != p.id
  | .goes _ :: ms => held ms
  | .allGo :: ms => held ms

/-- The numbers of the pieces held. -/
def heldIds (ms : List Movement) : List PieceId := (held ms).map Piece.id

theorem nodup_heldIds (ms : List Movement) : (heldIds ms).Nodup := by
  unfold heldIds
  induction ms with
  | nil => exact List.nodup_nil
  | cons m ms ih =>
    cases m with
    | comes p =>
      rw [held]
      split
      · exact ih
      · rw [List.map_cons, List.nodup_cons]
        constructor
        · intro hmem
          obtain ⟨q, hq, hid⟩ := List.mem_map.mp hmem
          have hother := (List.mem_filter.mp hq).2
          rw [hid, bne_self_eq_false] at hother
          cases hother
        · exact ih.sublist (List.filter_sublist.map _)
    | goes id => exact ih
    | allGo => exact ih

/-- Who comes is held behind the others, unless the number is held already. -/
theorem held_snoc_comes (ms : List Movement) (p : Piece) :
    held (ms ++ [.comes p]) = if p.id ∈ heldIds ms then held ms else held ms ++ [p] := by
  unfold heldIds
  induction ms with
  | nil => rfl
  | cons m ms ih =>
    cases m with
    | comes q =>
      have hlater : (ms ++ [comes p]).any (takes q.id) = ms.any (takes q.id) := by
        rw [List.any_append]
        exact Bool.or_false _
      rw [List.cons_append, held, hlater, held, ih]
      cases ms.any (takes q.id) with
      | true => rfl
      | false =>
        -- the first piece stays, and turns away the newcomer if the number is the same
        simp only [Bool.false_eq_true, if_false, List.map_cons, List.mem_cons]
        by_cases hsame : p.id = q.id
        · rw [if_pos (Or.inl hsame)]
          split
          · rfl
          · rw [List.filter_append]
            simp [hsame]
        · have hkept : p.id ∈ ((held ms).filter fun r => r.id != q.id).map Piece.id ↔
              p.id ∈ (held ms).map Piece.id := by
            simp only [List.mem_map, List.mem_filter, bne_iff_ne]
            constructor
            · rintro ⟨r, ⟨hr, -⟩, hid⟩
              exact ⟨r, hr, hid⟩
            · rintro ⟨r, hr, hid⟩
              exact ⟨r, ⟨hr, hid ▸ hsame⟩, hid⟩
          simp only [hsame, false_or, hkept]
          split
          · rfl
          · rw [List.filter_append]
            simp [hsame]
    | goes id => exact ih
    | allGo => exact ih

/-- Who goes is no longer held. -/
theorem held_snoc_goes (ms : List Movement) (id : PieceId) :
    held (ms ++ [.goes id]) = (held ms).filter fun q => q.id != id := by
  induction ms with
  | nil => rfl
  | cons m ms ih =>
    cases m with
    | comes q =>
      have hlater : (ms ++ [goes id]).any (takes q.id) = (ms.any (takes q.id) || id == q.id) := by
        rw [List.any_append]
        simp [takes]
      rw [List.cons_append, held, hlater, held, ih]
      cases ms.any (takes q.id) with
      | true => rfl
      | false =>
        simp only [Bool.false_or, Bool.false_eq_true, if_false]
        by_cases hsame : id = q.id
        · subst hsame
          simp
        · have hstays : (q.id != id) = true := bne_iff_ne.mpr (Ne.symm hsame)
          rw [if_neg (by simpa using hsame), List.filter_cons, if_pos hstays, List.filter_filter,
            List.filter_filter]
          simp only [Bool.and_comm]
    | goes other => exact ih
    | allGo => exact ih

theorem held_snoc_allGo (ms : List Movement) : held (ms ++ [.allGo]) = [] := by
  induction ms with
  | nil => rfl
  | cons m ms ih =>
    cases m with
    | comes q =>
      rw [List.cons_append, held, if_pos (by simp [takes])]
      exact ih
    | goes id => exact ih
    | allGo => exact ih

/-- A list without repeated numbers is held as it comes. -/
theorem held_map_comes {ps : List Piece} (h : (ps.map Piece.id).Nodup) :
    held (ps.map .comes) = ps := by
  induction ps using List.reverseRecOn with
  | nil => rfl
  | append_singleton ps p ih =>
    rw [List.map_append, List.nodup_append] at h
    obtain ⟨hps, -, hdisjoint⟩ := h
    rw [List.map_append, List.map_singleton, held_snoc_comes, heldIds, ih hps, if_neg]
    intro hmem
    exact hdisjoint _ hmem _ (List.mem_singleton_self _) rfl

end Movement

/-! ## Stacks -/

namespace Stack

variable {s : Stack} {ms : List Movement}

theorem add_held (h : s.pieces = Movement.held ms) (p : Piece) :
    (s.add p).1.pieces = Movement.held (ms ++ [.comes p]) := by
  have hheld : s.contains p.id = true ↔ p.id ∈ Movement.heldIds ms := by
    rw [contains_eq, List.contains_iff_mem, ids, h, Movement.heldIds]
  rw [Movement.held_snoc_comes, ← h, add]
  by_cases hp : p.id ∈ Movement.heldIds ms
  · rw [if_pos (hheld.mpr hp), if_pos hp]
  · rw [if_neg (mt hheld.mp hp), if_neg hp]

/-- A list that comes at once is held as if its pieces came one at a time. -/
theorem addAll_held (h : s.pieces = Movement.held ms) (ps : List Piece) :
    (s.addAll ps).1.pieces = Movement.held (ms ++ ps.map .comes) := by
  rw [addAll_eq_addEach]
  induction ps generalizing s ms with
  | nil =>
    rw [List.map_nil, List.append_nil]
    exact h
  | cons p ps ih =>
    have hone : ms ++ (p :: ps).map .comes = (ms ++ [.comes p]) ++ ps.map .comes := by simp
    rw [hone]
    exact ih (add_held h p)

/-- Of a list of numbers that go, no piece stays. -/
theorem removeAll_held (h : s.pieces = Movement.held ms) (ids : List PieceId) :
    (s.removeAll ids).1.pieces = Movement.held (ms ++ ids.map .goes) := by
  rw [removeAll_pieces, h]
  induction ids using List.reverseRecOn with
  | nil => simp [List.filter_eq_self.mpr]
  | append_singleton ids id ih =>
    rw [List.map_append, List.map_singleton, ← List.append_assoc, Movement.held_snoc_goes, ← ih,
      List.filter_filter]
    refine List.filter_congr fun p _ => ?_
    rw [Bool.eq_iff_iff]
    simp [and_comm]

end Stack

/-! ## Territories -/

namespace Territory

variable {t start : Territory}

/-- What may happen to the stack of a territory. Starting pieces are placed by adding them. -/
inductive Change where
  | add (ps : List Piece)
  | remove (ids : List PieceId)
  | clear
  | restore

/-- The movements of pieces in a change; storing a territory and reading it again moves none. -/
def Change.movements : Change → List Movement
  | .add ps => ps.map .comes
  | .remove ids => ids.map .goes
  | .clear => [.allGo]
  | .restore => []

/-- What a territory is after a change. -/
def change (t : Territory) : Change → Territory
  | .add ps => t.addPieces ps
  | .remove ids => t.removePieces ids
  | .clear => t.clearPieces
  | .restore => .ofRecord t.toRecord

/-- What a territory is after changes made one after the other. -/
def changeAll (t : Territory) (changes : List Change) : Territory := changes.foldl change t

theorem changeAll_snoc (t : Territory) (changes : List Change) (c : Change) :
    t.changeAll (changes ++ [c]) = (t.changeAll changes).change c := by
  unfold changeAll
  rw [List.foldl_append]
  rfl

@[simp] theorem stack_restack (t : Territory) (c : Stack × StackChange) :
    (t.restack c).stack = c.1 := by
  unfold restack
  split <;> rfl

/-- A territory as it is made: bare land or water, or what a record describes. -/
inductive Fresh : Territory → Prop
  | bare (id : TerritoryId) (name : String) (isWater : Bool) : Fresh { id, name, isWater }
  | ofRecord (r : TerritoryRecord) : Fresh (.ofRecord r)

/-- A territory as it may come about. -/
def Built (t : Territory) : Prop := ∃ start changes, Fresh start ∧ t = start.changeAll changes

/-! ### The tally -/

/-- The tally counts the stack, if a change that is not reported is none. -/
theorem tally_restack (h : t.tally = .ofPieces t.stack.pieces) {c : Stack × StackChange}
    (hc : c.2.isChanged = false → c.1 = t.stack) :
    (t.restack c).tally = .ofPieces (t.restack c).stack.pieces := by
  rw [stack_restack]
  unfold restack
  split
  · rfl
  · rename_i hsame
    rw [hc (Bool.not_eq_true _ ▸ hsame)]
    exact h

theorem tally_change (h : t.tally = .ofPieces t.stack.pieces) (c : Change) :
    (t.change c).tally = .ofPieces (t.change c).stack.pieces := by
  cases c with
  | add ps => exact tally_restack h (t.stack.addAll_tells ps).eq_of_unchanged
  | remove ids => exact tally_restack h (t.stack.removeAll_tells ids).eq_of_unchanged
  | clear => exact tally_restack h t.stack.clear_tells.eq_of_unchanged
  | restore => rfl

theorem tally_changeAll (h : Fresh start) (changes : List Change) :
    (start.changeAll changes).tally = .ofPieces (start.changeAll changes).stack.pieces := by
  induction changes using List.reverseRecOn with
  | nil => cases h <;> rfl
  | append_singleton changes c ih =>
    rw [changeAll_snoc]
    exact tally_change ih c

/-- A territory may come about exactly when its tally counts its stack. -/
theorem built_iff : t.Built ↔ t.tally = .ofPieces t.stack.pieces := by
  constructor
  · rintro ⟨start, changes, hstart, rfl⟩
    exact tally_changeAll hstart changes
  · intro h
    refine ⟨.ofRecord t.toRecord, [], .ofRecord _, ?_⟩
    cases t
    exact congrArg _ h

/-! ### The stack -/

theorem stack_change {ms : List Movement} (h : t.stack.pieces = Movement.held ms) (c : Change) :
    (t.change c).stack.pieces = Movement.held (ms ++ c.movements) := by
  cases c with
  | add ps =>
    show (t.restack (t.stack.addAll ps)).stack.pieces = _
    rw [stack_restack, Change.movements, Stack.addAll_held h]
  | remove ids =>
    show (t.restack (t.stack.removeAll ids)).stack.pieces = _
    rw [stack_restack, Change.movements, Stack.removeAll_held h]
  | clear =>
    show (t.restack t.stack.clear).stack.pieces = _
    rw [stack_restack, Change.movements, Movement.held_snoc_allGo]
    rfl
  | restore =>
    rw [Change.movements, List.append_nil]
    exact h

theorem stack_changeAll (h : start.stack.ids.Nodup) (changes : List Change) :
    (start.changeAll changes).stack.pieces =
      Movement.held (start.stack.pieces.map .comes ++ changes.flatMap Change.movements) := by
  induction changes using List.reverseRecOn with
  | nil =>
    rw [List.flatMap_nil, List.append_nil, Movement.held_map_comes h]
    rfl
  | append_singleton changes c ih =>
    rw [changeAll_snoc, stack_change ih, List.flatMap_append, List.append_assoc,
      List.flatMap_singleton]

/-- What holds of a territory after any history, from bare ground or from any record. The tally
counts for each owner and kind the pieces of the stack, and has no entry of zero. Where no number
was repeated at the start, none is repeated, and the pieces stand in the order in which those still
held came first. -/
theorem changeAll_counts (h : Fresh start) (changes : List Change) :
    let t := start.changeAll changes
    (∀ owner kind, t.countOwned owner kind = t.stack.countOfKindOwnedBy kind owner) ∧
    (∀ e ∈ t.tally.entries, 0 < e.2) ∧
    (start.stack.ids.Nodup → t.stack.ids.Nodup ∧
      t.stack.pieces =
        Movement.held (start.stack.pieces.map .comes ++ changes.flatMap Change.movements)) := by
  intro t
  have htally : t.tally = .ofPieces t.stack.pieces := tally_changeAll h changes
  refine ⟨?_, ?_, ?_⟩
  · intro owner kind
    rw [countOwned_eq_countP htally, Stack.countOfKindOwnedBy]
    simp only [Bool.and_comm]
  · rintro ⟨key, n⟩ he
    rw [htally] at he
    exact (Stack.mem_entries_countBy.mp he).2
  · intro hnodup
    have hheld := stack_changeAll hnodup changes
    refine ⟨?_, hheld⟩
    rw [Stack.ids, hheld]
    exact Movement.nodup_heldIds _

/-- Of two pieces the first leaves and comes back behind a third. That one came together with a
piece whose number is held, and which is turned away. -/
theorem changeAll_counts_returning :
    let infantry (number : Nat) := Samples.piece number Samples.infantry Samples.red
    let r : TerritoryRecord :=
      { id := Samples.redProvince, name := "Red Province", isWater := false
        stack := ⟨[infantry 1, Samples.piece 2 Samples.tank Samples.red]⟩ }
    Fresh (ofRecord r) ∧ r.stack.ids.Nodup ∧
      ∃ t, (ofRecord r).changeAll [.add [infantry 2, infantry 3], .remove [⟨1⟩], .restore,
          .add [infantry 1]] = t ∧
        t.stack.pieces = [Samples.piece 2 Samples.tank Samples.red, infantry 3, infantry 1] ∧
        t.countOwned Samples.red Samples.infantry = 2 := by
  intro infantry r
  have hfresh : Fresh (ofRecord r) := .ofRecord r
  have hnodup : r.stack.ids.Nodup := by decide
  obtain ⟨hcount, -, hstack⟩ := changeAll_counts hfresh
    [.add [infantry 2, infantry 3], .remove [⟨1⟩], .restore, .add [infantry 1]]
  obtain ⟨-, hpieces⟩ := hstack hnodup
  refine ⟨hfresh, hnodup, _, rfl, ?_, ?_⟩
  · rw [hpieces]
    decide
  · rw [hcount, Stack.countOfKindOwnedBy, hpieces]
    decide

end Territory

end Quartermaster
