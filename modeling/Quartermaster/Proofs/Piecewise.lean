import Mathlib.Data.List.Nodup
import Quartermaster.Samples

/-!
# One piece at a time

Lists of pieces are added, removed and looked for with a set of numbers beside the stack, single
pieces by a scan of it. `bulk_eq_each` says that the two ways never differ: not where numbers are
repeated in the list, nor where they are held already, nor where they are missing. Removal needs
a stack without repeated numbers, since a single removal takes only the first piece of its number.

Each change says what it did, and what it says is true (`StackChange.Tells`). So whoever looks at
the report alone knows whether the stack is another one.
-/

namespace Quartermaster

/-! ## What a change says -/

namespace StackChange

variable {c : StackChange} {s t : Stack}

/-- How many pieces came or went. -/
def count : StackChange → Nat
  | .unchanged => 0
  | .added n => n
  | .removed n => n

/-- What a change says of the stacks before and after it. -/
def Tells : StackChange → Stack → Stack → Prop
  | .unchanged, s, t => t = s
  | .added n, s, t => ∃ new, t.pieces = s.pieces ++ new ∧ new.length = n
  | .removed n, s, t => t.pieces.Sublist s.pieces ∧ s.size = t.size + n

theorem Tells.isChanged_iff (h : c.Tells s t) : c.isChanged = true ↔ t ≠ s := by
  cases c with
  | unchanged => exact iff_of_false Bool.false_ne_true (not_not_intro h)
  | added n =>
    obtain ⟨new, hpieces, rfl⟩ := h
    have hsame : t = s ↔ new = [] := by
      constructor
      · rintro rfl
        exact List.self_eq_append_right.mp hpieces
      · rintro rfl
        exact congrArg Stack.mk (hpieces.trans (List.append_nil _))
    simp [isChanged, hsame]
  | removed n =>
    obtain ⟨hsub, hsize⟩ := h
    have hsame : t = s ↔ n = 0 := by
      constructor
      · rintro rfl
        exact Nat.left_eq_add.mp hsize
      · rintro rfl
        exact congrArg Stack.mk (hsub.eq_of_length hsize.symm)
    simp [isChanged, hsame]

theorem Tells.eq_of_unchanged (h : c.Tells s t) (hc : c.isChanged = false) : t = s := by
  by_contra hne
  rw [h.isChanged_iff.mpr hne] at hc
  cases hc

end StackChange

namespace Stack

variable {s : Stack}

/-! ## Questions -/

theorem contains_eq (s : Stack) (id : PieceId) : s.contains id = s.ids.contains id := by
  rw [Bool.eq_iff_iff]
  simp [contains, ids]

/-- The set of the numbers held answers as a scan does. -/
theorem contains_ofList_ids (s : Stack) (id : PieceId) :
    (Std.HashSet.ofList s.ids).contains id = s.contains id :=
  Std.HashSet.contains_ofList.trans (s.contains_eq id).symm

theorem containsAll_eq_all (s : Stack) (ids : List PieceId) :
    s.containsAll ids = ids.all s.contains := by
  unfold containsAll
  split
  · exact congrArg ids.all (funext s.contains_ofList_ids)
  · rfl

/-! ## Additions -/

theorem add_tells (s : Stack) (p : Piece) : (s.add p).2.Tells s (s.add p).1 := by
  unfold add
  split
  · rfl
  · exact ⟨[p], rfl, rfl⟩

theorem addAll_tells (s : Stack) (ps : List Piece) : (s.addAll ps).2.Tells s (s.addAll ps).1 :=
  ⟨newcomers (.ofList s.ids) ps, rfl, rfl⟩

/-- Adds the pieces of a list one at a time, and counts those that came. -/
def addEach (s : Stack) : List Piece → Stack × Nat
  | [] => (s, 0)
  | p :: ps =>
    let (s, change) := s.add p
    let (s, n) := s.addEach ps
    (s, change.count + n)

/-- Those who come one at a time are the newcomers, as long as the numbers seen are those that the
stack holds. -/
theorem addEach_eq {seen : Std.HashSet PieceId} (h : ∀ id, seen.contains id = s.contains id)
    (ps : List Piece) :
    s.addEach ps = (⟨s.pieces ++ newcomers seen ps⟩, (newcomers seen ps).length) := by
  induction ps generalizing s seen with
  | nil => simp [addEach, newcomers]
  | cons p ps ih =>
    rw [addEach, newcomers, h, add]
    by_cases hheld : s.contains p.id = true
    · simp only [if_pos hheld, ih h, StackChange.count, Nat.zero_add]
    · have hnext : ∀ id, (seen.insert p.id).contains id =
          (⟨s.pieces ++ [p]⟩ : Stack).contains id := by
        intro id
        rw [Std.HashSet.contains_insert, h, contains, contains, List.any_append]
        simp [Bool.or_comm]
      simp only [if_neg hheld, ih hnext, StackChange.count, List.append_assoc,
        List.singleton_append, List.length_cons, Nat.add_comm]

theorem addAll_eq_addEach (s : Stack) (ps : List Piece) :
    s.addAll ps = ((s.addEach ps).1, .added (s.addEach ps).2) := by
  rw [addEach_eq s.contains_ofList_ids]
  rfl

theorem size_addEach (s : Stack) (ps : List Piece) :
    (s.addEach ps).1.size = s.size + (s.addEach ps).2 := by
  rw [addEach_eq s.contains_ofList_ids]
  exact List.length_append

/-! ## Removals -/

theorem size_remove (s : Stack) (id : PieceId) :
    s.size = (s.remove id).1.size + (s.remove id).2.1.count := by
  unfold remove
  cases hfind : s.pieces.find? fun p => p.id == id with
  | none => rfl
  | some p =>
    have hmem := List.mem_of_find?_eq_some hfind
    have hlength := List.length_eraseP_of_mem hmem (List.find?_some hfind)
    have hpos := List.length_pos_of_mem hmem
    show s.pieces.length = (s.pieces.eraseP _).length + 1
    omega

theorem remove_pieces (s : Stack) (id : PieceId) :
    (s.remove id).1.pieces = s.pieces.eraseP fun p => p.id == id := by
  unfold remove
  cases hfind : s.pieces.find? fun p => p.id == id with
  | none => exact (List.eraseP_of_forall_not (List.find?_eq_none.mp hfind)).symm
  | some p => rfl

theorem remove_tells (s : Stack) (id : PieceId) : (s.remove id).2.1.Tells s (s.remove id).1 := by
  have hsize := s.size_remove id
  unfold remove at hsize ⊢
  cases hfind : s.pieces.find? fun p => p.id == id with
  | none => rfl
  | some p =>
    rw [hfind] at hsize
    exact ⟨List.eraseP_sublist, hsize⟩

theorem removeAll_tells (s : Stack) (ids : List PieceId) :
    (s.removeAll ids).2.Tells s (s.removeAll ids).1 := by
  refine ⟨List.filter_sublist, ?_⟩
  exact (Nat.add_sub_of_le (List.length_filter_le ..)).symm

theorem clear_tells (s : Stack) : s.clear.2.Tells s s.clear.1 :=
  ⟨List.nil_sublist _, (Nat.zero_add _).symm⟩

/-- Removes the listed numbers one at a time, and counts the pieces that went. -/
def removeEach (s : Stack) : List PieceId → Stack × Nat
  | [] => (s, 0)
  | id :: ids =>
    let (s, change, _) := s.remove id
    let (s, n) := s.removeEach ids
    (s, change.count + n)

theorem size_removeEach (s : Stack) (ids : List PieceId) :
    s.size = (s.removeEach ids).1.size + (s.removeEach ids).2 := by
  induction ids generalizing s with
  | nil => rfl
  | cons id ids ih =>
    have hone := s.size_remove id
    have hrest := ih (s.remove id).1
    show s.size = ((s.remove id).1.removeEach ids).1.size +
      ((s.remove id).2.1.count + ((s.remove id).1.removeEach ids).2)
    omega

/-- Without repeated numbers there is nothing to remove behind the first piece of a number. -/
theorem eraseP_eq_filter {ps : List Piece} (h : (ps.map Piece.id).Nodup) (id : PieceId) :
    (ps.eraseP fun p => p.id == id) = ps.filter fun p => p.id != id := by
  induction ps with
  | nil => rfl
  | cons p ps ih =>
    obtain ⟨hfresh, hrest⟩ := List.nodup_cons.mp h
    by_cases hp : p.id = id
    · subst hp
      have hothers : ∀ q ∈ ps, (q.id != p.id) = true := fun q hq =>
        bne_iff_ne.mpr fun hid => hfresh (hid ▸ List.mem_map_of_mem hq)
      simp [List.filter_eq_self.mpr hothers]
    · simp [hp, ih hrest]

theorem remove_pieces_of_nodup (h : s.ids.Nodup) (id : PieceId) :
    (s.remove id).1.pieces = s.pieces.filter fun p => p.id != id :=
  (s.remove_pieces id).trans (eraseP_eq_filter h id)

theorem removeEach_pieces (h : s.ids.Nodup) (ids : List PieceId) :
    (s.removeEach ids).1.pieces = s.pieces.filter fun p => !ids.contains p.id := by
  induction ids generalizing s with
  | nil => simp [removeEach]
  | cons id ids ih =>
    have hnext : (s.remove id).1.ids.Nodup := by
      unfold Stack.ids
      rw [remove_pieces_of_nodup h]
      exact h.sublist (List.filter_sublist.map _)
    show ((s.remove id).1.removeEach ids).1.pieces = _
    rw [ih hnext, remove_pieces_of_nodup h, List.filter_filter]
    refine List.filter_congr fun p _ => ?_
    rw [List.contains_cons, Bool.not_or, Bool.and_comm]
    rfl

theorem removeAll_pieces (s : Stack) (ids : List PieceId) :
    (s.removeAll ids).1.pieces = s.pieces.filter fun p => !ids.contains p.id := by
  unfold removeAll
  simp only [Std.HashSet.contains_ofList]

theorem removeAll_eq_removeEach (h : s.ids.Nodup) (ids : List PieceId) :
    s.removeAll ids = ((s.removeEach ids).1, .removed (s.removeEach ids).2) := by
  have hstack : (s.removeAll ids).1 = (s.removeEach ids).1 :=
    congrArg Stack.mk ((s.removeAll_pieces ids).trans (removeEach_pieces h ids).symm)
  have hsize := s.size_removeEach ids
  refine Prod.ext hstack ?_
  show StackChange.removed (s.size - (s.removeAll ids).1.size) = _
  rw [hstack]
  exact congrArg StackChange.removed (by omega)

/-! ## Lists -/

/-- Whatever is done to a list of pieces at once is what is done to them one at a time. As many are
reported as came or went, which is as much as the stack grew or shrank; and a report is one of a
change exactly if there is one. -/
theorem bulk_eq_each (s : Stack) (ps : List Piece) (ids : List PieceId) :
    (s.addAll ps = ((s.addEach ps).1, .added (s.addEach ps).2) ∧
      (s.addEach ps).1.size = s.size + (s.addEach ps).2) ∧
    (s.ids.Nodup → s.removeAll ids = ((s.removeEach ids).1, .removed (s.removeEach ids).2) ∧
      s.size = (s.removeEach ids).1.size + (s.removeEach ids).2) ∧
    s.containsAll ids = ids.all s.contains ∧
    ((s.addAll ps).2.isChanged = true ↔ (s.addAll ps).1 ≠ s) ∧
    ((s.removeAll ids).2.isChanged = true ↔ (s.removeAll ids).1 ≠ s) ∧
    (s.clear.2.isChanged = true ↔ s.clear.1 ≠ s) ∧
    (∀ p, (s.add p).2.isChanged = true ↔ (s.add p).1 ≠ s) ∧
    ∀ id, (s.remove id).2.1.isChanged = true ↔ (s.remove id).1 ≠ s := by
  refine ⟨⟨s.addAll_eq_addEach ps, s.size_addEach ps⟩, fun h => ?_, s.containsAll_eq_all ids,
    (s.addAll_tells ps).isChanged_iff, (s.removeAll_tells ids).isChanged_iff,
    s.clear_tells.isChanged_iff, fun p => (s.add_tells p).isChanged_iff,
    fun id => (s.remove_tells id).isChanged_iff⟩
  exact ⟨removeAll_eq_removeEach h ids, s.size_removeEach ids⟩

/-- One of the pieces that come is held and one comes twice; one of the numbers that go is missing
and one is listed twice. -/
theorem bulk_eq_each_mixed :
    let infantry (number : Nat) := Samples.piece number Samples.infantry Samples.red
    let s : Stack := ⟨[infantry 1, infantry 2, infantry 3]⟩
    s.ids.Nodup ∧
      s.addAll [infantry 4, infantry 2, infantry 4, infantry 5] =
        (⟨[infantry 1, infantry 2, infantry 3, infantry 4, infantry 5]⟩, .added 2) ∧
      s.removeAll [⟨2⟩, ⟨9⟩, ⟨2⟩] = (⟨[infantry 1, infantry 3]⟩, .removed 1) := by
  intro infantry s
  have hnodup : s.ids.Nodup := by decide
  obtain ⟨⟨hadd, -⟩, hremove, -⟩ :=
    bulk_eq_each s [infantry 4, infantry 2, infantry 4, infantry 5] [⟨2⟩, ⟨9⟩, ⟨2⟩]
  refine ⟨hnodup, hadd.trans ?_, (hremove hnodup).1.trans ?_⟩
  · decide
  · decide

end Stack

end Quartermaster
