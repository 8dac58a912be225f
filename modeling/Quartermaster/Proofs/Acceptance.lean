import Mathlib.Algebra.Ring.Nat
import Quartermaster.Proofs.Antitone

/-!
# Offers that the rules accept

Two batches of one offer differ in the numbers of their pieces, and the rules look at no number
(`PlaceTurn.check_congr`). So it is the offer that they accept or refuse: trying a list of offers
keeps those that they accept, in the order of the list and whatever numbers have been used up
(`Arbiter.map_fst_permitted`).
-/

namespace Quartermaster

variable {s : Snapshot} {player : PlayerId} {place : TerritoryId} {t : Territory} {o : Offer}
  {offers : List Offer} {ps qs already : List Piece} {source source' : PieceSource}

/-! ## Pieces alike -/

namespace PlaceTurn

variable {turn : PlaceTurn}

theorem checkPieces_congr (h : ps.map Piece.sort = qs.map Piece.sort) :
    turn.checkPieces s t place ps = turn.checkPieces s t place qs := by
  induction ps generalizing qs with
  | nil =>
    obtain rfl : qs = [] := List.map_eq_nil_iff.mp h.symm
    rfl
  | cons p ps ih =>
    obtain ⟨q, qs, rfl, hsort, hrest⟩ := List.map_eq_cons_iff.mp h.symm
    obtain ⟨hkind, howner⟩ := Prod.mk.inj hsort
    rw [checkPieces, checkPieces, ih hrest.symm, hkind, howner]

/-- The rules answer alike for pieces of the same kinds and owners. -/
theorem check_congr (h : ps.map Piece.sort = qs.map Piece.sort) :
    turn.check s place ps = turn.check s place qs := by
  have hlength : ps.length = qs.length := by
    have hlengths := congrArg List.length h
    rwa [List.length_map, List.length_map] at hlengths
  have hempty : ps.isEmpty = qs.isEmpty := by
    rw [Bool.eq_iff_iff, List.isEmpty_iff_length_eq_zero, List.isEmpty_iff_length_eq_zero, hlength]
  have hfold : ∀ l : List Piece, Stack.countBy Piece.kind l =
      (l.map Piece.kind).foldl (fun m k => m.update k fun n => n.getD 0 + 1) .empty := by
    intro l
    rw [List.foldl_map]
    rfl
  have hkinds : ps.map Piece.kind = qs.map Piece.kind := by
    have hkinds := congrArg (List.map Prod.fst) h
    rwa [List.map_map, List.map_map] at hkinds
  have hcount : Stack.countBy Piece.kind ps = Stack.countBy Piece.kind qs := by
    rw [hfold, hfold, hkinds]
  unfold check
  simp only [hempty, checkPieces_congr h, hlength, hcount]

end PlaceTurn

/-! ## Acceptance -/

/-- A batch of an offer may be placed, whatever numbers its pieces have. -/
def Arbiter.Accepts (arbiter : Arbiter) (place : TerritoryId) (player : PlayerId)
    (already : List Piece) (o : Offer) : Prop :=
  ∃ ps source source', o.materialize source player = .ok (ps, source') ∧
    arbiter.permits place ps player already = .ok true

namespace Arbiter

/-- Any batch of an offer tells whether the rules accept it. -/
theorem accepts_iff (hmade : o.materialize source player = .ok (ps, source')) :
    (ofRules s).Accepts place player already o ↔
      (ofRules s).permits place ps player already = .ok true := by
  constructor
  · rintro ⟨qs, source₁, source₁', hmade', hpermits⟩
    have hsort : ps.map Piece.sort = qs.map Piece.sort := by
      rw [Offer.map_sort_of_materialize hmade, Offer.map_sort_of_materialize hmade']
    rw [permits_eq_true_iff] at hpermits ⊢
    exact (PlaceTurn.check_congr hsort).trans hpermits
  · exact fun hpermits => ⟨ps, source, source', hmade, hpermits⟩

variable {batches : List (Offer × List Piece)}

open Classical in
/-- Trying offers keeps those that the rules accept. -/
theorem map_fst_permitted
    (h : (ofRules s).permitted place player already offers source = (.ok batches, source')) :
    batches.map Prod.fst =
      offers.filter fun o => decide ((ofRules s).Accepts place player already o) := by
  induction offers generalizing source batches with
  | nil =>
    obtain ⟨rfl, -⟩ : batches = [] ∧ source' = source := by
      simpa [permitted, eq_comm] using h
    rfl
  | cons o offers ih =>
    obtain ⟨ps, source₁, allowed, rest, hmade, hallowed, hrest, rfl⟩ := permitted_cons_eq_ok h
    have haccepts : (ofRules s).Accepts place player already o ↔
        (ofRules s).permits place ps player already = .ok true := accepts_iff hmade
    rw [List.filter_cons, ← ih hrest]
    simp only [haccepts, hallowed]
    cases allowed <;> rfl

/-- Every offer that is tried uses up the numbers of one batch. -/
theorem source_of_permitted {arbiter : Arbiter}
    (h : arbiter.permitted place player already offers source = (.ok batches, source')) :
    source' = ⟨source.next + (offers.map Offer.quantity).sum⟩ := by
  induction offers generalizing source batches with
  | nil =>
    obtain ⟨-, rfl⟩ : batches = [] ∧ source' = source := by
      simpa [permitted, eq_comm] using h
    rfl
  | cons o offers ih =>
    obtain ⟨ps, source₁, allowed, rest, hmade, -, hrest, -⟩ := permitted_cons_eq_ok h
    obtain ⟨-, -, rfl⟩ := Offer.materialize_eq_ok_iff.mp hmade
    rw [ih hrest, List.map_cons, List.sum_cons, Nat.add_assoc]

open Classical in
/-- The first of the best among the batches that may be placed is that of the first of the best
among the offers that the rules accept. -/
theorem foremost_of_permitted {score : Offer → Fixed} {P : Offer → Prop}
    (h : (ofRules s).permitted place player already offers source = (.ok batches, source'))
    (hfirst : Selection.Foremost score P (batches.map Prod.fst) o) :
    Selection.Foremost score (fun o => (ofRules s).Accepts place player already o ∧ P o) offers
      o := by
  rw [map_fst_permitted h] at hfirst
  refine hfirst.of_filter.congr fun b _ => ?_
  rw [decide_eq_true_iff]

end Arbiter

end Quartermaster
