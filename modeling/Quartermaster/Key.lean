/-!
# Map keys

A key type carries a strict linear order, decided by a Boolean comparison. Sorted maps and
sets are built on it, so that two maps with the same contents are equal as values and every
walk over one visits its keys in ascending order.

Pairs and lists are in lexicographic order; text is ordered by its character codes.
-/

namespace Quartermaster

/-- A strict linear order with a Boolean comparison. -/
class Key (κ : Type) where
  /-- Whether the first key comes strictly before the second. -/
  lt : κ → κ → Bool
  lt_irrefl : ∀ a, lt a a = false
  lt_trans : ∀ {a b c}, lt a b = true → lt b c = true → lt a c = true
  eq_of_not_lt : ∀ {a b}, lt a b = false → lt b a = false → a = b

namespace Key

variable {κ : Type} [Key κ]

theorem lt_asymm {a b : κ} (h : lt a b = true) : lt b a = false := by
  cases hba : lt b a with
  | false => rfl
  | true => exact absurd (lt_trans h hba) (by simp [lt_irrefl])

theorem ne_of_lt {a b : κ} (h : lt a b = true) : a ≠ b := by
  rintro rfl
  simp [lt_irrefl] at h

/-- What comes first decides; where it is equal, what follows does. -/
def ltThen (a b : κ) (rest : Bool) : Bool := lt a b || (!lt b a && rest)

@[simp] theorem ltThen_self (a : κ) (rest : Bool) : ltThen a a rest = rest := by
  simp [ltThen, lt_irrefl]

theorem ltThen_trans {a b c : κ} {p q r : Bool} (h₁ : ltThen a b p = true)
    (h₂ : ltThen b c q = true) (h : p = true → q = true → r = true) : ltThen a c r = true := by
  simp only [ltThen, Bool.or_eq_true, Bool.and_eq_true, Bool.not_eq_true'] at *
  rcases h₁ with h₁ | ⟨hba, hp⟩
  · cases hbc : lt b c with
    | true => exact .inl (lt_trans h₁ hbc)
    | false =>
      rcases h₂ with h₂ | ⟨hcb, -⟩
      · simp [hbc] at h₂
      · exact .inl (eq_of_not_lt hbc hcb ▸ h₁)
  · cases hab : lt a b with
    | true =>
      rcases h₂ with h₂ | ⟨hcb, -⟩
      · exact .inl (lt_trans hab h₂)
      · cases hbc : lt b c with
        | true => exact .inl (lt_trans hab hbc)
        | false => exact .inl (eq_of_not_lt hbc hcb ▸ hab)
    | false =>
      obtain rfl := eq_of_not_lt hab hba
      rcases h₂ with h₂ | ⟨hca, hq⟩
      · exact .inl h₂
      · exact .inr ⟨hca, h hp hq⟩

theorem eq_of_not_ltThen {a b : κ} {p q : Bool} (h₁ : ltThen a b p = false)
    (h₂ : ltThen b a q = false) : a = b ∧ p = false ∧ q = false := by
  simp only [ltThen, Bool.or_eq_false_iff] at h₁ h₂
  obtain rfl := eq_of_not_lt h₁.1 h₂.1
  simpa [lt_irrefl] using And.intro h₁.2 h₂.2

/-- The order of a dictionary: the first place where two lists differ decides, and a list comes
before its extensions. -/
def listLt : List κ → List κ → Bool
  | _, [] => false
  | [], _ :: _ => true
  | a :: as, b :: bs => ltThen a b (listLt as bs)

end Key

instance : Key Nat where
  lt a b := decide (a < b)
  lt_irrefl a := by simp
  lt_trans h₁ h₂ := by simp at *; omega
  eq_of_not_lt h₁ h₂ := by simp at *; omega

instance {κ ι : Type} [Key κ] [Key ι] : Key (κ × ι) where
  lt a b := Key.ltThen a.1 b.1 (Key.lt a.2 b.2)
  lt_irrefl a := by simp [Key.lt_irrefl]
  lt_trans h₁ h₂ := Key.ltThen_trans h₁ h₂ Key.lt_trans
  eq_of_not_lt h₁ h₂ :=
    have ⟨hx, h₁, h₂⟩ := Key.eq_of_not_ltThen h₁ h₂
    Prod.ext hx (Key.eq_of_not_lt h₁ h₂)

instance {κ : Type} [Key κ] : Key (List κ) where
  lt := Key.listLt
  lt_irrefl a := by induction a <;> simp_all [Key.listLt]
  lt_trans {a b c} h₁ h₂ := by
    induction a generalizing b c with
    | nil => cases b <;> cases c <;> simp_all [Key.listLt]
    | cons x xs ih =>
      cases b with
      | nil => simp [Key.listLt] at h₁
      | cons y ys =>
        cases c with
        | nil => simp [Key.listLt] at h₂
        | cons z zs => exact Key.ltThen_trans h₁ h₂ ih
  eq_of_not_lt {a b} h₁ h₂ := by
    induction a generalizing b with
    | nil => cases b <;> simp_all [Key.listLt]
    | cons x xs ih =>
      cases b with
      | nil => simp [Key.listLt] at h₂
      | cons y ys =>
        obtain ⟨rfl, h₁, h₂⟩ := Key.eq_of_not_ltThen h₁ h₂
        rw [ih h₁ h₂]

instance : Key Char where
  lt a b := Key.lt a.toNat b.toNat
  lt_irrefl _ := Key.lt_irrefl _
  lt_trans := Key.lt_trans
  eq_of_not_lt h₁ h₂ := Char.toNat_inj.1 (Key.eq_of_not_lt h₁ h₂)

instance : Key String where
  lt a b := Key.lt a.toList b.toList
  lt_irrefl _ := Key.lt_irrefl _
  lt_trans := Key.lt_trans
  eq_of_not_lt h₁ h₂ := String.toList_inj.1 (Key.eq_of_not_lt h₁ h₂)

end Quartermaster
