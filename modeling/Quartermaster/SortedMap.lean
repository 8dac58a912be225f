import Quartermaster.Key

/-!
# Maps in key order

A map is the list of its entries in strictly ascending key order, together with the proof of
that order. Two maps with equal look-ups are equal values, and listing a map lists its keys in
order. A set is a map to nothing.

`get?_insert` says what a look-up finds after an insertion; `get?_eq_some_iff` ties look-up to
the list of entries; `ext` says that look-ups determine the map; `ofList_entries` says that a
map is rebuilt from its own entries; `exists_split` says where an insertion changes the list of
entries.
-/

namespace Quartermaster

/-- Entries in strictly ascending key order. -/
structure SortedMap (κ β : Type) [Key κ] where
  entries : List (κ × β)
  ascending : entries.Pairwise fun a b => Key.lt a.1 b.1 = true
deriving DecidableEq

namespace SortedMap

variable {κ β γ : Type} [Key κ]

/-! ## Entry lists -/

/-- Puts an entry at its place, in place of one with the same key. -/
def insertEntry (k : κ) (v : β) : List (κ × β) → List (κ × β)
  | [] => [(k, v)]
  | e :: rest =>
    if Key.lt k e.1 then (k, v) :: e :: rest
    else if Key.lt e.1 k then e :: insertEntry k v rest
    else (k, v) :: rest

/-- The value of a key; the walk ends at the first larger key. -/
def findEntry (k : κ) : List (κ × β) → Option β
  | [] => none
  | e :: rest =>
    if Key.lt k e.1 then none
    else if Key.lt e.1 k then findEntry k rest
    else some e.2

theorem mem_insertEntry {k : κ} {v : β} {x : κ × β} {es : List (κ × β)}
    (h : x ∈ insertEntry k v es) : x = (k, v) ∨ x ∈ es := by
  induction es with
  | nil => simpa [insertEntry] using h
  | cons e rest ih =>
    simp only [insertEntry] at h
    split at h
    · simpa using h
    · split at h
      · rcases List.mem_cons.1 h with h | h
        · exact .inr (by simp [h])
        · rcases ih h with h | h
          · exact .inl h
          · exact .inr (List.mem_cons_of_mem _ h)
      · rcases List.mem_cons.1 h with h | h
        · exact .inl h
        · exact .inr (List.mem_cons_of_mem _ h)

theorem pairwise_insertEntry (k : κ) (v : β) {es : List (κ × β)}
    (h : es.Pairwise fun a b => Key.lt a.1 b.1 = true) :
    (insertEntry k v es).Pairwise fun a b => Key.lt a.1 b.1 = true := by
  induction es with
  | nil => simp [insertEntry]
  | cons e rest ih =>
    obtain ⟨he, hrest⟩ := List.pairwise_cons.1 h
    simp only [insertEntry]
    split
    · rename_i hk
      refine List.pairwise_cons.2 ⟨fun x hx => ?_, h⟩
      rcases List.mem_cons.1 hx with rfl | hx
      · exact hk
      · exact Key.lt_trans hk (he x hx)
    · rename_i hk
      split
      · rename_i hk'
        refine List.pairwise_cons.2 ⟨fun x hx => ?_, ih hrest⟩
        rcases mem_insertEntry hx with rfl | hx
        · exact hk'
        · exact he x hx
      · rename_i hk'
        have hek : e.1 = k := Key.eq_of_not_lt (by simpa using hk') (by simpa using hk)
        exact List.pairwise_cons.2 ⟨fun x hx => hek ▸ he x hx, hrest⟩

theorem findEntry_insertEntry (k j : κ) (v : β) (es : List (κ × β))
    (h : es.Pairwise fun a b => Key.lt a.1 b.1 = true) :
    findEntry j (insertEntry k v es) =
      if Key.lt j k || Key.lt k j then findEntry j es else some v := by
  induction es with
  | nil =>
    by_cases hjk : Key.lt j k = true
    · simp [insertEntry, findEntry, hjk]
    · by_cases hkj : Key.lt k j = true <;> simp [insertEntry, findEntry, hjk, hkj]
  | cons e rest ih =>
    obtain ⟨_, hrest⟩ := List.pairwise_cons.1 h
    simp only [insertEntry]
    split
    · rename_i hk
      by_cases hjk : Key.lt j k = true
      · simp [findEntry, hjk, Key.lt_trans hjk hk]
      · by_cases hkj : Key.lt k j = true
        · simp [findEntry, hjk, hkj]
        · simp [findEntry, hjk, hkj]
    · rename_i hk
      split
      · rename_i hk'
        simp only [findEntry, ih hrest]
        by_cases hje : Key.lt j e.1 = true
        · simp [hje, Key.lt_trans hje hk']
        · by_cases hej : Key.lt e.1 j = true
          · simp [hje, hej]
          · have : e.1 = j := Key.eq_of_not_lt (by simpa using hej) (by simpa using hje)
            subst this
            simp [Key.lt_irrefl, hk']
      · rename_i hk'
        have hek : e.1 = k := Key.eq_of_not_lt (by simpa using hk') (by simpa using hk)
        by_cases hjk : Key.lt j k = true
        · simp [findEntry, hjk, hek]
        · by_cases hkj : Key.lt k j = true <;> simp [findEntry, hjk, hkj, hek]

theorem findEntry_eq_some_iff {k : κ} {v : β} {es : List (κ × β)}
    (h : es.Pairwise fun a b => Key.lt a.1 b.1 = true) :
    findEntry k es = some v ↔ (k, v) ∈ es := by
  induction es with
  | nil => simp [findEntry]
  | cons e rest ih =>
    obtain ⟨he, hrest⟩ := List.pairwise_cons.1 h
    obtain ⟨j, w⟩ := e
    simp only [findEntry, List.mem_cons, Prod.mk.injEq]
    by_cases hkj : Key.lt k j = true
    · simp only [hkj, if_true, reduceCtorEq, false_iff, not_or, not_and]
      refine ⟨fun hkj' => absurd hkj' (Key.ne_of_lt hkj), fun hmem => ?_⟩
      exact absurd rfl (Key.ne_of_lt (Key.lt_trans hkj (he _ hmem)))
    · by_cases hjk : Key.lt j k = true
      · rw [if_neg hkj, if_pos hjk, ih hrest]
        exact ⟨.inr, fun h => h.resolve_left fun h => Key.ne_of_lt hjk h.1.symm⟩
      · have hk : j = k := Key.eq_of_not_lt (by simpa using hjk) (by simpa using hkj)
        subst hk
        simp only [Key.lt_irrefl, Bool.false_eq_true, if_false, Option.some.injEq, true_and]
        refine ⟨fun h => .inl h.symm, fun h => ?_⟩
        rcases h with h | h
        · exact h.symm
        · exact absurd rfl (Key.ne_of_lt (he (j, v) h))

/-! ## Maps -/

/-- The map without entries. -/
def empty : SortedMap κ β := ⟨[], .nil⟩

instance : Inhabited (SortedMap κ β) := ⟨empty⟩

/-- The value of a key. -/
def get? (m : SortedMap κ β) (k : κ) : Option β := findEntry k m.entries

/-- Whether a key has a value. -/
def contains (m : SortedMap κ β) (k : κ) : Bool := (m.get? k).isSome

/-- Gives a key a value, in place of the one it had. -/
def insert (m : SortedMap κ β) (k : κ) (v : β) : SortedMap κ β :=
  ⟨insertEntry k v m.entries, pairwise_insertEntry k v m.ascending⟩

/-- Gives a key the value computed from the one it had. -/
def update (m : SortedMap κ β) (k : κ) (f : Option β → β) : SortedMap κ β :=
  m.insert k (f (m.get? k))

/-- Enters the pairs one after the other, so that of two with one key the later stays. -/
def ofList (es : List (κ × β)) : SortedMap κ β :=
  es.foldl (fun m e => m.insert e.1 e.2) empty

def keys (m : SortedMap κ β) : List κ := m.entries.map Prod.fst

def values (m : SortedMap κ β) : List β := m.entries.map Prod.snd

def size (m : SortedMap κ β) : Nat := m.entries.length

def isEmpty (m : SortedMap κ β) : Bool := m.entries.isEmpty

/-- Applies a function to every value. -/
def map (f : β → γ) (m : SortedMap κ β) : SortedMap κ γ :=
  ⟨m.entries.map fun e => (e.1, f e.2), by
    rw [List.pairwise_map]
    exact m.ascending⟩

@[simp] theorem get?_empty (k : κ) : (empty : SortedMap κ β).get? k = none := rfl

theorem get?_insert (m : SortedMap κ β) (k j : κ) (v : β) :
    (m.insert k v).get? j = if Key.lt j k || Key.lt k j then m.get? j else some v :=
  findEntry_insertEntry k j v m.entries m.ascending

@[simp] theorem get?_insert_self (m : SortedMap κ β) (k : κ) (v : β) :
    (m.insert k v).get? k = some v := by
  simp [get?_insert, Key.lt_irrefl]

theorem get?_insert_of_ne (m : SortedMap κ β) {k j : κ} (v : β) (h : j ≠ k) :
    (m.insert k v).get? j = m.get? j := by
  rw [get?_insert, if_pos]
  cases h₁ : Key.lt j k with
  | true => rfl
  | false =>
    cases h₂ : Key.lt k j with
    | true => rfl
    | false => exact absurd (Key.eq_of_not_lt h₁ h₂) h

theorem get?_eq_some_iff {m : SortedMap κ β} {k : κ} {v : β} :
    m.get? k = some v ↔ (k, v) ∈ m.entries :=
  findEntry_eq_some_iff m.ascending

/-- Sorted entry lists with the same members are the same list. -/
theorem entries_eq_of_mem_iff {es fs : List (κ × β)}
    (he : es.Pairwise fun a b => Key.lt a.1 b.1 = true)
    (hf : fs.Pairwise fun a b => Key.lt a.1 b.1 = true)
    (h : ∀ x, x ∈ es ↔ x ∈ fs) : es = fs := by
  induction es generalizing fs with
  | nil =>
    cases fs with
    | nil => rfl
    | cons f fs => simpa using h f
  | cons e es ih =>
    cases fs with
    | nil => simpa using h e
    | cons f fs =>
      obtain ⟨he₁, he₂⟩ := List.pairwise_cons.1 he
      obtain ⟨hf₁, hf₂⟩ := List.pairwise_cons.1 hf
      have hef : e = f := by
        rcases List.mem_cons.1 ((h e).1 (by simp)) with h₁ | h₁
        · exact h₁
        · rcases List.mem_cons.1 ((h f).2 (by simp)) with h₂ | h₂
          · exact h₂.symm
          · have := Key.lt_trans (he₁ f h₂) (hf₁ e h₁)
            simp [Key.lt_irrefl] at this
      subst hef
      congr 1
      refine ih he₂ hf₂ fun x => ⟨fun hx => ?_, fun hx => ?_⟩
      · rcases List.mem_cons.1 ((h x).1 (List.mem_cons_of_mem _ hx)) with rfl | h₁
        · exact absurd rfl (Key.ne_of_lt (he₁ _ hx))
        · exact h₁
      · rcases List.mem_cons.1 ((h x).2 (List.mem_cons_of_mem _ hx)) with rfl | h₁
        · exact absurd rfl (Key.ne_of_lt (hf₁ _ hx))
        · exact h₁

@[ext] theorem ext {m n : SortedMap κ β} (h : ∀ k, m.get? k = n.get? k) : m = n := by
  have : m.entries = n.entries :=
    entries_eq_of_mem_iff m.ascending n.ascending fun ⟨k, v⟩ => by
      rw [← get?_eq_some_iff, ← get?_eq_some_iff, h]
  cases m
  cases n
  simp_all

/-- An entry whose key is above every key present goes to the end. -/
theorem insertEntry_of_forall_lt {k : κ} {v : β} {es : List (κ × β)}
    (h : ∀ e ∈ es, Key.lt e.1 k = true) : insertEntry k v es = es ++ [(k, v)] := by
  induction es with
  | nil => rfl
  | cons e es ih =>
    have he := h e (by simp)
    rw [insertEntry, Key.lt_asymm he, if_neg (by simp), if_pos he,
      ih fun e' he' => h e' (List.mem_cons_of_mem _ he')]
    rfl

theorem ofList_entries (m : SortedMap κ β) : ofList m.entries = m := by
  suffices H : ∀ (es : List (κ × β)) (acc : SortedMap κ β),
      (acc.entries ++ es).Pairwise (fun a b => Key.lt a.1 b.1 = true) →
      (es.foldl (fun m e => m.insert e.1 e.2) acc).entries = acc.entries ++ es by
    have h := H m.entries empty (by simpa [empty] using m.ascending)
    simp only [empty, List.nil_append] at h
    cases m
    simp only [ofList, empty] at *
    generalize List.foldl _ _ _ = r at *
    cases r
    simp_all
  intro es
  induction es with
  | nil => simp
  | cons e es ih =>
    intro acc h
    have hlt : ∀ a ∈ acc.entries, Key.lt a.1 e.1 = true := fun a ha =>
      (List.pairwise_append.1 h).2.2 a ha e (by simp)
    have hins : (acc.insert e.1 e.2).entries = acc.entries ++ [e] :=
      insertEntry_of_forall_lt hlt
    rw [List.foldl_cons, ih (acc.insert e.1 e.2) (by simpa [hins] using h), hins]
    simp

/-- A list in key order is left as it is. -/
theorem entries_ofList {es : List (κ × β)}
    (h : es.Pairwise fun a b => Key.lt a.1 b.1 = true) : (ofList es).entries = es :=
  congrArg entries (ofList_entries ⟨es, h⟩)

/-! ## Entries and look-ups -/

/-- An insertion touches one place of the entry list: that of the key's entry, or the one where
it belongs. -/
theorem exists_split (m : SortedMap κ β) (k : κ) :
    ∃ before after, m.entries = before ++ (m.get? k).toList.map (k, ·) ++ after ∧
      ∀ v, (m.insert k v).entries = before ++ (k, v) :: after := by
  suffices H : ∀ es : List (κ × β),
      ∃ before after, es = before ++ (findEntry k es).toList.map (k, ·) ++ after ∧
        ∀ v, insertEntry k v es = before ++ (k, v) :: after from H m.entries
  intro es
  induction es with
  | nil => exact ⟨[], [], rfl, fun _ => rfl⟩
  | cons e rest ih =>
    obtain ⟨before, after, hrest, hinsert⟩ := ih
    by_cases hk : Key.lt k e.1 = true
    · exact ⟨[], e :: rest, by simp [findEntry, hk], fun v => by simp [insertEntry, hk]⟩
    · by_cases hk' : Key.lt e.1 k = true
      · refine ⟨e :: before, after, ?_, fun v => ?_⟩
        · rw [findEntry, if_neg hk, if_pos hk']
          simpa using hrest
        · rw [insertEntry, if_neg hk, if_pos hk', hinsert]
          rfl
      · have hek : e.1 = k := Key.eq_of_not_lt (by simpa using hk') (by simpa using hk)
        subst hek
        exact ⟨[], rest, by simp [findEntry, hk], fun v => by simp [insertEntry, hk]⟩

theorem values_split (m : SortedMap κ β) (k : κ) :
    ∃ before after, m.values = before ++ (m.get? k).toList ++ after ∧
      ∀ v, (m.insert k v).values = before ++ v :: after := by
  obtain ⟨before, after, hm, hinsert⟩ := m.exists_split k
  refine ⟨before.map Prod.snd, after.map Prod.snd, ?_, fun v => ?_⟩
  · rw [values, hm]
    simp [Function.comp_def]
  · rw [values, hinsert]
    simp

theorem mem_values_iff {m : SortedMap κ β} {v : β} :
    v ∈ m.values ↔ ∃ k, m.get? k = some v := by
  simp only [values, List.mem_map, get?_eq_some_iff, Prod.exists, exists_eq_right]

theorem mem_keys_iff {m : SortedMap κ β} {k : κ} : k ∈ m.keys ↔ ∃ v, m.get? k = some v := by
  simp only [keys, List.mem_map, get?_eq_some_iff, Prod.exists, exists_and_right, exists_eq_right]

theorem mem_keys_insert_iff {m : SortedMap κ β} {k j : κ} {v : β} :
    j ∈ (m.insert k v).keys ↔ j = k ∨ j ∈ m.keys := by
  rw [mem_keys_iff, mem_keys_iff]
  by_cases hjk : j = k
  · subst hjk
    rw [get?_insert_self]
    exact ⟨fun _ => .inl rfl, fun _ => ⟨v, rfl⟩⟩
  · rw [get?_insert_of_ne m v hjk]
    exact (or_iff_right hjk).symm

theorem mem_keys_ofList_iff {es : List (κ × β)} {k : κ} :
    k ∈ (ofList es).keys ↔ k ∈ es.map Prod.fst := by
  suffices H : ∀ m : SortedMap κ β, k ∈ (es.foldl (fun m e => m.insert e.1 e.2) m).keys ↔
      k ∈ m.keys ∨ k ∈ es.map Prod.fst from (H empty).trans (or_iff_right List.not_mem_nil)
  induction es with
  | nil => exact fun m => (or_iff_left List.not_mem_nil).symm
  | cons e es ih =>
    intro m
    rw [List.foldl_cons, ih, mem_keys_insert_iff, List.map_cons, List.mem_cons, or_assoc,
      or_left_comm]

theorem nodup_keys (m : SortedMap κ β) : m.keys.Nodup := by
  rw [List.Nodup, keys, List.pairwise_map]
  exact m.ascending.imp fun h => Key.ne_of_lt h

@[simp] theorem get?_map (m : SortedMap κ β) (f : β → γ) (k : κ) :
    (m.map f).get? k = (m.get? k).map f := by
  suffices H : ∀ es : List (κ × β),
      findEntry k (es.map fun e => (e.1, f e.2)) = (findEntry k es).map f from H m.entries
  intro es
  induction es with
  | nil => rfl
  | cons e rest ih =>
    simp only [List.map_cons, findEntry, ih]
    split
    · rfl
    · split <;> rfl

theorem map_insert (m : SortedMap κ β) (f : β → γ) (k : κ) (v : β) :
    (m.insert k v).map f = (m.map f).insert k (f v) := by
  ext1 j
  rw [get?_map, get?_insert, get?_insert, get?_map]
  split <;> rfl

theorem get?_update_self (m : SortedMap κ β) (k : κ) (f : Option β → β) :
    (m.update k f).get? k = some (f (m.get? k)) :=
  get?_insert_self ..

theorem get?_update_of_ne (m : SortedMap κ β) {k j : κ} (f : Option β → β) (h : j ≠ k) :
    (m.update k f).get? j = m.get? j :=
  get?_insert_of_ne m _ h

/-- Updating a map by each entry of another one changes the keys of that one, each by its own
entry. -/
theorem get?_foldl_update (f : Option β → γ → β) (m : SortedMap κ β) (other : SortedMap κ γ)
    (k : κ) :
    (other.entries.foldl (fun m e => m.update e.1 fun v => f v e.2) m).get? k =
      (other.get? k).elim (m.get? k) fun n => some (f (m.get? k) n) := by
  suffices H : ∀ (es : List (κ × γ)) (m : SortedMap κ β), (es.map Prod.fst).Nodup →
      (∀ n, (k, n) ∈ es → (es.foldl (fun m e => m.update e.1 fun v => f v e.2) m).get? k =
        some (f (m.get? k) n)) ∧
      (k ∉ es.map Prod.fst →
        (es.foldl (fun m e => m.update e.1 fun v => f v e.2) m).get? k = m.get? k) by
    obtain ⟨hmem, hnot⟩ := H other.entries m other.nodup_keys
    cases hk : other.get? k with
    | some n => exact hmem n (get?_eq_some_iff.1 hk)
    | none =>
      refine hnot fun hkey => ?_
      obtain ⟨n, hn⟩ := mem_keys_iff.1 hkey
      rw [hk] at hn
      cases hn
  intro es
  induction es with
  | nil => exact fun m _ => ⟨fun n hn => absurd hn List.not_mem_nil, fun _ => rfl⟩
  | cons e es ih =>
    intro m hes
    obtain ⟨hfresh, hrest⟩ := List.nodup_cons.1 hes
    obtain ⟨ihmem, ihnot⟩ := ih (m.update e.1 fun v => f v e.2) hrest
    constructor
    · intro n hn
      rw [List.foldl_cons]
      rcases List.mem_cons.1 hn with rfl | hn
      · rw [ihnot hfresh, get?_update_self]
      · have hne : k ≠ e.1 := by
          rintro rfl
          exact hfresh (List.mem_map.2 ⟨_, hn, rfl⟩)
        rw [ihmem n hn, get?_update_of_ne m _ hne]
    · intro hk
      rw [List.map_cons, List.mem_cons, not_or] at hk
      rw [List.foldl_cons, ihnot hk.2, get?_update_of_ne m _ hk.1]

/-- Entering the value that a key has already changes nothing. -/
theorem insert_eq_self {m : SortedMap κ β} {k : κ} {v : β} (h : m.get? k = some v) :
    m.insert k v = m := by
  ext1 j
  rw [get?_insert]
  split
  · rfl
  · rename_i hjk
    simp only [Bool.or_eq_true, not_or, Bool.not_eq_true] at hjk
    rw [Key.eq_of_not_lt hjk.1 hjk.2, h]

end SortedMap

/-- A set is a map whose values say nothing. -/
abbrev SortedSet (κ : Type) [Key κ] : Type := SortedMap κ Unit

namespace SortedSet

variable {κ : Type} [Key κ]

def ofList (ks : List κ) : SortedSet κ := SortedMap.ofList (ks.map fun k => (k, ()))

def toList (s : SortedSet κ) : List κ := s.keys

theorem mem_toList_ofList_iff {ks : List κ} {k : κ} : k ∈ (ofList ks).toList ↔ k ∈ ks := by
  unfold ofList toList
  rw [SortedMap.mem_keys_ofList_iff, List.map_map]
  exact iff_of_eq (congrArg (k ∈ ·) (List.map_id _))

/-- Adds the listed members. -/
def addAll (s : SortedSet κ) (ks : List κ) : SortedSet κ :=
  ks.foldl (fun s k => s.insert k ()) s

end SortedSet

end Quartermaster
