import Mathlib.Data.List.Induction
import Quartermaster.Archive.Schema
import Quartermaster.Proofs.Text.Nodes

/-!
# Stored forms and what they stand for

A writer and a reader of bytes are faithful on some values of a type if the reader finds each of
them again, in front of any other bytes, and never finds anything else (`Faithful`). The first half
says that nothing is lost and that a value takes up its own bytes only; the second that whatever was
read may be written.

A schema is faithful if its bytes are, and if the nodes it makes are plain and stand for the values
they were made of (`Schema.Faithful`). Each way of putting schemas together has a lemma that makes a
faithful schema of faithful ones, so that a record needs no more than the list of its fields. How
deep the brackets of its text nest is counted along with it.
-/

namespace Quartermaster

/-! ## Sorted maps from lists -/

namespace SortedMap

variable {κ β : Type} [Key κ]

theorem size_insert_le (m : SortedMap κ β) (k : κ) (v : β) :
    (m.insert k v).size ≤ m.size + 1 := by
  obtain ⟨before, after, hm, hinsert⟩ := m.exists_split k
  unfold size
  rw [hm, hinsert, List.length_append, List.length_append, List.length_append, List.length_cons]
  omega

/-- A map made of a list has entries from the list, and no more of them. -/
theorem ofList_entries_subset (es : List (κ × β)) :
    (ofList es).size ≤ es.length ∧ ∀ e ∈ (ofList es).entries, e ∈ es := by
  induction es using List.reverseRecOn with
  | nil => exact ⟨Nat.le_refl _, fun _ he => he⟩
  | append_singleton es e ih =>
    obtain ⟨hsize, hmem⟩ := ih
    have hsnoc : ofList (es ++ [e]) = (ofList es).insert e.1 e.2 := by
      unfold ofList
      rw [List.foldl_append]
      rfl
    rw [hsnoc, List.length_append]
    refine ⟨Nat.le_trans (size_insert_le _ _ _) (Nat.succ_le_succ hsize), ?_⟩
    intro e' he'
    rcases mem_insertEntry he' with rfl | hearlier
    · exact List.mem_append_right _ (List.mem_singleton_self _)
    · exact List.mem_append_left _ (hmem e' hearlier)

end SortedMap

namespace SortedSet

variable {κ : Type} [Key κ]

theorem ofList_toList (s : SortedSet κ) : ofList s.toList = s := by
  have hentries : s.toList.map (fun k => (k, ())) = s.entries := by
    unfold toList SortedMap.keys
    rw [List.map_map]
    exact List.map_id _
  rw [ofList, hentries, SortedMap.ofList_entries]

theorem size_ofList_le (ks : List κ) : (ofList ks).size ≤ ks.length := by
  obtain ⟨hsize, -⟩ := SortedMap.ofList_entries_subset (ks.map fun k => (k, ()))
  rwa [List.length_map] at hsize

end SortedSet

namespace Archive

variable {α β κ : Type} {width : Nat} {bytes rest : List UInt8}

/-! ## Numbers -/

theorem byteValues_succ (width : Nat) : byteValues (width + 1) = 256 * byteValues width := by
  show 2 ^ (8 * (width + 1)) = 256 * 2 ^ (8 * width)
  rw [Nat.mul_succ, Nat.pow_add, Nat.mul_comm]

theorem readNat_writeNat {n : Nat} (h : n < byteValues width) (rest : List UInt8) :
    readNat width (writeNat width n ++ rest) = some (n, rest) := by
  induction width generalizing n with
  | zero =>
    obtain rfl : n = 0 := Nat.lt_one_iff.mp h
    rfl
  | succ width ih =>
    have hhigh : n / 256 < byteValues width := by
      rw [byteValues_succ] at h
      exact Nat.div_lt_of_lt_mul h
    have hlow : (UInt8.ofNat (n % 256)).toNat = n % 256 :=
      UInt8.toNat_ofNat_of_lt' (Nat.mod_lt _ (by decide))
    rw [writeNat, List.cons_append, readNat, ih hhigh]
    show some ((UInt8.ofNat (n % 256)).toNat + 256 * (n / 256), rest) = some (n, rest)
    rw [hlow, Nat.mod_add_div]

theorem lt_of_readNat {n : Nat} (h : readNat width bytes = some (n, rest)) :
    n < byteValues width := by
  induction width generalizing bytes n rest with
  | zero =>
    obtain ⟨rfl, -⟩ := Prod.mk.inj (Option.some.inj h)
    exact Nat.one_pos
  | succ width ih =>
    cases bytes with
    | nil => cases h
    | cons b bytes =>
      obtain ⟨⟨high, rest'⟩, hhigh, hn⟩ := Option.bind_eq_some_iff.mp h
      obtain ⟨rfl, -⟩ := Prod.mk.inj (Option.some.inj hn)
      have hdigit := b.toNat_lt
      have hbound := ih hhigh
      rw [byteValues_succ]
      omega

theorem readInt_writeInt {n : Int} (h : Schema.fitsInt width n) (rest : List UInt8) :
    readInt width (writeInt width n ++ rest) = some (n, rest) := by
  obtain ⟨hlow, hhigh⟩ := of_decide_eq_true h
  have hpos : 0 < byteValues width := wordValues_pos _
  -- a negative number is written as the one that lies a whole range above it
  have hmod : n % (byteValues width : Int) = if 0 ≤ n then n else n + byteValues width := by
    split
    · exact Int.emod_eq_of_lt (by omega) (by omega)
    · rw [← Int.add_emod_right, Int.emod_eq_of_lt (by omega) (by omega)]
  have hfits : (n % (byteValues width : Int)).toNat < byteValues width := by
    rw [hmod]
    split <;> omega
  rw [readInt, writeInt, readNat_writeNat hfits, hmod]
  simp only [Option.bind_eq_bind, Option.bind_some, Option.pure_def, Option.some.injEq,
    Prod.mk.injEq, and_true]
  split <;> split <;> omega

theorem fitsInt_of_readInt {n : Int} (h : readInt width bytes = some (n, rest)) :
    Schema.fitsInt width n := by
  obtain ⟨⟨m, rest'⟩, hm, hn⟩ := Option.bind_eq_some_iff.mp h
  obtain ⟨rfl, -⟩ := Prod.mk.inj (Option.some.inj hn)
  have hbound := lt_of_readNat hm
  apply decide_eq_true
  split <;> omega

/-! ## Text -/

theorem toList_loop_drop (bs : ByteArray) (i : Nat) (before : List UInt8) :
    ByteArray.toList.loop bs i before = before.reverse ++ bs.data.toList.drop i := by
  induction i, before using ByteArray.toList.loop.induct bs with
  | case1 i before hlt ih =>
    have hi : i < bs.data.toList.length := hlt
    have hget : bs.get! i = bs.data.toList[i] := getElem!_pos bs.data i hlt
    rw [ByteArray.toList.loop, if_pos hlt, ih, List.drop_eq_getElem_cons hi, hget,
      List.reverse_cons, List.append_assoc, List.singleton_append]
  | case2 i before hge =>
    have hend : bs.data.toList.length ≤ i := Nat.not_lt.mp hge
    rw [ByteArray.toList.loop, if_neg hge, List.drop_eq_nil_of_le hend, List.append_nil]

theorem toList_toUTF8 (s : String) : s.toUTF8.toList = s.toByteArray.data.toList :=
  toList_loop_drop s.toUTF8 0 []

theorem readString_writeString {s : String} (h : s.utf8ByteSize < byteValues wordWidth)
    (rest : List UInt8) : readString (writeString s ++ rest) = some (s, rest) := by
  have hlength : s.toByteArray.data.toList.length = s.utf8ByteSize := rfl
  have hdecoded : String.fromUTF8? ⟨s.toByteArray.data.toList.toArray⟩ = some s :=
    dif_pos s.isValidUTF8
  have henough : ¬ (s.toByteArray.data.toList ++ rest).length < s.utf8ByteSize := by
    rw [List.length_append, hlength]
    exact Nat.not_lt.mpr (Nat.le_add_right _ _)
  rw [readString, writeString, toList_toUTF8, List.append_assoc, readNat_writeNat h]
  simp only [Option.bind_eq_bind, Option.bind_some, if_neg henough, Option.pure_def]
  rw [← hlength, List.take_left, List.drop_left, hdecoded]
  rfl

theorem size_of_readString {s : String} (h : readString bytes = some (s, rest)) :
    s.utf8ByteSize < byteValues wordWidth := by
  obtain ⟨⟨n, rest'⟩, hn, h⟩ := Option.bind_eq_some_iff.mp h
  dsimp only at h
  split at h
  · cases h
  obtain ⟨s', hs', h⟩ := Option.bind_eq_some_iff.mp h
  obtain ⟨rfl, -⟩ := Prod.mk.inj (Option.some.inj h)
  have htake : s'.utf8ByteSize = (rest'.take n).length := by
    unfold String.fromUTF8? at hs'
    split at hs'
    · obtain rfl := Option.some.inj hs'
      rfl
    · cases hs'
  rw [htake, List.length_take]
  exact Nat.lt_of_le_of_lt (Nat.min_le_left _ _) (lt_of_readNat hn)

/-! ## Faithful writers and readers -/

/-- On the values in `P` a writer and a reader undo each other: a value is found again whatever
comes after it, and nothing but values in `P` is ever found. -/
structure Faithful (write : α → List UInt8) (read : List UInt8 → Option (α × List UInt8))
    (P : α → Prop) : Prop where
  read_write : ∀ a, P a → ∀ rest, read (write a ++ rest) = some (a, rest)
  holds_of_read : ∀ bytes a rest, read bytes = some (a, rest) → P a

/-- A list short enough for its length to be written, of members in `P`. -/
structure ListOf (P : α → Prop) (as : List α) : Prop where
  short : as.length < byteValues wordWidth
  each : ∀ a ∈ as, P a

/-- A set of so few members, all in `P`. -/
structure SetOf [Key κ] (P : κ → Prop) (s : SortedSet κ) : Prop where
  short : s.size < byteValues wordWidth
  each : ∀ k ∈ s.toList, P k

/-- A map of so few entries, from keys in `P` to values in `Q`. -/
structure MapOf [Key κ] (P : κ → Prop) (Q : β → Prop) (m : SortedMap κ β) : Prop where
  short : m.size < byteValues wordWidth
  each : ∀ e ∈ m.entries, P e.1 ∧ Q e.2

namespace Faithful

variable {write : α → List UInt8} {read : List UInt8 → Option (α × List UInt8)} {P : α → Prop}
  {write' : β → List UInt8} {read' : List UInt8 → Option (β × List UInt8)} {Q : β → Prop}

/-- Where both of two values are written faithfully, so is the one behind the other. -/
theorem append (h : Faithful write read P) (h' : Faithful write' read' Q) :
    Faithful (fun x : α × β => write x.1 ++ write' x.2)
      (fun bytes => do
        let (a, bytes) ← read bytes
        let (b, bytes) ← read' bytes
        return ((a, b), bytes))
      (fun x => P x.1 ∧ Q x.2) := by
  constructor
  · rintro ⟨a, b⟩ ⟨ha, hb⟩ rest
    rw [List.append_assoc, h.read_write a ha]
    simp only [Option.bind_eq_bind, Option.bind_some, h'.read_write b hb, Option.pure_def]
  · intro bytes x rest hread
    obtain ⟨⟨a, bytes'⟩, ha, hread⟩ := Option.bind_eq_some_iff.mp hread
    obtain ⟨⟨b, bytes''⟩, hb, hread⟩ := Option.bind_eq_some_iff.mp hread
    obtain ⟨rfl, -⟩ := Prod.mk.inj (Option.some.inj hread)
    exact ⟨h.holds_of_read _ _ _ ha, h'.holds_of_read _ _ _ hb⟩

/-- Another type may be stored as this one, if what is read stands for a value that is stored so. -/
theorem via {view : α → β} {of : β → α} (h : Faithful write read P)
    (hof : ∀ b, Q b → P (of b) ∧ view (of b) = b) (hview : ∀ a, P a → Q (view a)) :
    Faithful (fun b => write (of b)) (fun bytes => (read bytes).map fun (a, rest) => (view a, rest))
      Q := by
  constructor
  · intro b hb rest
    obtain ⟨ha, hsame⟩ := hof b hb
    rw [h.read_write _ ha]
    show some (view (of b), rest) = some (b, rest)
    rw [hsame]
  · intro bytes b rest hread
    obtain ⟨⟨a, rest'⟩, ha, hb⟩ := Option.map_eq_some_iff.mp hread
    obtain ⟨rfl, -⟩ := Prod.mk.inj hb
    exact hview a (h.holds_of_read _ _ _ ha)

theorem readMany_flatMap (h : Faithful write read P) {as : List α} (has : ∀ a ∈ as, P a)
    (rest : List UInt8) : readMany read as.length (as.flatMap write ++ rest) = some (as, rest) := by
  induction as with
  | nil => rfl
  | cons a as ih =>
    have ha := h.read_write a (has a List.mem_cons_self) (as.flatMap write ++ rest)
    have hrest := ih fun a' ha' => has a' (List.mem_cons_of_mem a ha')
    rw [List.flatMap_cons, List.append_assoc, List.length_cons, readMany, ha]
    simp only [Option.bind_eq_bind, Option.bind_some, hrest, Option.pure_def]

theorem of_readMany (h : Faithful write read P) {n : Nat} {as : List α}
    (hread : readMany read n bytes = some (as, rest)) : as.length = n ∧ ∀ a ∈ as, P a := by
  induction n generalizing bytes as rest with
  | zero =>
    obtain ⟨rfl, -⟩ := Prod.mk.inj (Option.some.inj hread)
    exact ⟨rfl, fun _ ha => absurd ha List.not_mem_nil⟩
  | succ n ih =>
    obtain ⟨⟨a, bytes'⟩, ha, hread⟩ := Option.bind_eq_some_iff.mp hread
    obtain ⟨⟨as', bytes''⟩, has, hread⟩ := Option.bind_eq_some_iff.mp hread
    obtain ⟨rfl, -⟩ := Prod.mk.inj (Option.some.inj hread)
    obtain ⟨hlength, hall⟩ := ih has
    refine ⟨congrArg Nat.succ hlength, ?_⟩
    exact List.forall_mem_cons.mpr ⟨h.holds_of_read _ _ _ ha, hall⟩

end Faithful

/-! ## Names -/

/-- Of items with different keys, those before an item have other keys. -/
theorem exists_split_of_nodup {f : α → κ} {as : List α} {a : α} (has : (as.map f).Nodup)
    (ha : a ∈ as) : ∃ before after, as = before ++ a :: after ∧ ∀ b ∈ before, f b ≠ f a := by
  obtain ⟨before, after, rfl⟩ := List.append_of_mem ha
  rw [List.map_append, List.map_cons] at has
  obtain ⟨-, -, hdisjoint⟩ := List.nodup_append.mp has
  exact ⟨before, after, rfl, fun b hb =>
    hdisjoint (f b) (List.mem_map_of_mem hb) (f a) List.mem_cons_self⟩

theorem lookup_of_mem {nodes : List (String × Node)} {f : String × Node}
    (hnodes : (nodes.map Prod.fst).Nodup) (hf : f ∈ nodes) : nodes.lookup f.1 = some f.2 := by
  obtain ⟨before, after, hsplit, hbefore⟩ := exists_split_of_nodup hnodes hf
  refine List.lookup_eq_some_iff.mpr ⟨before, after, hsplit, fun b hb => ?_⟩
  exact bne_iff_ne.mpr (hbefore b hb).symm

theorem variant?_of_mem {variants : List (Schema.Variant α)} {v : Schema.Variant α}
    (hvariants : (variants.map Schema.Variant.name).Nodup) (hv : v ∈ variants) :
    Schema.variant? variants v.name = some v := by
  obtain ⟨before, after, hsplit, hbefore⟩ := exists_split_of_nodup hvariants hv
  refine List.find?_eq_some_iff_append.mpr ⟨beq_iff_eq.mpr rfl, before, after, hsplit, ?_⟩
  intro b hb
  exact bne_iff_ne.mpr (hbefore b hb)

theorem atMostOnce_of_nodup {nodes : List (String × Node)} (h : (nodes.map Prod.fst).Nodup)
    (name : String) : atMostOnce nodes name = true := by
  have hcount := List.nodup_iff_count.mp h name
  rw [List.count, List.countP_map] at hcount
  exact decide_eq_true hcount

theorem mapM_map_eq_some {f : α → β} {g : β → Option α} {as : List α}
    (h : ∀ a ∈ as, g (f a) = some a) : (as.map f).mapM g = some as := by
  induction as with
  | nil => rfl
  | cons a as ih =>
    obtain ⟨ha, has⟩ := List.forall_mem_cons.mp h
    rw [List.map_cons, List.mapM_cons, ha, ih has]
    rfl

/-! ## Schemas -/

/-- The stored forms of a schema are faithful on the values in `P`: its bytes are; and its nodes are
plain, with brackets at most so deep, and each stands for the value that it was made of. -/
structure Schema.Faithful (s : Schema α) (depth : Nat) (P : α → Prop) : Prop
    extends Archive.Faithful s.toBytes s.ofBytes P where
  plain_toNode : ∀ a, P a → (s.toNode a).Plain depth
  ofNode_toNode : ∀ a, P a → s.ofNode {} (s.toNode a) = some a

/-- The same for the fields of a record, which find their nodes by name. -/
structure Fields.Faithful (fs : Fields α) (depth : Nat) (P : α → Prop) : Prop
    extends Archive.Faithful fs.toBytes fs.ofBytes P where
  names_toNodes : ∀ a, (fs.toNodes a).map Prod.fst = fs.names
  plain_toNodes : ∀ a, P a → ∀ f ∈ fs.toNodes a, f.2.Plain depth
  ofNodes_of_lookup : ∀ a, P a → ∀ nodes,
    (∀ f ∈ fs.toNodes a, nodes.lookup f.1 = some f.2) → fs.ofNodes {} nodes = some a

namespace Schema

variable {s : Schema α} {t : Schema β} {P : α → Prop} {Q : β → Prop} {depth : Nat}

theorem faithful_natural (width : Nat) :
    (natural width).Faithful depth fun n => n < byteValues width where
  read_write _ h := readNat_writeNat h
  holds_of_read _ _ _ := lt_of_readNat
  plain_toNode n _ := .number n
  ofNode_toNode n h := by
    show (naturalOf? (toString n).toList).bind _ = _
    rw [naturalOf?_toString]
    exact if_pos h

theorem faithful_integer (width : Nat) :
    (integer width).Faithful depth fun n => fitsInt width n where
  read_write _ h := readInt_writeInt h
  holds_of_read _ _ _ := fitsInt_of_readInt
  plain_toNode n _ := .number n
  ofNode_toNode n h := by
    show (integerOf? (toString n).toList).bind _ = _
    rw [integerOf?_toString]
    exact if_pos h

theorem faithful_text : text.Faithful depth fun s => s.utf8ByteSize < byteValues wordWidth where
  read_write _ h := readString_writeString h
  holds_of_read _ _ _ := size_of_readString
  plain_toNode s _ := .text s
  ofNode_toNode _ _ := rfl

theorem faithful_bool : bool.Faithful depth fun _ => True where
  read_write b _ rest := by cases b <;> rfl
  holds_of_read _ _ _ _ := trivial
  plain_toNode b _ := by cases b <;> exact .word (by decide) (by decide)
  ofNode_toNode b _ := by cases b <;> rfl

namespace Faithful

theorem optional (h : s.Faithful depth P) :
    (Schema.optional s).Faithful (depth + 1) fun o => ∀ a ∈ o, P a := by
  refine ⟨⟨?_, ?_⟩, ?_, ?_⟩
  · intro o ho rest
    cases o with
    | none => rfl
    | some a =>
      show (s.ofBytes (s.toBytes a ++ rest)).map _ = _
      rw [h.read_write a (ho a rfl)]
      rfl
  · intro bytes o rest hread a ha
    unfold Schema.optional at hread
    dsimp only at hread
    split at hread
    · obtain ⟨rfl, -⟩ := Prod.mk.inj (Option.some.inj hread)
      cases ha
    · obtain ⟨⟨a', rest'⟩, ha', hread⟩ := Option.map_eq_some_iff.mp hread
      obtain ⟨rfl, -⟩ := Prod.mk.inj hread
      obtain rfl := Option.some.inj ha
      exact h.holds_of_read _ _ _ ha'
    · cases hread
  · intro o ho
    cases o with
    | none => exact .word (by decide) (by decide)
    | some a => exact .named (by decide) (by decide) (h.plain_toNode a (ho a rfl))
  · intro o ho
    cases o with
    | none => rfl
    | some a =>
      show (s.ofNode {} (s.toNode a)).map some = _
      rw [h.ofNode_toNode a (ho a rfl)]
      rfl

theorem list (h : s.Faithful depth P) : (Schema.list s).Faithful (depth + 1) (ListOf P) := by
  refine ⟨⟨?_, ?_⟩, ?_, ?_⟩
  · intro as has rest
    unfold Schema.list
    dsimp only
    rw [List.append_assoc, readNat_writeNat has.short]
    exact h.readMany_flatMap has.each rest
  · intro bytes as rest hread
    obtain ⟨⟨n, bytes'⟩, hn, hread⟩ := Option.bind_eq_some_iff.mp hread
    obtain ⟨rfl, hall⟩ := h.of_readMany hread
    exact ⟨lt_of_readNat hn, hall⟩
  · intro as has
    refine .list fun n hn => ?_
    obtain ⟨a, ha, rfl⟩ := List.mem_map.mp hn
    exact h.plain_toNode a (has.each a ha)
  · intro as has
    exact mapM_map_eq_some fun a ha => h.ofNode_toNode a (has.each a ha)

theorem via {view : α → β} {of : β → α} (h : s.Faithful depth P)
    (hof : ∀ b, Q b → P (of b) ∧ view (of b) = b) (hview : ∀ a, P a → Q (view a)) :
    (s.via view of).Faithful depth Q := by
  refine ⟨h.toFaithful.via hof hview, ?_, ?_⟩
  · intro b hb
    exact h.plain_toNode (of b) (hof b hb).1
  · intro b hb
    show (s.ofNode {} (s.toNode (of b))).map view = _
    rw [h.ofNode_toNode _ (hof b hb).1, Option.map_some, (hof b hb).2]

theorem wrapped {typeName : String} (h : s.Faithful depth P) :
    (Schema.wrapped typeName s).Faithful (depth + 1) P := by
  refine ⟨h.toFaithful, ?_, ?_⟩
  · intro a ha
    exact .tuple (List.forall_mem_singleton.mpr (h.plain_toNode a ha))
  · intro a ha
    exact h.ofNode_toNode a ha

theorem set [Key κ] {s : Schema κ} {P : κ → Prop} (h : s.Faithful depth P) :
    (Schema.set s).Faithful (depth + 1) (SetOf P) := by
  refine h.list.via ?_ ?_
  · intro ks hks
    have hlength : ks.toList.length = ks.size := List.length_map _
    exact ⟨⟨hlength ▸ hks.short, hks.each⟩, ks.ofList_toList⟩
  · intro ks hks
    exact ⟨Nat.lt_of_le_of_lt (SortedSet.size_ofList_le ks) hks.short,
      fun k hk => hks.each k (SortedSet.mem_toList_ofList_iff.mp hk)⟩

theorem pair (h : s.Faithful depth P) (h' : t.Faithful depth Q) :
    (Schema.pair s t).Faithful (depth + 1) fun x => P x.1 ∧ Q x.2 := by
  refine ⟨h.toFaithful.append h'.toFaithful, ?_, ?_⟩
  · rintro ⟨a, b⟩ ⟨ha, hb⟩
    exact .tuple (List.forall_mem_cons.mpr
      ⟨h.plain_toNode a ha, List.forall_mem_singleton.mpr (h'.plain_toNode b hb)⟩)
  · rintro ⟨a, b⟩ ⟨ha, hb⟩
    show (do return (← s.ofNode {} (s.toNode a), ← t.ofNode {} (t.toNode b)) : Option _) = _
    rw [h.ofNode_toNode a ha, h'.ofNode_toNode b hb]
    rfl

theorem map [Key κ] {k : KeySchema κ} {P : κ → Prop} (h : k.toSchema.Faithful depth P)
    (h' : t.Faithful depth Q) : (Schema.map k t).Faithful (depth + 1) (MapOf P Q) := by
  refine ⟨Archive.Faithful.via (h.pair h').list.toFaithful ?_ ?_, ?_, ?_⟩
  · intro m hm
    exact ⟨⟨hm.short, hm.each⟩, m.ofList_entries⟩
  · intro es hes
    obtain ⟨hsize, hmem⟩ := SortedMap.ofList_entries_subset es
    exact ⟨Nat.lt_of_le_of_lt hsize hes.short, fun e he => hes.each e (hmem e he)⟩
  · intro m hm
    refine .map (List.forall_mem_map.mpr ?_) (List.forall_mem_map.mpr ?_)
    · intro e he
      exact h.plain_toNode e.1 (hm.each e he).1
    · intro e he
      exact h'.plain_toNode e.2 (hm.each e he).2
  · intro m hm
    have hentries : (m.entries.map fun e => (k.toNode e.1, t.toNode e.2)).mapM
        (fun e => do return (← k.ofNode {} e.1, ← t.ofNode {} e.2)) = some m.entries := by
      refine mapM_map_eq_some fun e he => ?_
      rw [h.ofNode_toNode e.1 (hm.each e he).1, h'.ofNode_toNode e.2 (hm.each e he).2]
      rfl
    show (do return SortedMap.ofList (← (m.entries.map _).mapM _) : Option _) = _
    rw [hentries]
    exact congrArg some m.ofList_entries

end Faithful

/-- A name that tells a form from others, and is not taken for a value that has no form. -/
def isFormName (n : String) : Bool := Text.isPlain n && !Text.isValueWord n && n != "Some"

/-- One of several forms is told by its place among them, or by its name; the count of a counted
form has to fit. -/
theorem faithful_choice {variants : List (Variant α)} {index count : α → Nat} {P : α → Prop}
    (hnames : (variants.map Variant.name).Nodup ∧
      (variants.map Variant.name).all isFormName = true)
    (hshort : variants.length < byteValues variantWidth)
    (hforms : ∀ a, P a →
      (∃ name, variants[index a]? = some (.plain name a)) ∨
        ∃ name build, variants[index a]? = some (.counted name build) ∧ build (count a) = a ∧
          count a < byteValues variantWidth)
    (hplain : ∀ name a, .plain name a ∈ variants → P a)
    (hcounted : ∀ name build n, .counted name build ∈ variants → n < byteValues variantWidth →
      P (build n)) :
    (choice variants index count).Faithful (depth + 1) P := by
  obtain ⟨hnodup, hforming⟩ := hnames
  have hform {v : Variant α} (hv : v ∈ variants) :
      Text.isPlain v.name = true ∧ Text.isValueWord v.name = false ∧ v.name ≠ "Some" := by
    have hv := List.all_eq_true.mp hforming v.name (List.mem_map_of_mem hv)
    simpa [isFormName, and_assoc] using hv
  refine ⟨⟨?_, ?_⟩, ?_, ?_⟩
  · intro a ha rest
    have hindex {v : Variant α} (hv : variants[index a]? = some v) :
        index a < byteValues variantWidth := by
      obtain ⟨hlt, -⟩ := List.getElem?_eq_some_iff.mp hv
      exact Nat.lt_trans hlt hshort
    unfold choice
    dsimp only
    rcases hforms a ha with ⟨name, hv⟩ | ⟨name, build, hv, hbuild, hcount⟩
    · rw [hv, List.append_assoc, readNat_writeNat (hindex hv)]
      simp only [Option.bind_eq_bind, Option.bind_some, hv, List.nil_append, Option.pure_def]
    · have hread := (@faithful_natural depth variantWidth).read_write (count a) hcount rest
      rw [hv, List.append_assoc, readNat_writeNat (hindex hv)]
      simp only [Option.bind_eq_bind, Option.bind_some, hv, variantCount, hread, Option.map_some,
        hbuild]
  · intro bytes a rest hread
    obtain ⟨⟨i, bytes'⟩, -, hread⟩ := Option.bind_eq_some_iff.mp hread
    obtain ⟨v, hv, hread⟩ := Option.bind_eq_some_iff.mp hread
    have hmem : v ∈ variants := List.mem_of_getElem? hv
    cases v with
    | plain name a' =>
      obtain ⟨rfl, -⟩ := Prod.mk.inj (Option.some.inj hread)
      exact hplain name a' hmem
    | counted name build =>
      obtain ⟨⟨n, rest'⟩, hn, hread⟩ := Option.map_eq_some_iff.mp hread
      obtain ⟨rfl, -⟩ := Prod.mk.inj hread
      exact hcounted name build n hmem (lt_of_readNat hn)
  · intro a ha
    unfold choice
    dsimp only
    rcases hforms a ha with ⟨name, hv⟩ | ⟨name, build, hv, -, hcount⟩
    · obtain ⟨hname, -, hsome⟩ := hform (List.mem_of_getElem? hv)
      rw [hv]
      exact .word hname hsome
    · obtain ⟨hname, hvalue, -⟩ := hform (List.mem_of_getElem? hv)
      rw [hv]
      exact .named hname hvalue ((faithful_natural _).plain_toNode _ hcount)
  · intro a ha
    unfold choice
    dsimp only
    rcases hforms a ha with ⟨name, hv⟩ | ⟨name, build, hv, hbuild, hcount⟩
    · have hfound : variant? variants name = some (.plain name a) :=
        variant?_of_mem hnodup (List.mem_of_getElem? hv)
      rw [hv]
      dsimp only
      rw [hfound]
    · have hfound : variant? variants name = some (.counted name build) :=
        variant?_of_mem hnodup (List.mem_of_getElem? hv)
      have hread : variantCount.ofNode {} (variantCount.toNode (count a)) = some (count a) :=
        (@faithful_natural depth variantWidth).ofNode_toNode _ hcount
      rw [hv]
      dsimp only
      rw [hfound]
      dsimp only
      rw [hread, Option.map_some, hbuild]

end Schema

/-! ## Fields and identifiers -/

namespace Fields.Faithful

variable {s : Schema α} {fs : Fields β} {P : α → Prop} {Q : β → Prop} {depth : Nat}

theorem done : Fields.done.Faithful depth fun _ => True where
  read_write _ _ _ := rfl
  holds_of_read _ _ _ _ := trivial
  names_toNodes _ := rfl
  plain_toNodes _ _ _ hf := absurd hf List.not_mem_nil
  ofNodes_of_lookup _ _ _ _ := rfl

theorem add {name : String} {default : Option α} (h : s.Faithful depth P)
    (h' : fs.Faithful depth Q) :
    (Fields.add name s default fs).Faithful depth fun x => P x.1 ∧ Q x.2 := by
  refine ⟨h.toFaithful.append h'.toFaithful, ?_, ?_, ?_⟩
  · rintro ⟨a, b⟩
    exact congrArg (name :: ·) (h'.names_toNodes b)
  · rintro ⟨a, b⟩ ⟨ha, hb⟩
    exact List.forall_mem_cons.mpr ⟨h.plain_toNode a ha, h'.plain_toNodes b hb⟩
  · rintro ⟨a, b⟩ ⟨ha, hb⟩ nodes hnodes
    obtain ⟨hnode, hrest⟩ := List.forall_mem_cons.mp hnodes
    have hread : readOr (s.ofNode {}) default (nodes.lookup name) = some a := by
      rw [hnode]
      exact h.ofNode_toNode a ha
    show (do return (← readOr (s.ofNode {}) default (nodes.lookup name), ← fs.ofNodes {} nodes) :
      Option _) = _
    rw [hread, h'.ofNodes_of_lookup b hb nodes hrest]
    rfl

theorem field {name : String} (h : s.Faithful depth P) (h' : fs.Faithful depth Q) :
    (Fields.field name s fs).Faithful depth fun x => P x.1 ∧ Q x.2 := add h h'

theorem fieldOr {name : String} {default : α} (h : s.Faithful depth P)
    (h' : fs.Faithful depth Q) :
    (Fields.fieldOr name s default fs).Faithful depth fun x => P x.1 ∧ Q x.2 := add h h'

end Fields.Faithful

/-- The names of the fields of a record have to differ. -/
theorem Schema.Faithful.record {typeName : String} {fs : Fields α} {P : α → Prop} {depth : Nat}
    (hnames : fs.names ≠ [] ∧ fs.names.Nodup ∧ fs.names.all Text.isPlain = true)
    (h : fs.Faithful depth P) : (Schema.record typeName fs).Faithful (depth + 1) P := by
  obtain ⟨hsome, hnodup, hplain⟩ := hnames
  refine ⟨h.toFaithful, ?_, ?_⟩
  · intro a ha
    have hnodes := h.names_toNodes a
    refine .record ?_ ?_ (h.plain_toNodes a ha)
    · intro hnil
      rw [hnil] at hnodes
      exact hsome hnodes.symm
    · intro f hf
      exact List.all_eq_true.mp hplain f.1 (hnodes ▸ List.mem_map_of_mem hf)
  · intro a ha
    have hdifferent : ((fs.toNodes a).map Prod.fst).Nodup := by
      rw [h.names_toNodes a]
      exact hnodup
    have hread : fs.ofNodes {} (fs.toNodes a) = some a :=
      h.ofNodes_of_lookup a ha _ fun f hf => lookup_of_mem hdifferent hf
    have honce : fs.names.all (atMostOnce (fs.toNodes a)) = true :=
      List.all_eq_true.mpr fun name _ => atMostOnce_of_nodup hdifferent name
    show (if (accepts typeName none && fs.names.all (atMostOnce (fs.toNodes a))) = true then
      fs.ofNodes {} (fs.toNodes a) else none) = _
    rw [honce, hread]
    rfl

theorem faithful_identSchema (typeName : String) (noun : Noun) (width : Nat) {depth : Nat} :
    (identSchema typeName noun width).toSchema.Faithful (depth + 1)
      fun i => i.number < byteValues width := by
  refine (Schema.faithful_natural width).wrapped.via ?_ ?_
  · intro i hi
    exact ⟨hi, rfl⟩
  · intro n hn
    exact hn

end Archive

end Quartermaster
