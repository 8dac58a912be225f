import Quartermaster.Proofs.Text.Tokens

/-!
# Nodes there and back

A node is plain if it is made as the writers of stored data make them: words and the names of fields
need no mark, a group has no name before it or holds one item, and brackets nest only so deep
(`Node.Plain`). A plain node is found again in its text (`parse?_print`).

The proof is by induction on the node. What is carried through is that the reader finds the node in
front of anything that may stand behind a value (`Reads`); lines and items are then read one by one.
-/

namespace Quartermaster.Archive

/-- Nodes with brackets at most so deep that are found again in their text. -/
inductive Node.Plain : Nat → Node → Prop where
  | word {depth name} (hname : Text.isPlain name = true) (hsome : name ≠ "Some") :
      Plain depth (.word name)
  | number {depth} (n : Int) : Plain depth (.number (toString n))
  | text {depth} (s : String) : Plain depth (.text s)
  | record {depth fields} (hsome : fields ≠ []) (hnames : ∀ f ∈ fields, Text.isPlain f.1 = true)
      (hfields : ∀ f ∈ fields, Plain depth f.2) : Plain (depth + 1) (.record none fields)
  | tuple {depth items} (hitems : ∀ n ∈ items, Plain depth n) :
      Plain (depth + 1) (.tuple none items)
  | named {depth name item} (hname : Text.isPlain name = true)
      (hvalue : Text.isValueWord name = false) (hitem : Plain depth item) :
      Plain (depth + 1) (.tuple (some name) [item])
  | list {depth items} (hitems : ∀ n ∈ items, Plain depth n) : Plain (depth + 1) (.list items)
  | map {depth entries} (hkeys : ∀ e ∈ entries, Plain depth e.1)
      (hvalues : ∀ e ∈ entries, Plain depth e.2) : Plain (depth + 1) (.map entries)

namespace Text

variable {α : Type} {item : List Char → Option (α × List Char)} {close : Char}

/-! ## Items -/

/-- Items behind an opening bracket, each on a line of its own. -/
def lines (write : α → List Char) (depth : Nat) (as : List α) : List Char :=
  as.flatMap fun a => indent (depth + 1) ++ write a ++ [',', '\n']

theorem lines_cons (write : α → List Char) (depth : Nat) (a : α) (as : List α) :
    lines write depth (a :: as) =
      indent (depth + 1) ++ (write a ++ ',' :: '\n' :: lines write depth as) := by
  unfold lines
  rw [List.flatMap_cons, List.append_assoc, List.append_assoc]
  rfl

theorem blank_indent (depth : Nat) : Blank (indent depth) := by
  intro c hc
  obtain rfl := List.eq_of_mem_replicate hc
  decide

theorem blank_break : Blank ['\n'] := List.forall_mem_singleton.mpr (by decide)

theorem blank_space : Blank [' '] := List.forall_mem_singleton.mpr (by decide)

/-- What a value begins with: nothing that is passed over, and no bracket that closes. -/
def Opens (c : Char) : Prop :=
  isBlank c = false ∧ c ≠ '/' ∧ c ≠ '#' ∧ c ≠ ')' ∧ c ≠ ']' ∧ c ≠ '\x7d'

instance : DecidablePred Opens := fun _ => inferInstanceAs (Decidable (_ ∧ _))

/-- A reader finds a value in these characters, whatever it is that ends them. -/
structure Reads (read : List Char → Option (α × List Char)) (cs : List Char) (a : α) : Prop where
  opens : ∃ c cs', cs = c :: cs' ∧ Opens c
  found : ∀ rest, Ended rest → read (cs ++ rest) = some (a, rest)

/-- A value that its first character gives away is found in front of anything. -/
theorem Reads.of_first {read : List Char → Option (α × List Char)} {cs : List Char} {a : α}
    {c : Char} (hc : Opens c)
    (h : ∀ rest, ∃ inner, cs ++ rest = c :: inner ∧ read (c :: inner) = some (a, rest)) :
    Reads read cs a := by
  constructor
  · obtain ⟨inner, hinner, -⟩ := h []
    rw [List.append_nil] at hinner
    exact ⟨c, inner, hinner, hc⟩
  · intro rest _
    obtain ⟨inner, hinner, hread⟩ := h rest
    rw [hinner, hread]

/-- The brackets that close. -/
def Closes (c : Char) : Prop := c = ')' ∨ c = ']' ∨ c = '\x7d'

theorem skip_close (hclose : Closes close) {bs : List Char} (hbs : Blank bs) (rest : List Char) :
    skip (bs ++ close :: rest) = some (close :: rest) := by
  refine skip_blank hbs fun c hc => ?_
  obtain rfl := Option.some.inj hc
  rcases hclose with rfl | rfl | rfl <;> decide

theorem skip_comma (rest : List Char) : skip (',' :: rest) = some (',' :: rest) :=
  skip_ended (ended_cons (.inl rfl))

theorem Reads.skip {read : List Char → Option (α × List Char)} {cs bs : List Char} {a : α}
    (h : Reads read cs a) (hbs : Blank bs) (rest : List Char) :
    skip (bs ++ (cs ++ rest)) = some (cs ++ rest) := by
  obtain ⟨c, cs', rfl, hblank, hstroke, -⟩ := h.opens
  refine skip_blank hbs fun c' hc' => ?_
  obtain rfl := Option.some.inj hc'
  exact ⟨hblank, hstroke⟩

section

variable (hclose : Closes close)
include hclose

theorem items_close {before : List Char} (hbefore : Blank before) (rest : List Char) (fuel : Nat) :
    items item close (fuel + 1) (before ++ close :: rest) = some ([], rest) := by
  rw [items, skip_close hclose hbefore]
  exact if_pos rfl

theorem Reads.opens_not_close {cs : List Char} {a : α} (h : Reads item cs a) :
    ∃ c cs', cs = c :: cs' ∧ c ≠ close := by
  obtain ⟨c, cs', hcs, -, -, -, hround, hsquare, hcurly⟩ := h.opens
  refine ⟨c, cs', hcs, ?_⟩
  rcases hclose with rfl | rfl | rfl
  · exact hround
  · exact hsquare
  · exact hcurly

theorem ne_comma : close ≠ ',' := by
  rcases hclose with rfl | rfl | rfl <;> decide

theorem items_comma {before text rest last : List Char} {a : α} {as : List α} {fuel : Nat}
    (h : Reads item text a) (hbefore : Blank before)
    (hrest : items item close fuel rest = some (as, last)) :
    items item close (fuel + 1) (before ++ (text ++ ',' :: rest)) = some (a :: as, last) := by
  have hskip := h.skip hbefore (',' :: rest)
  have hfound := h.found (',' :: rest) (ended_cons (.inl rfl))
  obtain ⟨c, cs, rfl, hopen⟩ := h.opens_not_close hclose
  rw [List.cons_append] at hskip hfound ⊢
  rw [items, hskip]
  simp only [Option.bind_eq_bind, Option.bind_some, if_neg hopen, hfound, skip_comma, if_pos,
    hrest, Option.pure_def]

theorem items_last {before text rest : List Char} {a : α} {fuel : Nat} (h : Reads item text a)
    (hbefore : Blank before) (hended : Ended (close :: rest)) :
    items item close (fuel + 1) (before ++ (text ++ close :: rest)) = some ([a], rest) := by
  have hskip := h.skip hbefore (close :: rest)
  have hfound := h.found (close :: rest) hended
  obtain ⟨c, cs, rfl, hopen⟩ := h.opens_not_close hclose
  rw [List.cons_append] at hskip hfound ⊢
  rw [items, hskip]
  simp only [Option.bind_eq_bind, Option.bind_some, if_neg hopen, hfound, skip_ended hended,
    if_neg (ne_comma hclose), if_pos, Option.pure_def]

theorem items_lines {write : α → List Char} {depth : Nat} {as : List α}
    (h : ∀ a ∈ as, Reads item (write a) a) {before : List Char} (hbefore : Blank before)
    (rest : List Char) {fuel : Nat} (hfuel : as.length < fuel) :
    items item close fuel (before ++ (lines write depth as ++ (indent depth ++ close :: rest))) =
      some (as, rest) := by
  induction as generalizing before fuel with
  | nil =>
    obtain ⟨fuel, rfl⟩ := Nat.exists_eq_succ_of_ne_zero (Nat.ne_of_gt hfuel)
    have hblank : Blank (before ++ indent depth) :=
      List.forall_mem_append.mpr ⟨hbefore, blank_indent depth⟩
    have hall : items item close (fuel + 1) _ = _ := items_close hclose hblank rest fuel
    simpa only [lines, List.flatMap_nil, List.nil_append, List.append_assoc] using hall
  | cons a as ih =>
    obtain ⟨fuel, rfl⟩ := Nat.exists_eq_succ_of_ne_zero (Nat.ne_of_gt (Nat.zero_lt_of_lt hfuel))
    obtain ⟨ha, has⟩ := List.forall_mem_cons.mp h
    have hblank : Blank (before ++ indent (depth + 1)) :=
      List.forall_mem_append.mpr ⟨hbefore, blank_indent _⟩
    have hrest := ih has blank_break (Nat.lt_of_succ_lt_succ hfuel)
    have hall := items_comma hclose ha hblank hrest
    simpa only [lines, List.flatMap_cons, List.append_assoc, List.cons_append, List.nil_append]
      using hall

/-- Items on one line. -/
theorem items_joinItems {write : α → List Char} {as : List α}
    (h : ∀ a ∈ as, Reads item (write a) a) {before : List Char} (hbefore : Blank before)
    {rest : List Char} (hended : Ended (close :: rest)) {fuel : Nat} (hfuel : as.length < fuel) :
    items item close fuel (before ++ (joinItems (as.map write) ++ close :: rest)) =
      some (as, rest) := by
  induction as generalizing before fuel with
  | nil =>
    obtain ⟨fuel, rfl⟩ := Nat.exists_eq_succ_of_ne_zero (Nat.ne_of_gt hfuel)
    exact items_close hclose hbefore rest fuel
  | cons a as ih =>
    obtain ⟨fuel, rfl⟩ := Nat.exists_eq_succ_of_ne_zero (Nat.ne_of_gt (Nat.zero_lt_of_lt hfuel))
    obtain ⟨ha, has⟩ := List.forall_mem_cons.mp h
    cases as with
    | nil => exact items_last hclose ha hbefore hended
    | cons b bs =>
      have hrest := ih has blank_space (Nat.lt_of_succ_lt_succ hfuel)
      have hall := items_comma hclose ha hbefore hrest
      simpa only [List.map_cons, joinItems, List.append_assoc, List.cons_append,
        List.nil_append] using hall

end

/-! ## Fields and entries -/

section

variable {read : List Char → Option (α × List Char)} {cs rest : List Char} {a : α}

theorem afterColon_append (h : Reads read cs a) (hrest : Ended rest) :
    afterColon read (':' :: ' ' :: (cs ++ rest)) = some (a, rest) := by
  have hskip := h.skip blank_space rest
  rw [List.cons_append, List.nil_append] at hskip
  rw [afterColon, skip_ended (ended_cons (.inr (.inr rfl)))]
  simp only [Option.bind_eq_bind, Option.bind_some, expect, if_pos, hskip, h.found rest hrest]

theorem opens_of_isLetter {c : Char} (h : isLetter c = true) : Opens c := by
  have hother : ∀ c', isLetter c' = false → c ≠ c' := fun _ => ne_of_isLetter h
  refine ⟨?_, hother _ (by decide), hother _ (by decide), hother _ (by decide),
    hother _ (by decide), hother _ (by decide)⟩
  unfold isBlank
  simp only [Bool.or_eq_false_iff, beq_eq_false_iff_ne]
  exact ⟨⟨⟨hother _ (by decide), hother _ (by decide)⟩, hother _ (by decide)⟩,
    hother _ (by decide)⟩

theorem exists_letter {n : String} (hn : isPlain n = true) :
    ∃ c cs, n.toList = c :: cs ∧ isLetter c = true := by
  obtain ⟨hhead, -⟩ := Bool.and_eq_true_iff.mp hn
  cases hcs : n.toList with
  | nil =>
    rw [hcs] at hhead
    cases hhead
  | cons c cs =>
    rw [hcs] at hhead
    exact ⟨c, cs, rfl, hhead⟩

theorem Reads.field {n : String} (hn : isPlain n = true) (h : Reads read cs a) :
    Reads (field read) (n.toList ++ [':', ' '] ++ cs) (n, a) := by
  constructor
  · obtain ⟨c, cs', hcs, hletter⟩ := exists_letter hn
    exact ⟨c, _, by rw [hcs]; rfl, opens_of_isLetter hletter⟩
  · intro rest hrest
    rw [List.append_assoc, List.append_assoc, List.cons_append, List.cons_append, List.nil_append,
      Text.field, name_append_cons hn (by decide)]
    simp only [Option.bind_eq_bind, Option.bind_some, afterColon_append h hrest, Option.pure_def]

theorem Reads.entry {ks : List Char} {k : α} (hk : Reads read ks k) (h : Reads read cs a) :
    Reads (entry read) (ks ++ [':', ' '] ++ cs) (k, a) := by
  constructor
  · obtain ⟨c, cs', rfl, hopen⟩ := hk.opens
    exact ⟨c, _, rfl, hopen⟩
  · intro rest hrest
    rw [List.append_assoc, List.append_assoc, List.cons_append, List.cons_append, List.nil_append,
      Text.entry, hk.found _ (ended_cons (.inr (.inr rfl)))]
    simp only [Option.bind_eq_bind, Option.bind_some, afterColon_append h hrest, Option.pure_def]

end

/-! ## Blocks -/

theorem length_le_length_lines (write : α → List Char) (depth : Nat) (as : List α) :
    as.length ≤ (lines write depth as).length :=
  length_le_length_flatMap (fun _ => List.append_ne_nil_of_right_ne_nil _ (List.cons_ne_nil _ _)) as

theorem block_cons (left right : Char) (depth : Nat) (write : α → List Char) (a : α) (as : List α)
    (rest : List Char) :
    block left right depth ((a :: as).map write) ++ rest =
      left :: '\n' :: (lines write depth (a :: as) ++ (indent depth ++ right :: rest)) := by
  unfold block lines
  rw [if_neg (by exact Bool.false_ne_true), List.flatMap_map]
  simp only [List.append_assoc, List.cons_append, List.nil_append]

/-- Items between brackets, each on a line of its own. -/
theorem items_block (hclose : Closes close) (left : Char) (depth : Nat) {write : α → List Char}
    {as : List α} (h : ∀ a ∈ as, Reads item (write a) a) (rest : List Char) :
    ∃ inner, block left close depth (as.map write) ++ rest = left :: inner ∧
      items item close (inner.length + 1) inner = some (as, rest) := by
  cases as with
  | nil =>
    exact ⟨close :: rest, rfl,
      items_close hclose blank_nil rest rest.length.succ⟩
  | cons a as =>
    refine ⟨_, block_cons left close depth write a as rest, ?_⟩
    refine items_lines hclose h blank_break rest ?_
    have hlength := length_le_length_lines write depth (a :: as)
    refine Nat.lt_succ_of_le (Nat.le_succ_of_le ?_)
    rw [List.length_append]
    exact Nat.le_add_right_of_le hlength

/-! ## Groups -/

section

variable {read : List Char → Option (Node × List Char)}

theorem startsField_name {n : String} (hn : isPlain n = true) (rest : List Char) :
    startsField (n.toList ++ ':' :: rest) = some true := by
  unfold startsField
  rw [name_append_cons hn (by decide)]
  dsimp only
  rw [skip_ended (ended_cons (.inr (.inr rfl)))]
  rfl

/-- A group of named items, each on a line of its own. -/
theorem group_fields {write : String × Node → List Char} {fields : List (String × Node)}
    (hsome : fields ≠ []) (h : ∀ f ∈ fields, Reads (field read) (write f) f)
    (hcolon : ∀ f ∈ fields, ∃ cs, isPlain f.1 = true ∧ write f = f.1.toList ++ ':' :: cs)
    (depth : Nat) (rest : List Char) :
    ∃ inner, block '(' ')' depth (fields.map write) ++ rest = '(' :: inner ∧
      group read inner = some (.record none fields, rest) := by
  obtain ⟨f, fs, rfl⟩ := List.exists_cons_of_ne_nil hsome
  refine ⟨_, block_cons .., ?_⟩
  obtain ⟨hf, hfs⟩ := List.forall_mem_cons.mp h
  obtain ⟨cs, hplain, hwrite⟩ := hcolon f List.mem_cons_self
  have hblank : Blank (['\n'] ++ indent (depth + 1)) :=
    List.forall_mem_append.mpr ⟨blank_break, blank_indent _⟩
  have hlength := length_le_length_lines write depth fs
  rw [lines_cons, List.append_assoc, List.append_assoc, List.cons_append, List.cons_append]
  generalize htail : lines write depth fs ++ (indent depth ++ ')' :: rest) = tail
  have hskip : skip ('\n' :: (indent (depth + 1) ++ (write f ++ ',' :: '\n' :: tail))) =
      some (write f ++ ',' :: '\n' :: tail) := hf.skip hblank (',' :: '\n' :: tail)
  have hstarts : startsField (write f ++ ',' :: '\n' :: tail) = some true := by
    rw [hwrite, List.append_assoc]
    exact startsField_name hplain _
  have hfuel : fs.length < (write f ++ ',' :: '\n' :: tail).length := by
    rw [← htail, List.length_append, List.length_cons, List.length_cons, List.length_append]
    omega
  have hrest : items (field read) ')' (write f ++ ',' :: '\n' :: tail).length ('\n' :: tail) =
      some (fs, rest) := by
    rw [← htail] at hfuel ⊢
    exact items_lines (.inl rfl) hfs blank_break rest hfuel
  have hall := items_comma (.inl rfl) hf blank_nil hrest
  rw [List.nil_append] at hall
  unfold group
  simp only [Option.bind_eq_bind, hskip, Option.bind_some, hstarts, if_pos, hall, Option.pure_def]

/-- No name begins with anything but a letter. -/
theorem name_eq_none {c : Char} (h : isLetter c = false) (cs : List Char) :
    name (c :: cs) = none := by
  have hraw : c ≠ 'r' := (ne_of_isLetter (by decide) h).symm
  rw [name, if_neg (by simp [h])]
  all_goals simp_all

/-- A group that begins with anything but a letter has plain items. -/
theorem startsField_eq_false {c : Char} (h : isLetter c = false) (cs : List Char) :
    startsField (c :: cs) = some false := by
  unfold startsField
  rw [name_eq_none h]

/-- Behind the first item on a line stands a comma or the closing bracket. -/
theorem joinItems_cons (write : Node → List Char) (n : Node) (ns : List Node) (rest : List Char) :
    ∃ c cs, (c = ',' ∨ c = ')') ∧
      joinItems ((n :: ns).map write) ++ ')' :: rest = write n ++ c :: cs := by
  cases ns with
  | nil => exact ⟨')', rest, .inr rfl, rfl⟩
  | cons n' ns =>
    refine ⟨',', ' ' :: (joinItems ((n' :: ns).map write) ++ ')' :: rest), .inl rfl, ?_⟩
    simp only [List.map_cons, joinItems, List.append_assoc, List.cons_append, List.nil_append]

theorem length_le_length_joinItems {write : Node → List Char} {ns : List Node}
    (h : ∀ n ∈ ns, Reads read (write n) n) : ns.length ≤ (joinItems (ns.map write)).length := by
  induction ns with
  | nil => exact Nat.zero_le _
  | cons n ns ih =>
    obtain ⟨hn, hns⟩ := List.forall_mem_cons.mp h
    obtain ⟨c, cs, hcs, -⟩ := hn.opens
    have hrest := ih hns
    cases ns with
    | nil =>
      show 1 ≤ (write n).length
      rw [hcs]
      exact Nat.le_add_left 1 cs.length
    | cons n' ns =>
      show _ ≤ (write n ++ [',', ' '] ++ joinItems ((n' :: ns).map write)).length
      rw [List.length_append, List.length_append, List.length_cons]
      simp only [List.length_cons, List.length_nil] at hrest ⊢
      omega

/-- A group of plain items, all on one line. -/
theorem group_items {write : Node → List Char} {nodes : List Node}
    (h : ∀ n ∈ nodes, Reads read (write n) n)
    (hcolon : ∀ n ∈ nodes, ∀ c rest, c = ',' ∨ c = ')' →
      startsField (write n ++ c :: rest) = some false) (rest : List Char) :
    group read (joinItems (nodes.map write) ++ ')' :: rest) = some (.tuple none nodes, rest) := by
  have hstarts : skip (joinItems (nodes.map write) ++ ')' :: rest) =
      some (joinItems (nodes.map write) ++ ')' :: rest) ∧
        startsField (joinItems (nodes.map write) ++ ')' :: rest) = some false := by
    cases nodes with
    | nil => exact ⟨skip_close (.inl rfl) blank_nil rest, startsField_eq_false (by decide) rest⟩
    | cons n ns =>
      obtain ⟨c, cs, hc, hjoin⟩ := joinItems_cons write n ns rest
      rw [hjoin]
      exact ⟨(h n List.mem_cons_self).skip blank_nil _, hcolon n List.mem_cons_self c cs hc⟩
  have hfuel : nodes.length < (joinItems (nodes.map write) ++ ')' :: rest).length + 1 := by
    have hlength := length_le_length_joinItems h
    rw [List.length_append]
    omega
  have hended : Ended (')' :: rest) := ended_cons (.inr (.inl rfl))
  have hall := items_joinItems (.inl rfl) h blank_nil hended hfuel
  rw [List.nil_append] at hall
  unfold group
  simp only [Option.bind_eq_bind, hstarts, Option.bind_some, Bool.false_eq_true, if_false, hall,
    Option.pure_def]

end

/-! ## Values -/

section

variable {inner : List Char → Option (Node × List Char)} {n : String} {rest : List Char}

theorem unmarked_word (hn : isPlain n = true) (hsome : n ≠ "Some") (hrest : Ended rest) :
    unmarked inner (n.toList ++ rest) = some (.word n, rest) := by
  have hname : name (n.toList ++ rest) = some (n, rest) := by
    refine name_append hn fun c hc => ?_
    rcases hrest c hc with rfl | rfl | rfl <;> decide
  have hworded : worded inner (n.toList ++ rest) = some (.word n, rest) := by
    unfold worded
    simp only [Option.bind_eq_bind, hname, Option.bind_some, skip_ended hrest]
    split
    · have hround := hrest '(' rfl
      exact absurd hround (by decide)
    · exact if_neg hsome
  unfold unmarked
  rw [hworded]

theorem unmarked_named {body : List Char} {item : Node} (hn : isPlain n = true)
    (hvalue : isValueWord n = false) (hbody : inner body = some (.tuple none [item], rest)) :
    unmarked inner (n.toList ++ '(' :: body) = some (.tuple (some n) [item], rest) := by
  have hname : name (n.toList ++ '(' :: body) = some (n, '(' :: body) :=
    name_append_cons hn (by decide) body
  have hworded : worded inner (n.toList ++ '(' :: body) =
      some (.tuple (some n) [item], rest) := by
    unfold worded
    simp only [Option.bind_eq_bind, hname, Option.bind_some, skip_round, hbody, named?, hvalue]
    simp
  unfold unmarked
  rw [hworded]

theorem unmarked_number (n : Int) (hrest : Ended rest) :
    unmarked inner ((toString n).toList ++ rest) = some (.number (toString n), rest) := by
  obtain ⟨c, hc, cs, hcs⟩ := exists_start n
  obtain ⟨hletter, hraw⟩ := of_mem_starts (fun c => isLetter c = false ∧ c ≠ 'r') (by decide) hc
  have hend : ∀ c ∈ rest.head?, isNumberChar c = false := by
    intro c hc
    rcases hrest c hc with rfl | rfl | rfl <;> decide
  obtain ⟨htake, hdrop⟩ := takeWhile_append_ended (fun _ => isNumberChar_of_mem) hend
  have hnumber : number ((toString n).toList ++ rest) = some (.number (toString n), rest) := by
    have htoken : isNumber (toString n).toList = true := by
      unfold isNumber
      rw [integerOf?_toString]
      rfl
    unfold number
    rw [htake, hdrop]
    dsimp only
    rw [if_pos htoken, String.ofList_toList]
  have hworded : worded inner (c :: (cs ++ rest)) = none := by
    unfold worded
    rw [name_eq_none hletter]
    rfl
  rw [hcs, List.cons_append] at hnumber ⊢
  unfold unmarked
  rw [hworded]
  dsimp only
  split
  · rename_i heq
    exact absurd (List.cons.inj heq).1 hraw
  · exact hnumber

end

/-- A character that is no mark: no quote, and no bracket that opens. -/
def Unmarked (c : Char) : Prop := c ≠ '"' ∧ c ≠ '\'' ∧ c ≠ '(' ∧ c ≠ '[' ∧ c ≠ '\x7b'

instance : DecidablePred Unmarked := fun _ => inferInstanceAs (Decidable (_ ∧ _))

theorem value_succ {c : Char} (h : Unmarked c) (depth : Nat) (cs : List Char) :
    value (depth + 1) (c :: cs) = unmarked (group (value depth)) (c :: cs) := by
  obtain ⟨hquote, hstroke, hround, hsquare, hcurly⟩ := h
  rw [value]
  all_goals simp_all

theorem exists_value_eq {c : Char} (h : Unmarked c) (depth : Nat) (cs : List Char) :
    ∃ inner, value depth (c :: cs) = unmarked inner (c :: cs) := by
  cases depth with
  | zero =>
    obtain ⟨hquote, hstroke, -⟩ := h
    refine ⟨fun _ => none, ?_⟩
    rw [value]
    all_goals simp_all
  | succ depth => exact ⟨group (value depth), value_succ h depth cs⟩

theorem unmarked_of_isLetter {c : Char} (h : isLetter c = true) : Unmarked c := by
  have hother : ∀ c', isLetter c' = false → c ≠ c' := fun _ => ne_of_isLetter h
  exact ⟨hother _ (by decide), hother _ (by decide), hother _ (by decide), hother _ (by decide),
    hother _ (by decide)⟩

/-! ## Nodes -/

theorem renderItems_eq_map (depth : Nat) (ns : List Node) :
    renderItems depth ns = ns.map (render depth) := by
  induction ns with
  | nil => rw [renderItems, List.map_nil]
  | cons n ns ih => rw [renderItems, ih, List.map_cons]

theorem renderFields_eq_map (depth : Nat) (fs : List (String × Node)) :
    renderFields depth fs = fs.map fun f => f.1.toList ++ [':', ' '] ++ render depth f.2 := by
  induction fs with
  | nil => rw [renderFields, List.map_nil]
  | cons f fs ih => rw [renderFields, ih, List.map_cons]

theorem renderEntries_eq_map (depth : Nat) (es : List (Node × Node)) :
    renderEntries depth es =
      es.map fun e => render depth e.1 ++ [':', ' '] ++ render depth e.2 := by
  induction es with
  | nil => rw [renderEntries, List.map_nil]
  | cons e es ih => rw [renderEntries, ih, List.map_cons]

theorem label_none : label none = [] := rfl

theorem label_some (name : String) : label (some name) = name.toList := rfl

theorem render_tuple (level : Nat) (name : Option String) (items : List Node) (rest : List Char) :
    render level (.tuple name items) ++ rest =
      label name ++ '(' :: (joinItems (items.map (render level)) ++ ')' :: rest) := by
  rw [render, renderItems_eq_map]
  simp only [List.append_assoc, List.cons_append, List.nil_append]

variable {depth : Nat} {n : Node}

/-- No item looks as if it had a name: even where it begins with a word, no colon comes next. -/
theorem startsField_render (h : n.Plain depth) (level : Nat) {c : Char} (hc : c = ',' ∨ c = ')')
    (rest : List Char) : startsField (render level n ++ c :: rest) = some false := by
  cases h with
  | word hname hsome =>
    have hended : Ended (c :: rest) := ended_cons (hc.imp_right .inl)
    have hend : isRawChar c = false ∧ c ≠ '#' ∧ c ≠ '"' := by
      rcases hc with rfl | rfl <;> decide
    rw [render, startsField, name_append_cons hname hend]
    dsimp only
    rw [skip_ended hended]
    rcases hc with rfl | rfl <;> rfl
  | number m =>
    obtain ⟨x, hx, cs, hcs⟩ := exists_start m
    have hletter := of_mem_starts (fun c => isLetter c = false) (by decide) hx
    rw [render, hcs]
    exact startsField_eq_false hletter _
  | text s =>
    rw [render]
    exact startsField_eq_false (by decide) _
  | record hsome hnames hfields =>
    obtain ⟨f, fs, rfl⟩ := List.exists_cons_of_ne_nil hsome
    rw [render, renderFields_eq_map]
    exact startsField_eq_false (by decide) _
  | tuple hitems =>
    rw [render]
    exact startsField_eq_false (by decide) _
  | named hname hvalue hitem =>
    rw [render_tuple, startsField, label_some, name_append_cons hname (by decide)]
    dsimp only
    rw [skip_round]
    rfl
  | list hitems =>
    rw [render, block]
    split
    · exact startsField_eq_false (by decide) _
    · exact startsField_eq_false (by decide) _
  | map hkeys hvalues =>
    rw [render, block]
    split
    · exact startsField_eq_false (by decide) _
    · exact startsField_eq_false (by decide) _

/-- The reader finds a plain node in its text, wherever its lines begin. -/
theorem reads_render (h : n.Plain depth) (level : Nat) :
    Reads (value depth) (render level n) n := by
  induction h generalizing level with
  | word hname hsome =>
    obtain ⟨c, cs, hcs, hletter⟩ := exists_letter hname
    rw [render]
    refine ⟨⟨c, cs, hcs, opens_of_isLetter hletter⟩, fun rest hrest => ?_⟩
    obtain ⟨inner, hinner⟩ := exists_value_eq (unmarked_of_isLetter hletter) _ (cs ++ rest)
    rw [hcs, List.cons_append, hinner, ← List.cons_append, ← hcs]
    exact unmarked_word hname hsome hrest
  | number m =>
    obtain ⟨c, hc, cs, hcs⟩ := exists_start m
    obtain ⟨hopens, hunmarked⟩ := of_mem_starts (fun c => Opens c ∧ Unmarked c) (by decide) hc
    rw [render]
    refine ⟨⟨c, cs, hcs, hopens⟩, fun rest hrest => ?_⟩
    obtain ⟨inner, hinner⟩ := exists_value_eq hunmarked _ (cs ++ rest)
    rw [hcs, List.cons_append, hinner, ← List.cons_append, ← hcs]
    exact unmarked_number m hrest
  | @text depth s =>
    rw [render]
    refine .of_first (show Opens '"' by decide) fun rest => ?_
    obtain ⟨body, hbody, hread⟩ := stringRest_quote s rest
    have hvalue : value depth ('"' :: body) =
        (stringRest (body.length + 1) [] body).map fun x => (.text x.1, x.2) := by
      cases depth <;> rfl
    refine ⟨body, hbody, ?_⟩
    rw [hvalue, hread]
    rfl
  | @record depth fields hsome hnames _ ih =>
    have hread : ∀ f ∈ fields, Reads (field (value depth))
        (f.1.toList ++ [':', ' '] ++ render (level + 1) f.2) f :=
      fun f hf => (ih f hf (level + 1)).field (hnames f hf)
    have hcolon : ∀ f ∈ fields, ∃ cs, isPlain f.1 = true ∧
        f.1.toList ++ [':', ' '] ++ render (level + 1) f.2 = f.1.toList ++ ':' :: cs :=
      fun f hf => ⟨_, hnames f hf, List.append_assoc ..⟩
    rw [render, renderFields_eq_map, label_none, List.nil_append]
    exact .of_first (show Opens '(' by decide) (group_fields hsome hread hcolon level)
  | tuple hitems ih =>
    refine ⟨⟨'(', _, by rw [render]; rfl, by decide⟩, fun rest _ => ?_⟩
    rw [render_tuple]
    exact group_items (fun n hn => ih n hn level)
      (fun n hn c rest hc => startsField_render (hitems n hn) level hc rest) rest
  | named hname hvalue hitem ih =>
    obtain ⟨c, cs, hcs, hletter⟩ := exists_letter hname
    refine ⟨⟨c, _, by rw [render, label_some, hcs]; rfl, opens_of_isLetter hletter⟩, ?_⟩
    intro rest _
    have hgroup := group_items (List.forall_mem_singleton.mpr (ih level))
      (List.forall_mem_singleton.mpr fun c rest hc => startsField_render hitem level hc rest) rest
    have hnamed := unmarked_named hname hvalue hgroup
    rw [render_tuple, label_some]
    rw [hcs, List.cons_append] at hnamed ⊢
    rw [value_succ (unmarked_of_isLetter hletter)]
    exact hnamed
  | list hitems ih =>
    have hblock := items_block (.inr (.inl rfl)) '[' level fun n hn => ih n hn (level + 1)
    rw [render, renderItems_eq_map]
    refine .of_first (show Opens '[' by decide) fun rest => ?_
    obtain ⟨inner, hinner, hitems⟩ := hblock rest
    refine ⟨inner, hinner, ?_⟩
    show (items _ ']' _ inner).map _ = _
    rw [hitems]
    rfl
  | map hkeys hvalues ihkeys ihvalues =>
    have hblock := items_block (.inr (.inr rfl)) '\x7b' level fun e he =>
      (ihkeys e he (level + 1)).entry (ihvalues e he (level + 1))
    rw [render, renderEntries_eq_map]
    refine .of_first (show Opens '\x7b' by decide) fun rest => ?_
    obtain ⟨inner, hinner, hentries⟩ := hblock rest
    refine ⟨inner, hinner, ?_⟩
    show (items _ '\x7d' _ inner).map _ = _
    rw [hentries]
    rfl

/-- A plain node is what its text is read as, with no shorthand switched on. -/
theorem parse?_print (h : n.Plain depthLimit) : parse? (print n) = some ({}, n) := by
  have hreads := reads_render h 0
  have hvalue := hreads.found [] fun c hc => absurd hc (by simp)
  have hskip := hreads.skip blank_nil []
  obtain ⟨c, cs, hcs, -, -, hmark, -⟩ := hreads.opens
  rw [List.append_nil] at hvalue hskip
  rw [List.nil_append] at hskip
  have hattributes : ∀ fuel, attributes (fuel + 1) {} (render 0 n) = some ({}, render 0 n) := by
    intro fuel
    rw [attributes, hskip, hcs]
    simp only [Option.bind_eq_bind, Option.bind_some, Option.pure_def]
    split
    · rename_i heq
      exact absurd (List.cons.inj heq).1 hmark
    · rfl
  unfold parse? print
  rw [String.toList_ofList]
  simp only [Option.bind_eq_bind, hattributes, Option.bind_some, hvalue]
  rfl

end Text

end Quartermaster.Archive
