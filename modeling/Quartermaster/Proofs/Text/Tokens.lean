import Quartermaster.Archive.Text.Printer
import Quartermaster.Archive.Text.Reader

/-!
# Tokens there and back

Numbers, names and strings as the writer of the text form puts them down, and what the reader makes
of them in front of other characters. A token ends where a character stands that it cannot go on
with; behind a value the writer always puts such a character (`Ended`).
-/

namespace Quartermaster.Archive

/-! ## Digits -/

theorem digitValue?_digitChar : ∀ d < 16, digitValue? (Nat.digitChar d) = some d := by decide

theorem foldDigits?_cons {b n : Nat} {c : Char} {cs : List Char} (hc : c ≠ '_') :
    foldDigits? b n (c :: cs) =
      (digitValue? c).bind fun d => if d < b then foldDigits? b (n * b + d) cs else none := by
  rw [foldDigits?]
  · rfl
  · exact hc

/-- The digits of a number, in any base that has letters for them. -/
theorem mem_toDigits {b n : Nat} {c : Char} (hb : 1 < b) (hc : c ∈ Nat.toDigits b n) :
    ∃ d < b, c = Nat.digitChar d := by
  induction n using Nat.strongRecOn with
  | ind n ih =>
    rw [Nat.toDigits_eq_if hb] at hc
    split at hc
    · rename_i hn
      exact ⟨n, hn, List.mem_singleton.mp hc⟩
    · rename_i hn
      rcases List.mem_append.mp hc with hc | hc
      · exact ih (n / b) (Nat.div_lt_self (by omega) hb) hc
      · exact ⟨n % b, Nat.mod_lt n (by omega), List.mem_singleton.mp hc⟩

theorem foldDigits?_append {b m n : Nat} {cs ds : List Char} (h : foldDigits? b m cs = some n) :
    foldDigits? b m (cs ++ ds) = foldDigits? b n ds := by
  induction cs generalizing m with
  | nil =>
    obtain rfl := Option.some.inj h
    rfl
  | cons c cs ih =>
    by_cases hc : c = '_'
    · subst hc
      exact ih h
    · rw [List.cons_append, foldDigits?_cons hc]
      rw [foldDigits?_cons hc] at h
      obtain ⟨d, hd, h⟩ := Option.bind_eq_some_iff.mp h
      rw [hd, Option.bind_some]
      split at h
      · rename_i hlt
        rw [if_pos hlt]
        exact ih h
      · cases h

/-- Reading the digits of a number gives the number. -/
theorem foldDigits?_toDigits {b : Nat} (hb : 1 < b) (hb' : b ≤ 16) (n : Nat) :
    foldDigits? b 0 (Nat.toDigits b n) = some n := by
  have hdigit : ∀ m d, d < b → foldDigits? b m [Nat.digitChar d] = some (m * b + d) := by
    intro m d hd
    have hunderscore : ∀ d < 16, Nat.digitChar d ≠ '_' := by decide
    rw [foldDigits?_cons (hunderscore d (by omega)), digitValue?_digitChar d (by omega)]
    exact if_pos hd
  induction n using Nat.strongRecOn with
  | ind n ih =>
    rw [Nat.toDigits_eq_if hb]
    split
    · rename_i hn
      rw [hdigit 0 n hn, Nat.zero_mul, Nat.zero_add]
    · rename_i hn
      have hhigh := ih (n / b) (Nat.div_lt_self (by omega) hb)
      rw [foldDigits?_append hhigh, hdigit _ _ (Nat.mod_lt n (by omega)), Nat.mul_comm,
        Nat.div_add_mod]

/-! ## Numbers -/

theorem toList_toString (n : Nat) : (toString n).toList = Nat.toDigits 10 n :=
  String.toList_ofList

/-- The digits of a number are not taken for the mark of a base or for a sign. -/
theorem naturalOf?_toString (n : Nat) : naturalOf? (toString n).toList = some n := by
  have hdigits : ∀ c ∈ Nat.toDigits 10 n, c ≠ 'x' ∧ c ≠ 'o' ∧ c ≠ 'b' ∧ c ≠ '_' := by
    intro c hc
    obtain ⟨d, hd, rfl⟩ := mem_toDigits (by decide) hc
    have hother : ∀ d < 10, Nat.digitChar d ≠ 'x' ∧ Nat.digitChar d ≠ 'o' ∧
        Nat.digitChar d ≠ 'b' ∧ Nat.digitChar d ≠ '_' := by decide
    exact hother d hd
  have hread := foldDigits?_toDigits (show 1 < 10 by decide) (by decide) n
  have hsome : Nat.toDigits 10 n ≠ [] := Nat.toDigits_ne_nil
  rw [toList_toString]
  generalize Nat.toDigits 10 n = ds at hdigits hread hsome
  have hbase : splitBase ds = (10, ds) := by
    unfold splitBase
    split
    · exact absurd rfl (hdigits 'x' (by simp)).1
    · exact absurd rfl (hdigits 'o' (by simp)).2.1
    · exact absurd rfl (hdigits 'b' (by simp)).2.2.1
    · rfl
  unfold naturalOf?
  rw [hbase]
  dsimp only
  split
  · exact absurd rfl hsome
  · exact absurd rfl (hdigits '_' (by simp)).2.2.2
  · exact hread

theorem toList_toString_neg (m : Nat) :
    (toString (Int.negSucc m)).toList = '-' :: (toString (m + 1)).toList := by
  show ("-" ++ toString (m + 1)).toList = _
  rw [String.toList_append]
  rfl

/-- What a whole number may begin with. -/
def numberStarts : List Char := ['-', '0', '1', '2', '3', '4', '5', '6', '7', '8', '9']

/-- What holds of each of these characters. -/
theorem of_mem_starts (p : Char → Prop) [DecidablePred p]
    (h : numberStarts.all (fun c => decide (p c)) = true) {c : Char} (hc : c ∈ numberStarts) :
    p c :=
  of_decide_eq_true (List.all_eq_true.mp h c hc)

/-- Where a whole number begins. -/
theorem exists_start (n : Int) : ∃ c ∈ numberStarts, ∃ cs, (toString n).toList = c :: cs := by
  cases n with
  | ofNat m =>
    show ∃ c ∈ numberStarts, ∃ cs, (toString m).toList = c :: cs
    rw [toList_toString]
    cases hcs : Nat.toDigits 10 m with
    | nil => exact absurd hcs Nat.toDigits_ne_nil
    | cons c cs =>
      obtain ⟨d, hd, rfl⟩ := mem_toDigits (by decide) (hcs ▸ List.mem_cons_self)
      have hdigit : ∀ d < 10, Nat.digitChar d ∈ numberStarts := by decide
      exact ⟨_, hdigit d hd, cs, rfl⟩
  | negSucc m => exact ⟨'-', by decide, _, toList_toString_neg m⟩

theorem integerOf?_toString (n : Int) : integerOf? (toString n).toList = some n := by
  cases n with
  | ofNat m =>
    have hread := naturalOf?_toString m
    have hsign : ∀ c ∈ (toString m).toList, c ≠ '+' ∧ c ≠ '-' := by
      intro c hc
      rw [toList_toString] at hc
      obtain ⟨d, hd, rfl⟩ := mem_toDigits (by decide) hc
      have hdigit : ∀ d < 10, Nat.digitChar d ≠ '+' ∧ Nat.digitChar d ≠ '-' := by decide
      exact hdigit d hd
    show integerOf? (toString m).toList = _
    generalize (toString m).toList = cs at hread hsign
    unfold integerOf?
    split
    · exact absurd rfl (hsign '+' List.mem_cons_self).1
    · exact absurd rfl (hsign '-' List.mem_cons_self).2
    · rw [hread]
      rfl
  | negSucc m =>
    rw [toList_toString_neg, integerOf?, naturalOf?_toString]
    rfl

theorem isNumberChar_of_mem {n : Int} {c : Char} (hc : c ∈ (toString n).toList) :
    isNumberChar c = true := by
  have hdigits : ∀ m : Nat, ∀ c ∈ (toString m).toList, isNumberChar c = true := by
    intro m c hc
    rw [toList_toString] at hc
    obtain ⟨d, hd, rfl⟩ := mem_toDigits (by decide) hc
    have hnumber : ∀ d < 10, isNumberChar (Nat.digitChar d) = true := by decide
    exact hnumber d hd
  cases n with
  | ofNat m => exact hdigits m c hc
  | negSucc m =>
    rw [toList_toString_neg] at hc
    rcases List.mem_cons.mp hc with rfl | hc
    · decide
    · exact hdigits (m + 1) c hc

namespace Text

/-! ## Where a value ends -/

/-- What the writer puts behind a value: nothing at all, or a comma, a bracket or a colon. -/
def Ended (rest : List Char) : Prop := ∀ c ∈ rest.head?, c = ',' ∨ c = ')' ∨ c = ':'

theorem ended_cons {c : Char} {cs : List Char} (h : c = ',' ∨ c = ')' ∨ c = ':') :
    Ended (c :: cs) := by
  rintro c' hc'
  obtain rfl := Option.some.inj hc'
  exact h

/-- Of what goes on no further nothing is taken. -/
theorem takeWhile_append_ended {p : Char → Bool} {cs rest : List Char} (hcs : ∀ c ∈ cs, p c = true)
    (hrest : ∀ c ∈ rest.head?, p c = false) :
    (cs ++ rest).takeWhile p = cs ∧ (cs ++ rest).dropWhile p = rest := by
  rw [List.takeWhile_append_of_pos hcs, List.dropWhile_append_of_pos hcs]
  cases rest with
  | nil => exact ⟨List.append_nil cs, rfl⟩
  | cons c rest =>
    have hc : ¬ p c = true := by simp [hrest c rfl]
    rw [List.takeWhile_cons_of_neg hc, List.dropWhile_cons_of_neg hc]
    exact ⟨List.append_nil cs, rfl⟩

theorem length_le_length_flatMap {α β : Type} {f : α → List β} (hf : ∀ a, f a ≠ []) (as : List α) :
    as.length ≤ (as.flatMap f).length := by
  induction as with
  | nil => exact Nat.zero_le _
  | cons a as ih =>
    have ha := List.length_pos_iff.mpr (hf a)
    rw [List.flatMap_cons, List.length_append, List.length_cons]
    omega

/-! ## Blanks -/

/-- Characters that are passed over. -/
def Blank (cs : List Char) : Prop := ∀ c ∈ cs, isBlank c = true

theorem skip_blank {bs cs : List Char} (hbs : Blank bs)
    (hcs : ∀ c ∈ cs.head?, isBlank c = false ∧ c ≠ '/') : skip (bs ++ cs) = some cs := by
  obtain ⟨-, hdrop⟩ := takeWhile_append_ended hbs fun c hc => (hcs c hc).1
  unfold skip
  rw [skipFrom, hdrop]
  split
  · exact absurd rfl (hcs '/' rfl).2
  · exact absurd rfl (hcs '/' rfl).2
  · exact absurd rfl (hcs '/' rfl).2
  · rfl

theorem blank_nil : Blank [] := fun _ h => absurd h List.not_mem_nil

theorem skip_self {cs : List Char} (hcs : ∀ c ∈ cs.head?, isBlank c = false ∧ c ≠ '/') :
    skip cs = some cs :=
  skip_blank blank_nil hcs

theorem skip_round (rest : List Char) : skip ('(' :: rest) = some ('(' :: rest) :=
  skip_self fun _ hc => Option.some.inj hc ▸ by decide

theorem skip_ended {rest : List Char} (h : Ended rest) : skip rest = some rest := by
  refine skip_self fun c hc => ?_
  rcases h c hc with rfl | rfl | rfl <;> decide

/-! ## Names -/

theorem ne_of_isLetter {c c' : Char} (h : isLetter c = true) (h' : isLetter c' = false) :
    c ≠ c' := by
  rintro rfl
  rw [h] at h'
  cases h'

/-- A name that needs no mark: a letter, and then letters and digits. -/
def isPlain (n : String) : Bool := n.toList.head?.any isLetter && n.toList.all isNameChar

theorem name_append {n : String} {rest : List Char} (hn : isPlain n = true)
    (hrest : ∀ c ∈ rest.head?, isRawChar c = false ∧ c ≠ '#' ∧ c ≠ '"') :
    name (n.toList ++ rest) = some (n, rest) := by
  obtain ⟨hhead, hall⟩ := Bool.and_eq_true_iff.mp hn
  have hname : ∀ c ∈ rest.head?, isNameChar c = false := by
    intro c hc
    obtain ⟨hraw, -⟩ := hrest c hc
    unfold isRawChar at hraw
    simp only [Bool.or_eq_false_iff] at hraw
    exact hraw.1.1.1
  obtain ⟨htake, hdrop⟩ := takeWhile_append_ended (List.all_eq_true.mp hall) hname
  have hplain : plainName (n.toList ++ rest) = some (n, rest) := by
    unfold plainName
    have hraw : rest.head?.any isRawChar = false := by
      cases rest with
      | nil => rfl
      | cons c rest => exact (hrest c rfl).1
    rw [hdrop, htake, String.ofList_toList]
    exact if_neg (hraw ▸ Bool.false_ne_true)
  cases hcs : n.toList with
  | nil =>
    rw [hcs] at hhead
    cases hhead
  | cons c cs =>
    rw [hcs] at hhead hall hplain
    -- a mark would have to follow a name of one letter
    have hmark : ∀ c' ∈ (cs ++ rest).head?, c' ≠ '#' ∧ c' ≠ '"' := by
      intro c' hc'
      cases cs with
      | nil => exact (hrest c' hc').2
      | cons c'' cs =>
        obtain rfl := Option.some.inj hc'
        have hletter : isNameChar c'' = true := List.all_eq_true.mp hall c'' (by simp)
        constructor
        · rintro rfl
          exact absurd hletter (by decide)
        · rintro rfl
          exact absurd hletter (by decide)
    rw [List.cons_append] at hplain ⊢
    unfold name
    split
    · rename_i heq
      rw [(List.cons.inj heq).2] at hmark
      exact absurd rfl (hmark '#' rfl).1
    · rename_i heq
      rw [(List.cons.inj heq).2] at hmark
      exact absurd rfl (hmark '#' rfl).1
    · rename_i heq
      rw [(List.cons.inj heq).2] at hmark
      exact absurd rfl (hmark '"' rfl).2
    · rename_i heq
      obtain ⟨rfl, rfl⟩ := List.cons.inj heq
      have hletter : isLetter c = true := hhead
      rw [if_pos hletter]
      exact hplain
    · rename_i heq
      cases heq

theorem name_append_cons {n : String} (hn : isPlain n = true) {c : Char}
    (hc : isRawChar c = false ∧ c ≠ '#' ∧ c ≠ '"') (rest : List Char) :
    name (n.toList ++ c :: rest) = some (n, c :: rest) :=
  name_append hn fun _ hx => Option.some.inj hx ▸ hc

/-! ## Strings -/

theorem hex_length (c : Char) : (hexDigits c.toNat).length ≤ 6 := by
  refine (Nat.length_toDigits_le_iff (by decide) (by decide)).mpr ?_
  have hvalid := c.valid
  show c.val.toNat < 16 ^ 6
  rcases hvalid with h | ⟨-, h⟩
  · exact Nat.lt_trans h (by decide)
  · exact Nat.lt_trans h (by decide)

/-- Up to the brace the digits are read as those of a number in base sixteen are. -/
theorem bracedHex_append {m n more : Nat} {ds rest : List Char}
    (hds : ∀ c ∈ ds, ∃ d < 16, c = Nat.digitChar d) (hlength : ds.length ≤ more)
    (h : foldDigits? 16 m ds = some n) :
    bracedHex m more (ds ++ '\x7d' :: rest) = some (n, rest) := by
  have hother : ∀ d < 16, Nat.digitChar d ≠ '_' ∧ Nat.digitChar d ≠ '\x7d' := by decide
  induction ds generalizing m more with
  | nil =>
    obtain rfl := Option.some.inj h
    rw [List.nil_append, bracedHex]
  | cons c ds ih =>
    obtain ⟨⟨d, hd, rfl⟩, hrest⟩ := List.forall_mem_cons.mp hds
    rw [foldDigits?_cons (hother d hd).1, digitValue?_digitChar d hd, Option.bind_some,
      if_pos hd] at h
    cases more with
    | zero => cases hlength
    | succ more =>
      rw [List.cons_append, bracedHex]
      · rw [digitValue?_digitChar d hd]
        exact ih hrest (Nat.le_of_succ_le_succ hlength) h
      · exact (hother d hd).2

theorem characterOf?_toNat (c : Char) : characterOf? c.toNat = some c := by
  have hvalid : c.toNat.isValidChar := c.valid
  unfold characterOf?
  rw [if_pos hvalid, Char.ofNat_toNat]

/-- A character that was escaped by its code. -/
theorem escaped_code (c : Char) (rest : List Char) :
    escaped ('u' :: '\x7b' :: (hexDigits c.toNat ++ '\x7d' :: rest)) = some (c, rest) := by
  have hdigits : ∀ x ∈ hexDigits c.toNat, ∃ d < 16, x = Nat.digitChar d :=
    fun x hx => mem_toDigits (by decide) hx
  have hread : bracedHex 0 6 (hexDigits c.toNat ++ '\x7d' :: rest) = some (c.toNat, rest) :=
    bracedHex_append hdigits (hex_length c) (foldDigits?_toDigits (by decide) (by decide) _)
  have hfirst : ∃ d < 16, ∃ ds, hexDigits c.toNat = Nat.digitChar d :: ds := by
    cases hds : hexDigits c.toNat with
    | nil => exact absurd hds Nat.toDigits_ne_nil
    | cons x ds =>
      obtain ⟨d, hd, rfl⟩ := hdigits x (hds ▸ List.mem_cons_self)
      exact ⟨d, hd, ds, rfl⟩
  obtain ⟨d, hd, ds, hds⟩ := hfirst
  have hbrace : ∀ d < 16, Nat.digitChar d ≠ '\x7d' := by decide
  rw [hds] at hread ⊢
  rw [List.cons_append] at hread ⊢
  rw [escaped, if_neg (hbrace d hd), hread]
  simp only [Option.bind_eq_bind, Option.bind_some, characterOf?_toNat, Option.pure_def]

/-- A character as it stands inside quotes. -/
theorem stringRest_escape (c : Char) (fuel : Nat) (acc rest : List Char) :
    stringRest (fuel + 1) acc (escape c ++ rest) = stringRest fuel (c :: acc) rest := by
  have hescaped : ∀ x, escaped (x ++ rest) = some (c, rest) →
      stringRest (fuel + 1) acc ('\\' :: x ++ rest) = stringRest fuel (c :: acc) rest := by
    intro x hx
    rw [List.cons_append, stringRest, if_neg (by decide), if_pos rfl, hx]
    rfl
  unfold escape
  split
  · subst_vars
    exact hescaped ['"'] rfl
  split
  · subst_vars
    exact hescaped ['\''] rfl
  split
  · subst_vars
    exact hescaped ['\\'] rfl
  split
  · subst_vars
    exact hescaped ['n'] rfl
  split
  · subst_vars
    exact hescaped ['r'] rfl
  split
  · subst_vars
    exact hescaped ['t'] rfl
  split
  · subst_vars
    exact hescaped ['0'] rfl
  split
  · refine hescaped ('u' :: '\x7b' :: (hexDigits c.toNat ++ ['\x7d'])) ?_
    rw [List.cons_append, List.cons_append, List.append_assoc]
    exact escaped_code c rest
  · rename_i hquote _ hstroke _ _ _ _ _
    rw [List.singleton_append, stringRest, if_neg hquote, if_neg hstroke]

theorem stringRest_flatMap (cs : List Char) (fuel : Nat) (acc rest : List Char)
    (hfuel : cs.length < fuel) :
    stringRest fuel acc (cs.flatMap escape ++ '"' :: rest) =
      some (String.ofList (acc.reverse ++ cs), rest) := by
  induction cs generalizing fuel acc with
  | nil =>
    obtain ⟨fuel, rfl⟩ := Nat.exists_eq_succ_of_ne_zero (Nat.ne_of_gt hfuel)
    rw [List.append_nil]
    exact if_pos rfl
  | cons c cs ih =>
    obtain ⟨fuel, rfl⟩ := Nat.exists_eq_succ_of_ne_zero (Nat.ne_of_gt (Nat.zero_lt_of_lt hfuel))
    rw [List.flatMap_cons, List.append_assoc, stringRest_escape,
      ih fuel (c :: acc) (Nat.lt_of_succ_lt_succ hfuel), List.reverse_cons, List.append_assoc,
      List.singleton_append]

theorem escape_ne_nil (c : Char) : escape c ≠ [] := by
  unfold escape
  repeat' split
  all_goals exact List.cons_ne_nil _ _

/-- A string behind its opening quote, with as much fuel as there are characters. -/
theorem stringRest_quote (s : String) (rest : List Char) :
    ∃ body, quote s ++ rest = '"' :: body ∧
      stringRest (body.length + 1) [] body = some (s, rest) := by
  refine ⟨s.toList.flatMap escape ++ '"' :: rest, ?_, ?_⟩
  · unfold quote
    rw [List.append_assoc, List.cons_append, List.singleton_append]
  · have hlength := length_le_length_flatMap escape_ne_nil s.toList
    rw [stringRest_flatMap _ _ _ _ (by rw [List.length_append]; omega), List.reverse_nil,
      List.nil_append, String.ofList_toList]

end Text

end Quartermaster.Archive
