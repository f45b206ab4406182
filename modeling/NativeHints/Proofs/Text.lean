import NativeHints.Text.Blank

/-!
# Laws of texts

Sizes and cuts behave like lengths and splits of lists.  Trimming and splitting at a
mark are the only ways to take a text apart as they do (`trim_eq_iff`,
`Parts.splitOn_eq`).
Comparison up to ASCII case is an equivalence that every word list respects.
-/

namespace NativeHints

namespace Text

/-! ## Size and cuts -/

theorem eq_nil_of_size_eq_zero {t : Text} (h : t.size = 0) : t = [] := by
  cases t with
  | nil => rfl
  | cons c t =>
      have := c.utf8Size_pos
      simp only [size_cons] at h
      omega

theorem size_pos {t : Text} (h : t ≠ []) : 0 < t.size :=
  Nat.pos_of_ne_zero fun hsize => h (eq_nil_of_size_eq_zero hsize)

theorem isBoundary_iff {t : Text} {position : Nat} :
    t.isBoundary position = true ↔ ∃ a b, t = a ++ b ∧ a.size = position := by
  unfold isBoundary
  rw [Option.isSome_iff_exists]
  constructor
  · rintro ⟨⟨a, b⟩, h⟩
    exact ⟨a, b, cut?_eq_some_iff.mp h⟩
  · rintro ⟨a, b, h⟩
    exact ⟨(a, b), cut?_eq_some_iff.mpr h⟩

theorem cut?_append (a b : Text) : (a ++ b).cut? a.size = some (a, b) :=
  cut?_eq_some_iff.mpr ⟨rfl, rfl⟩

/-- Of two splits of a text, the later one splits what the earlier one leaves. -/
theorem append_eq_append_of_size_le {a b c d : Text} (h : a ++ b = c ++ d)
    (hsize : a.size ≤ c.size) : ∃ m, c = a ++ m ∧ b = m ++ d := by
  rcases List.append_eq_append_iff.mp h with ⟨m, hc, hb⟩ | ⟨m, ha, hd⟩
  · exact ⟨m, hc, hb⟩
  · have hm : m = [] := by
      apply eq_nil_of_size_eq_zero
      rw [ha, size_append] at hsize
      omega
    subst hm
    exact ⟨[], by simpa using ha.symm, by simpa using hd.symm⟩

/-! ## Beginnings -/

theorem strip?_eq_some_iff {p t rest : Text} : strip? p t = some rest ↔ t = p ++ rest := by
  induction p generalizing t with
  | nil => simp [strip?, eq_comm]
  | cons c p ih =>
      cases t with
      | nil => simp [strip?]
      | cons d t =>
          rw [strip?]
          split
          · next h => simp [h, ih]
          · next h => simp [Ne.symm h]

theorem startsWith_iff {t p : Text} : t.startsWith p = true ↔ ∃ rest, t = p ++ rest := by
  simp only [startsWith, Option.isSome_iff_exists, strip?_eq_some_iff]

/-! ## Marks and trimming -/

theorem ne_of_not_mem {mark : Char} {t : Text} (h : mark ∉ t) :
    ∀ c ∈ t, decide (c ≠ mark) = true := by
  intro c hc
  apply decide_eq_true
  rintro rfl
  exact h hc

theorem splitAtFirst?_append {mark : Char} {first : Text} (h : mark ∉ first) (rest : Text) :
    splitAtFirst? mark (first ++ mark :: rest) = some (first, rest) := by
  have hmark : decide (mark ≠ mark) = false := by simp
  simp only [splitAtFirst?, List.dropWhile_append_of_pos (ne_of_not_mem h),
    List.takeWhile_append_of_pos (ne_of_not_mem h), List.dropWhile_cons, List.takeWhile_cons, hmark,
    Bool.false_eq_true, if_false, List.append_nil]

theorem splitAtFirst?_of_not_mem {mark : Char} {t : Text} (h : mark ∉ t) :
    splitAtFirst? mark t = none := by
  have hdrop : (t ++ []).dropWhile (fun c => decide (c ≠ mark)) = [] :=
    List.dropWhile_append_of_pos (ne_of_not_mem h)
  rw [List.append_nil] at hdrop
  simp only [splitAtFirst?, hdrop]

theorem splitAtFirst?_eq_some_iff {mark : Char} {t first rest : Text} :
    t.splitAtFirst? mark = some (first, rest) ↔ t = first ++ mark :: rest ∧ mark ∉ first := by
  constructor
  · intro h
    by_cases hmem : mark ∈ t
    · obtain ⟨a, b, rfl, ha⟩ := List.eq_append_cons_of_mem hmem
      rw [splitAtFirst?_append ha] at h
      cases h
      exact ⟨rfl, ha⟩
    · rw [splitAtFirst?_of_not_mem hmem] at h
      cases h
  · rintro ⟨rfl, hfirst⟩
    exact splitAtFirst?_append hfirst rest

theorem dropWhile_eq_self {p : Char → Bool} {t : Text} (h : ∀ c ∈ t, p c = false) :
    t.dropWhile p = t := by
  cases t with
  | nil => rfl
  | cons c t => rw [List.dropWhile_cons_of_neg (by simp [h c (List.mem_cons_self ..)])]

theorem dropLeading_of_not_mem {mark : Char} {t : Text} (h : mark ∉ t) :
    t.dropLeading mark = t :=
  dropWhile_eq_self fun c hc => by simpa using ne_of_not_mem h c hc

theorem trim_eq_self {t : Text} (h : ∀ c ∈ t, isBlank c = false) : t.trim = t := by
  have hreverse : ∀ c ∈ t.reverse, isBlank c = false := fun c hc => h c (List.mem_reverse.mp hc)
  rw [trim, dropWhile_eq_self h, dropWhile_eq_self hreverse, List.reverse_reverse]

/-- A text is another one with white space around it, which has none at its own ends. -/
structure Trims (t core : Text) : Prop where
  around : ∃ before after, t = before ++ (core ++ after) ∧
    (∀ c ∈ before, isBlank c = true) ∧ ∀ c ∈ after, isBlank c = true
  first : ∀ c ∈ core.head?, isBlank c = false
  last : ∀ c ∈ core.getLast?, isBlank c = false

theorem dropWhile_blank {a b : Text} (ha : ∀ c ∈ a, isBlank c = true)
    (hb : ∀ c ∈ b.head?, isBlank c = false) : (a ++ b).dropWhile isBlank = b := by
  rw [List.dropWhile_append_of_pos ha]
  cases b with
  | nil => rfl
  | cons c b => rw [List.dropWhile_cons_of_neg (by simp [hb c rfl])]

theorem not_blank_head?_dropWhile (t : Text) :
    ∀ c ∈ (t.dropWhile isBlank).head?, isBlank c = false := by
  intro c hc
  have hhead := List.head?_dropWhile_not isBlank t
  rw [Option.mem_def.mp hc] at hhead
  simpa using hhead

theorem trims_trim (t : Text) : Trims t t.trim := by
  let shorter := t.dropWhile isBlank
  have hfront : t = t.takeWhile isBlank ++ shorter := List.takeWhile_append_dropWhile.symm
  have hback : shorter = t.trim ++ (shorter.reverse.takeWhile isBlank).reverse := by
    rw [trim, ← List.reverse_append, List.takeWhile_append_dropWhile, List.reverse_reverse]
  refine ⟨⟨_, _, hfront.trans (congrArg _ hback), ?_, ?_⟩, fun c hc => ?_, fun c hc => ?_⟩
  · exact List.all_eq_true.mp List.all_takeWhile
  · intro c hc
    exact List.all_eq_true.mp List.all_takeWhile c (List.mem_reverse.mp hc)
  · refine not_blank_head?_dropWhile t c ?_
    show c ∈ shorter.head?
    rw [hback, List.head?_append, Option.mem_def.mp hc]
    rfl
  · refine not_blank_head?_dropWhile shorter.reverse c ?_
    rwa [trim, List.getLast?_reverse] at hc

theorem Trims.trim_eq {t core : Text} (h : Trims t core) : t.trim = core := by
  obtain ⟨before, after, rfl, hbefore, hafter⟩ := h.around
  cases hcore : core with
  | nil =>
      have hall : ∀ c ∈ before ++ after, isBlank c = true := by
        intro c hc
        exact (List.mem_append.mp hc).elim (hbefore c) (hafter c)
      have hdrop := dropWhile_blank (b := []) hall (by simp)
      rw [List.append_nil] at hdrop
      rw [trim, List.nil_append, hdrop]
      rfl
  | cons d rest =>
      rw [← hcore]
      have hfront : ∀ c ∈ (core ++ after).head?, isBlank c = false := by
        intro c hc
        refine h.first c ?_
        simpa [hcore] using hc
      have hback : ∀ c ∈ core.reverse.head?, isBlank c = false := by
        simpa using h.last
      rw [trim, dropWhile_blank hbefore hfront, List.reverse_append,
        dropWhile_blank (by simpa using hafter) hback, List.reverse_reverse]

/-- Trimming takes all white space away at both ends and nothing else. -/
theorem trim_eq_iff {t core : Text} : t.trim = core ↔ Trims t core :=
  ⟨fun h => h ▸ trims_trim t, Trims.trim_eq⟩

/-! ## Parts -/

theorem splitOn_ne_nil (mark : Char) (t : Text) : splitOn mark t ≠ [] := by
  cases t with
  | nil => simp [splitOn]
  | cons c t =>
      rw [splitOn]
      split
      · simp
      · split <;> simp

/-- A mark between two texts separates the parts of one from those of the other. -/
theorem splitOn_append (mark : Char) (a b : Text) :
    splitOn mark (a ++ mark :: b) = splitOn mark a ++ splitOn mark b := by
  induction a with
  | nil => simp [splitOn]
  | cons c a ih =>
      rw [List.cons_append, splitOn, splitOn, ih]
      split
      · rfl
      · cases ha : splitOn mark a with
        | nil => exact absurd ha (splitOn_ne_nil mark a)
        | cons part parts => rfl

/-- A text without the mark is a single part. -/
theorem splitOn_of_not_mem {mark : Char} {t : Text} (h : mark ∉ t) : splitOn mark t = [t] := by
  induction t with
  | nil => rfl
  | cons c t ih =>
      rw [List.mem_cons, not_or] at h
      rw [splitOn, if_neg fun heq => h.1 heq.symm, ih h.2]

/-- Texts are the parts of another one: with marks between them they make it up, and none has
a mark itself. -/
structure Parts (mark : Char) (t : Text) (parts : List Text) : Prop where
  ne_nil : parts ≠ []
  joined : t = [mark].intercalate parts
  unmarked : ∀ part ∈ parts, mark ∉ part

theorem intercalate_cons (mark : Char) (part : Text) {parts : List Text} (h : parts ≠ []) :
    [mark].intercalate (part :: parts) = part ++ mark :: [mark].intercalate parts := by
  cases parts with
  | nil => exact absurd rfl h
  | cons next parts => rfl

theorem parts_splitOn (mark : Char) (t : Text) : Parts mark t (splitOn mark t) := by
  induction t with
  | nil => exact ⟨splitOn_ne_nil mark [], rfl, by simp [splitOn]⟩
  | cons c t ih =>
      by_cases hc : c = mark
      · have hsplit : splitOn mark (c :: t) = [] :: splitOn mark t := by rw [splitOn, if_pos hc]
        rw [hsplit]
        refine ⟨by simp, ?_, List.forall_mem_cons.mpr ⟨by simp, ih.unmarked⟩⟩
        rw [intercalate_cons mark [] ih.ne_nil, ← ih.joined, hc]
        rfl
      · obtain ⟨part, parts, hparts⟩ := List.exists_cons_of_ne_nil ih.ne_nil
        have hsplit : splitOn mark (c :: t) = (c :: part) :: parts := by
          rw [splitOn, if_neg hc, hparts]
        rw [hparts] at ih
        rw [hsplit]
        obtain ⟨hpart, hrest⟩ := List.forall_mem_cons.mp ih.unmarked
        refine ⟨by simp, ?_, List.forall_mem_cons.mpr ⟨by simp [hpart, Ne.symm hc], hrest⟩⟩
        calc
          c :: t = c :: [mark].intercalate (part :: parts) := congrArg _ ih.joined
          _ = [mark].intercalate ((c :: part) :: parts) := by cases parts <;> rfl

theorem Parts.splitOn_eq {mark : Char} {t : Text} {parts : List Text} (h : Parts mark t parts) :
    splitOn mark t = parts := by
  obtain ⟨hne, rfl, hunmarked⟩ := h
  induction parts with
  | nil => exact absurd rfl hne
  | cons part parts ih =>
      obtain ⟨hpart, hrest⟩ := List.forall_mem_cons.mp hunmarked
      by_cases hparts : parts = []
      · subst hparts
        exact (congrArg _ (by simp)).trans (splitOn_of_not_mem hpart)
      · rw [intercalate_cons mark part hparts, splitOn_append, splitOn_of_not_mem hpart,
          ih hparts hrest]
        rfl

/-- The last mark splits a text in one way. -/
theorem split_last_unique {mark : Char} {a b c d : Text} (hb : mark ∉ b) (hd : mark ∉ d)
    (h : a ++ mark :: b = c ++ mark :: d) : a = c ∧ b = d := by
  rcases List.append_eq_append_iff.mp h with ⟨m, rfl, hm⟩ | ⟨m, rfl, hm⟩
  · cases m with
    | nil => cases hm; exact ⟨(List.append_nil a).symm, rfl⟩
    | cons x m =>
        cases hm
        exact absurd (List.mem_append_right _ (List.mem_cons_self ..)) hb
  · cases m with
    | nil => cases hm; exact ⟨List.append_nil c, rfl⟩
    | cons x m =>
        cases hm
        exact absurd (List.mem_append_right _ (List.mem_cons_self ..)) hd

theorem not_mem_afterLast (mark : Char) (t : Text) : mark ∉ afterLast mark t := by
  intro h
  have hall := List.all_takeWhile (p := fun c => decide (c ≠ mark)) (l := t.reverse)
  rw [List.all_eq_true] at hall
  exact of_decide_eq_true (hall mark (List.mem_reverse.mp h)) rfl

/-- A text has no mark, or its last part follows a mark. -/
theorem afterLast_cases (mark : Char) (t : Text) :
    afterLast mark t = t ∨ ∃ front, t = front ++ mark :: afterLast mark t := by
  have hsplit : t.reverse.takeWhile (· ≠ mark) ++ t.reverse.dropWhile (· ≠ mark) = t.reverse :=
    List.takeWhile_append_dropWhile
  cases hrest : t.reverse.dropWhile (· ≠ mark) with
  | nil =>
      rw [hrest, List.append_nil] at hsplit
      exact .inl (by rw [afterLast, hsplit, List.reverse_reverse])
  | cons c rest =>
      have hc : c = mark := by
        have hhead := List.head?_dropWhile_not (fun c => decide (c ≠ mark)) t.reverse
        rw [hrest] at hhead
        simpa using hhead
      refine .inr ⟨rest.reverse, ?_⟩
      rw [hrest, hc] at hsplit
      have ht := congrArg List.reverse hsplit
      simpa [afterLast] using ht.symm

/-! ## ASCII case -/

theorem toNat_toLower (c : Char) :
    c.toLower.toNat = if 65 ≤ c.toNat ∧ c.toNat ≤ 90 then c.toNat + 32 else c.toNat := by
  have hupper : (c.val ≥ 'A'.val ∧ c.val ≤ 'Z'.val) ↔ (65 ≤ c.toNat ∧ c.toNat ≤ 90) := Iff.rfl
  show (dite _ _ _ : Char).toNat = _
  split
  · next h =>
      have hle : c.val.toNat ≤ 90 := h.2
      have hgap : ('a'.val - 'A'.val).toNat = 32 := by decide
      rw [if_pos (hupper.mp h)]
      show (c.val + ('a'.val - 'A'.val)).toNat = c.val.toNat + 32
      rw [UInt32.toNat_add, hgap]
      omega
  · next h => rw [if_neg fun h' => h (hupper.mpr h')]

/-- Only letters have another lower case. -/
theorem toLower_eq_iff {c d : Char} (hd : d.isAlpha = false) : c.toLower = d ↔ c = d := by
  have hcases : d.isUpper = false ∧ d.isLower = false := Bool.or_eq_false_iff.mp hd
  have hupper : ¬ (65 ≤ d.toNat ∧ d.toNat ≤ 90) := by
    rintro ⟨hge, hle⟩
    have hd' : d.isUpper = true := decide_eq_true ⟨hge, hle⟩
    cases hcases.1.symm.trans hd'
  have hlower : ¬ (97 ≤ d.toNat ∧ d.toNat ≤ 122) := by
    rintro ⟨hge, hle⟩
    have hd' : d.isLower = true := Bool.and_eq_true_iff.mpr ⟨decide_eq_true hge, decide_eq_true hle⟩
    cases hcases.2.symm.trans hd'
  rw [← Char.toNat_inj, ← Char.toNat_inj, toNat_toLower]
  split <;> omega

theorem lower_append (a b : Text) : (a ++ b).lower = a.lower ++ b.lower := List.map_append

theorem mem_lower_iff {t : Text} {d : Char} (hd : d.isAlpha = false) : d ∈ t.lower ↔ d ∈ t := by
  simp only [lower, List.mem_map, toLower_eq_iff hd, exists_eq_right]

theorem Same.left_iff {a b : Text} (h : Same a b) (c : Text) : Same a c ↔ Same b c :=
  ⟨fun hac => h.symm.trans hac, fun hbc => h.trans hbc⟩

theorem Same.isOneOf_eq {a b : Text} (h : Same a b) (words : List Text) :
    a.isOneOf words = b.isOneOf words := by
  have hword : (fun w => decide (Same a w)) = fun w => decide (Same b w) :=
    funext fun w => decide_eq_decide.mpr (h.left_iff w)
  unfold isOneOf
  rw [hword]

/-! ## Numbers -/

theorem isDigit_of_mem_ofNat {n : Nat} {c : Char} (h : c ∈ ofNat n) : c.isDigit = true :=
  Nat.isDigit_of_mem_toDigits (by decide) (by decide) h

theorem ofNat_injective {n m : Nat} (h : ofNat n = ofNat m) : n = m := by
  rw [← Nat.ofDigitChars_ten_toDigits (n := n), ← Nat.ofDigitChars_ten_toDigits (n := m)]
  exact congrArg (Nat.ofDigitChars 10 · 0) h

theorem lower_ofNat (n : Nat) : (ofNat n).lower = ofNat n := by
  refine (List.map_congr_left fun c hc => ?_).trans (List.map_id _)
  obtain ⟨hge, hle⟩ := Bool.and_eq_true_iff.mp (isDigit_of_mem_ofNat hc)
  have hge' : 48 ≤ c.toNat := of_decide_eq_true hge
  have hle' : c.toNat ≤ 57 := of_decide_eq_true hle
  rw [id, ← Char.toNat_inj, toNat_toLower]
  split <;> omega

end Text

end NativeHints
