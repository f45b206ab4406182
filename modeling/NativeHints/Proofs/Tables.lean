import NativeHints.Hierarchy.Table

/-!
# Tables in order

The keys of a table increase, and putting in a value keeps it so (`sorted_put`).
Hence a table grows only by keys that it did not have (`length_put`), and it is
determined by what is found under each key (`Sorted.ext`).  Of several values put in
under one key the last is found (`find?_putAll`).
-/

namespace NativeHints

namespace Table

variable {α : Type}

/-- The keys of the table increase. -/
def Sorted (t : Table α) : Prop := t.Pairwise fun a b => a.1 < b.1

theorem eq_or_mem_of_mem_put {key : Text} {value : α} {t : Table α} {entry : Text × α}
    (h : entry ∈ put key value t) : entry = (key, value) ∨ entry ∈ t := by
  induction t with
  | nil => exact .inl (List.mem_singleton.mp h)
  | cons first t ih =>
      obtain ⟨k, v⟩ := first
      rw [put] at h
      split at h
      · rcases List.mem_cons.mp h with h | h
        · exact .inl h
        · exact .inr (List.mem_cons_of_mem _ h)
      · split at h
        · rcases List.mem_cons.mp h with h | h
          · exact .inl h
          · exact .inr h
        · rcases List.mem_cons.mp h with h | h
          · exact .inr (h ▸ List.mem_cons_self ..)
          · rcases ih h with h | h
            · exact .inl h
            · exact .inr (List.mem_cons_of_mem _ h)

theorem sorted_put {t : Table α} (h : t.Sorted) (key : Text) (value : α) :
    (put key value t).Sorted := by
  induction t with
  | nil => exact List.pairwise_singleton _ _
  | cons first t ih =>
      obtain ⟨k, v⟩ := first
      obtain ⟨hk, ht⟩ := List.pairwise_cons.mp h
      rw [put]
      split
      · next heq =>
          subst heq
          exact List.pairwise_cons.mpr ⟨hk, ht⟩
      · next hne =>
          split
          · next hlt =>
              refine List.pairwise_cons.mpr ⟨fun entry hentry => ?_, h⟩
              rcases List.mem_cons.mp hentry with rfl | hentry
              · exact hlt
              · exact List.lt_trans hlt (hk entry hentry)
          · next hge =>
              refine List.pairwise_cons.mpr ⟨fun entry hentry => ?_, ih ht⟩
              rcases eq_or_mem_of_mem_put hentry with rfl | hentry
              · exact (List.le_iff_lt_or_eq.mp (List.not_lt.mp hge)).resolve_right (Ne.symm hne)
              · exact hk entry hentry

theorem find?_of_lt {t : Table α} {key : Text} (h : ∀ entry ∈ t, key < entry.1) :
    t.find? key = none := by
  induction t with
  | nil => rfl
  | cons first t ih =>
      obtain ⟨k, v⟩ := first
      have hne : key ≠ k := by
        rintro rfl
        exact List.lt_irrefl _ (h _ (List.mem_cons_self ..))
      rw [find?, if_neg hne]
      exact ih fun entry hentry => h entry (List.mem_cons_of_mem _ hentry)

/-- A table grows by a key that it did not have. -/
theorem length_put {t : Table α} (h : t.Sorted) (key : Text) (value : α) :
    (put key value t).length =
      if (t.find? key).isSome then t.length else t.length + 1 := by
  induction t with
  | nil => rfl
  | cons first t ih =>
      obtain ⟨k, v⟩ := first
      obtain ⟨hk, ht⟩ := List.pairwise_cons.mp h
      rw [put, find?]
      split
      · rfl
      · split
        · next hlt =>
            rw [find?_of_lt fun entry hentry => List.lt_trans hlt (hk entry hentry)]
            rfl
        · rw [List.length_cons, ih ht, List.length_cons]
          split <;> rfl

theorem find?_cons_self (first : Text × α) (t : Table α) :
    find? first.1 (first :: t) = some first.2 := if_pos rfl

/-- Only the keys from the first one on can be found. -/
theorem Sorted.not_lt_of_find? {first : Text × α} {t : Table α} (h : Sorted (first :: t))
    {key : Text} {value : α} (hfound : find? key (first :: t) = some value) : ¬ key < first.1 := by
  intro hlt
  obtain ⟨hfirst, -⟩ := List.pairwise_cons.mp h
  have hnone : find? key (first :: t) = none := by
    apply find?_of_lt
    intro entry hentry
    rcases List.mem_cons.mp hentry with rfl | hentry
    · exact hlt
    · exact List.lt_trans hlt (hfirst entry hentry)
  rw [hnone] at hfound
  cases hfound

/-- Two tables in order that hold the same under every key are the same. -/
theorem Sorted.ext {t t' : Table α} (ht : t.Sorted) (ht' : t'.Sorted)
    (h : ∀ key, t.find? key = t'.find? key) : t = t' := by
  induction t generalizing t' with
  | nil =>
      cases t' with
      | nil => rfl
      | cons first' t' => cases (h first'.1).trans (find?_cons_self first' t')
  | cons first t ih =>
      cases t' with
      | nil => cases (h first.1).symm.trans (find?_cons_self first t)
      | cons first' t' =>
          have hle : ¬ first.1 < first'.1 :=
            ht'.not_lt_of_find? ((h first.1).symm.trans (find?_cons_self first t))
          have hge : ¬ first'.1 < first.1 :=
            ht.not_lt_of_find? ((h first'.1).trans (find?_cons_self first' t'))
          have hkey : first.1 = first'.1 :=
            (List.le_iff_lt_or_eq.mp (List.not_lt.mp hge)).resolve_left hle
          obtain ⟨k, v⟩ := first
          obtain ⟨k', v'⟩ := first'
          obtain rfl : k = k' := hkey
          have hvalue := h k
          rw [find?, find?, if_pos rfl, if_pos rfl] at hvalue
          obtain rfl : v = v' := Option.some.inj hvalue
          obtain ⟨hfirst, ht⟩ := List.pairwise_cons.mp ht
          obtain ⟨hfirst', ht'⟩ := List.pairwise_cons.mp ht'
          -- Under the first key nothing more is found, and under any other the first is skipped.
          have hrest : t = t' := by
            refine ih ht ht' fun key => ?_
            by_cases heq : key = k
            · rw [heq, find?_of_lt hfirst, find?_of_lt hfirst']
            · have hkey := h key
              rwa [find?, find?, if_neg heq, if_neg heq] at hkey
          rw [hrest]

/-- A table after several values have been put in holds the last one under each key. -/
theorem find?_putAll (key : Text) (l : List (Text × α)) (t : Table α) :
    (l.foldl (fun t entry => t.put entry.1 entry.2) t).find? key =
      ((l.filter fun entry => entry.1 = key).getLast?.map Prod.snd).or (t.find? key) := by
  induction l generalizing t with
  | nil => rfl
  | cons entry l ih =>
      rw [List.foldl_cons, ih, find?_put, List.filter_cons]
      by_cases h : entry.1 = key
      · rw [if_pos h.symm, if_pos (decide_eq_true h), List.getLast?_cons]
        cases (l.filter fun entry => entry.1 = key).getLast? <;> rfl
      · rw [if_neg (Ne.symm h), if_neg (by simpa using h)]

end Table

end NativeHints
