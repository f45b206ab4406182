import NativeHints.Proofs.Edits

/-!
# The order of edits

Edits are put in order of position, and edits at one position, the *ties*, stay in the
order in which they were given.  These two things leave only one list
(`Arranges.unique`), whatever the way in which it is found.

So the order in which edits are given has no meaning beyond the ties.  Two lists with the same
ties have the same outcome, be it a text or an error (`applyAll_reordered`).
-/

namespace NativeHints

namespace Edit

/-! ## Ties -/

/-- The edits at a position, in the given order. -/
def ties (es : List Edit) (position : Nat) : List Edit := es.filter fun e => e.position = position

theorem mem_ties {es : List Edit} {position : Nat} {e : Edit} :
    e ∈ ties es position ↔ e ∈ es ∧ e.position = position := by
  simp only [ties, List.mem_filter, decide_eq_true_eq]

theorem ties_cons_self (e : Edit) (es : List Edit) :
    ties (e :: es) e.position = e :: ties es e.position :=
  List.filter_cons_of_pos (decide_eq_true rfl)

theorem ties_cons_of_ne {e : Edit} {position : Nat} (h : e.position ≠ position) (es : List Edit) :
    ties (e :: es) position = ties es position :=
  List.filter_cons_of_neg (by simpa using h)

theorem mem_iff_of_ties {es fs : List Edit}
    (h : ∀ position, ties es position = ties fs position) (e : Edit) : e ∈ es ↔ e ∈ fs := by
  have htie : e ∈ ties es e.position ↔ e ∈ ties fs e.position := by rw [h]
  simpa only [mem_ties, and_true] using htie

/-- Behind one and the same edit the ties are the same as well. -/
theorem ties_tail {e : Edit} {es fs : List Edit}
    (h : ∀ position, ties (e :: es) position = ties (e :: fs) position) (position : Nat) :
    ties es position = ties fs position := by
  have hall := h position
  by_cases heq : e.position = position
  · subst heq
    rw [ties_cons_self, ties_cons_self] at hall
    exact (List.cons.inj hall).2
  · rwa [ties_cons_of_ne heq, ties_cons_of_ne heq] at hall

/-- Edits at distinct positions have no ties to keep. -/
theorem ties_of_nodup {es fs : List Edit} (hperm : es.Perm fs) (hdistinct : (es.map position).Nodup)
    (position : Nat) : ties es position = ties fs position := by
  have hties : (ties es position).Perm (ties fs position) := hperm.filter _
  have hall : ∀ l : List Edit, l.Pairwise fun _ _ => True := fun _ =>
    List.pairwise_of_forall fun _ _ => trivial
  refine hties.eq_of_pairwise ?_ (hall _) (hall _)
  intro e f he hf _ _
  obtain ⟨he, hposition⟩ := mem_ties.mp he
  obtain ⟨hf, hposition'⟩ := mem_ties.mp hf
  exact List.inj_on_of_nodup_map hdistinct he (hperm.mem_iff.mpr hf)
    (hposition.trans hposition'.symm)

/-! ## Arrangements -/

/-- A list of edits in order of position, those at one position in the order in which another
list has them. -/
structure Arranges (sorted es : List Edit) : Prop where
  inOrder : InOrder sorted
  ties_eq : ∀ position, ties sorted position = ties es position

/-- Edits in order with the same ties are the same list. -/
theorem eq_of_ties {es fs : List Edit} (hes : InOrder es) (hfs : InOrder fs)
    (h : ∀ position, ties es position = ties fs position) : es = fs := by
  induction es generalizing fs with
  | nil =>
      cases fs with
      | nil => rfl
      | cons f fs => cases (mem_iff_of_ties h f).mpr List.mem_cons_self
  | cons e es ih =>
      cases fs with
      | nil => cases (mem_iff_of_ties h e).mp List.mem_cons_self
      | cons f fs =>
          obtain ⟨hfront, hrest⟩ := List.pairwise_cons.mp hes
          obtain ⟨hfront', hrest'⟩ := List.pairwise_cons.mp hfs
          -- Each head stands in the other list, so neither begins before the other.
          have hle : e.position ≤ f.position := by
            rcases List.mem_cons.mp ((mem_iff_of_ties h f).mpr List.mem_cons_self) with rfl | hf
            · exact Nat.le_refl _
            · exact hfront f hf
          have hge : f.position ≤ e.position := by
            rcases List.mem_cons.mp ((mem_iff_of_ties h e).mp List.mem_cons_self) with rfl | he
            · exact Nat.le_refl _
            · exact hfront' e he
          obtain rfl : e = f := by
            have hties := h e.position
            rw [ties_cons_self, Nat.le_antisymm hle hge, ties_cons_self] at hties
            exact (List.cons.inj hties).1
          rw [ih hrest hrest' (ties_tail h)]

theorem Arranges.unique {sorted sorted' es : List Edit} (h : Arranges sorted es)
    (h' : Arranges sorted' es) : sorted = sorted' :=
  eq_of_ties h.inOrder h'.inOrder fun position =>
    (h.ties_eq position).trans (h'.ties_eq position).symm

theorem ties_insertSorted (e : Edit) (es : List Edit) (position : Nat) :
    ties (insertSorted e es) position = ties (e :: es) position := by
  induction es with
  | nil => rfl
  | cons f es ih =>
      rw [insertSorted]
      split
      · next hlt =>
          by_cases hf : f.position = position
          · subst hf
            have he : e.position ≠ f.position := Nat.ne_of_gt hlt
            rw [ties_cons_self, ih, ties_cons_of_ne he, ties_cons_of_ne he, ties_cons_self]
          · rw [ties_cons_of_ne hf, ih]
            by_cases he : e.position = position
            · subst he
              rw [ties_cons_self, ties_cons_self, ties_cons_of_ne hf]
            · rw [ties_cons_of_ne he, ties_cons_of_ne he, ties_cons_of_ne hf]
      · rfl

theorem arranges_sort (es : List Edit) : Arranges (sort es) es := by
  refine ⟨sort_inOrder es, fun position => ?_⟩
  induction es with
  | nil => rfl
  | cons e es ih =>
      rw [sort, ties_insertSorted]
      by_cases he : e.position = position
      · subst he
        rw [ties_cons_self, ties_cons_self, ih]
      · rw [ties_cons_of_ne he, ties_cons_of_ne he, ih]

/-- The one list that arranges edits is that in which they are made. -/
theorem Arranges.sort_eq {sorted es : List Edit} (h : Arranges sorted es) : sort es = sorted :=
  (arranges_sort es).unique h

theorem sort_of_inOrder {es : List Edit} (h : InOrder es) : sort es = es :=
  Arranges.sort_eq ⟨h, fun _ => rfl⟩

/-! ## The order in which edits are given -/

theorem sort_eq_of_ties {es fs : List Edit}
    (h : ∀ position, ties es position = ties fs position) : sort es = sort fs := by
  have hfs := arranges_sort fs
  refine Arranges.sort_eq ⟨hfs.inOrder, fun position => ?_⟩
  rw [hfs.ties_eq, h]

/-- The order in which edits are given does not matter as long as edits at one position keep
theirs.  In particular it does not matter at all if there are no such edits. -/
theorem applyAll_reordered (source : Text) {es fs : List Edit} (hperm : es.Perm fs) :
    ((∀ position, ties es position = ties fs position) →
      applyAll source es = applyAll source fs) ∧
    ((es.map position).Nodup → applyAll source es = applyAll source fs) := by
  have hties : (∀ position, ties es position = ties fs position) →
      applyAll source es = applyAll source fs := by
    intro h
    rw [applyAll, applyAll, sort_eq_of_ties h]
  exact ⟨hties, fun hdistinct => hties (ties_of_nodup hperm hdistinct)⟩

/-- Two digits are put at one position.  Where the deletion stands among them does not matter, but
their own order does. -/
theorem applyAll_reordered_digits :
    let one := insert 1 "1".toList
    let two := insert 1 "2".toList
    let first := delete 0 1
    [one, first, two].Perm [first, one, two] ∧
      (∀ position, ties [one, first, two] position = ties [first, one, two] position) ∧
      applyAll "ab".toList [one, first, two] = applyAll "ab".toList [first, one, two] ∧
      applyAll "ab".toList [one, first, two] = .ok "12b".toList ∧
      applyAll "ab".toList [two, first, one] = .ok "21b".toList := by
  intro one two first
  have hperm : [one, first, two].Perm [first, one, two] := .swap first one [two]
  have hties : ∀ position, ties [one, first, two] position = ties [first, one, two] position := by
    intro position
    exact ((arranges_sort [one, first, two]).ties_eq position).symm.trans
      ((arranges_sort [first, one, two]).ties_eq position)
  exact ⟨hperm, hties, (applyAll_reordered _ hperm).1 hties, rfl, rfl⟩

end Edit

end NativeHints
