import Mathlib.Algebra.GroupWithZero.Nat
import Mathlib.Data.List.Nodup
import NativeHints.Proofs.Text
import NativeHints.Edit.Basic

/-!
# What edits do

`Edit.Yields` says what a list of edits in order makes of a text, piece by
piece, without a word about failure.  `Edit.applyAll` sorts the edits and
succeeds exactly when they yield something.

Most edits of this program only insert.  Such edits cannot overlap, so they only
fail on a position that is no boundary of the text.  Deleting what they put in
gives the text back (`Yields.undo`).  And if their positions are distinct they
may be made in two batches, as long as the second one counts the text of the
first (`Yields.batch`).
-/

namespace NativeHints

namespace Edit

/-! ## Sorting -/

theorem insertSorted_perm (e : Edit) (es : List Edit) : (insertSorted e es).Perm (e :: es) := by
  induction es with
  | nil => exact .refl _
  | cons f es ih =>
      rw [insertSorted]
      split
      · exact (ih.cons f).trans (.swap e f es)
      · exact .refl _

theorem sort_perm (es : List Edit) : (sort es).Perm es := by
  induction es with
  | nil => exact .refl _
  | cons e es ih => exact (insertSorted_perm e (sort es)).trans (ih.cons e)

/-- In order of position. -/
abbrev InOrder (es : List Edit) : Prop := es.Pairwise fun e f => e.position ≤ f.position

theorem insertSorted_inOrder (e : Edit) {es : List Edit} (h : InOrder es) :
    InOrder (insertSorted e es) := by
  induction es with
  | nil => exact List.pairwise_singleton _ _
  | cons f es ih =>
      obtain ⟨hf, hes⟩ := List.pairwise_cons.mp h
      rw [insertSorted]
      split
      · next hlt =>
          refine List.pairwise_cons.mpr ⟨fun x hx => ?_, ih hes⟩
          rcases List.mem_cons.mp ((insertSorted_perm e es).mem_iff.mp hx) with rfl | hx
          · exact Nat.le_of_lt hlt
          · exact hf x hx
      · next hle =>
          refine List.pairwise_cons.mpr ⟨fun x hx => ?_, h⟩
          rcases List.mem_cons.mp hx with rfl | hx
          · omega
          · have := hf x hx
            omega

theorem sort_inOrder (es : List Edit) : InOrder (sort es) := by
  induction es with
  | nil => exact .nil
  | cons e es ih => exact insertSorted_inOrder e ih

/-- At strictly increasing positions. -/
abbrev Increasing (es : List Edit) : Prop := es.Pairwise fun e f => e.position < f.position

theorem Increasing.nodup {es : List Edit} (h : Increasing es) : (es.map position).Nodup :=
  List.pairwise_map.mpr (h.imp Nat.ne_of_lt)

theorem sort_increasing {es : List Edit} (hdistinct : (es.map position).Nodup) :
    Increasing (sort es) := by
  have hdistinct' : ((sort es).map position).Nodup :=
    ((sort_perm es).map position).nodup_iff.mpr hdistinct
  have hne : (sort es).Pairwise fun e f => e.position ≠ f.position :=
    List.pairwise_map.mp hdistinct'
  exact ((sort_inOrder es).and hne).imp fun h => Nat.lt_of_le_of_ne h.1 h.2

/-- Edits at distinct positions can only be put in order in one way. -/
theorem sort_eq_of_increasing {es fs : List Edit} (h : fs.Perm es) (hinc : Increasing fs) :
    sort es = fs := by
  refine ((sort_perm es).trans h.symm).eq_of_pairwise ?_ (sort_inOrder es) (hinc.imp Nat.le_of_lt)
  intro e f he hf hle hge
  have he' : e ∈ fs := ((sort_perm es).trans h.symm).mem_iff.mp he
  exact List.inj_on_of_nodup_map hinc.nodup he' hf (Nat.le_antisymm hle hge)

/-! ## Ends -/

theorem computedStop_le (e : Edit) : e.computedStop ≤ e.stop := Nat.mod_le _ _

theorem length_deleteRange {start stop : Nat} (h : start ≤ stop) :
    (deleteRange start stop).length = stop - start :=
  if_pos h

theorem length_deleteRange_pos {start stop : Nat} (h : start < stop) :
    0 < (deleteRange start stop).length := by
  rw [length_deleteRange (Nat.le_of_lt h)]
  exact Nat.sub_pos_of_lt h

theorem stop_deleteRange {start stop : Nat} (h : start ≤ stop) :
    (deleteRange start stop).stop = stop := by
  rw [Edit.stop, length_deleteRange h]
  exact Nat.add_sub_cancel' h

theorem deleteRange_add (start n : Nat) : deleteRange start (start + n) = delete start n := by
  rw [deleteRange, if_pos (Nat.le_add_right start n), Nat.add_sub_cancel_left]

/-! ## The result of edits -/

/-- What edits in order make of a text whose first byte has the given position.  In front
of each edit a piece of the text is kept, and what the edit removes gives way to
what it adds. -/
inductive Yields : Nat → Text → List Edit → Text → Prop where
  /-- No edit is left. -/
  | done (cursor : Nat) (t : Text) : Yields cursor t [] t
  /-- One edit and those behind it. -/
  | edit {cursor : Nat} {t out : Text} {es : List Edit} (kept removed added : Text) :
      Yields (cursor + kept.size + removed.size) t es out →
      Yields cursor (kept ++ (removed ++ t))
        (⟨cursor + kept.size, removed.size, added⟩ :: es) (kept ++ (added ++ out))

theorem Yields.applyFrom {cursor : Nat} {t out : Text} {es : List Edit}
    (h : Yields cursor t es out) (last : Nat) :
    applyFrom (cursor + t.size) last cursor t es = .ok out := by
  induction h generalizing last with
  | done cursor t => rfl
  | @edit cursor t out es kept removed added h ih =>
      have htake : takeApart ⟨cursor + kept.size, removed.size, added⟩ cursor
          (kept ++ (removed ++ t)) = .ok (kept, t) := by
        simp only [takeApart, Nat.add_sub_cancel_left, Text.cut?_append]
      have hsize : cursor + (kept ++ (removed ++ t)).size =
          cursor + kept.size + removed.size + t.size := by
        simp only [Text.size_append]
        omega
      have hstart : ¬ cursor + kept.size < cursor := by omega
      have hstop : ¬ cursor + kept.size + removed.size + t.size <
          computedStop ⟨cursor + kept.size, removed.size, added⟩ := by
        have hle := computedStop_le ⟨cursor + kept.size, removed.size, added⟩
        simp only [Edit.stop] at hle
        omega
      simp only [Edit.applyFrom, Edit.stop, htake, hsize, if_neg hstart, if_neg hstop, ih]

/-- An edit takes a text apart into a kept piece, a removed one and the rest. -/
theorem takeApart_eq_ok {e : Edit} {cursor : Nat} {t piece rest : Text}
    (h : e.takeApart cursor t = .ok (piece, rest)) :
    ∃ removed, t = piece ++ (removed ++ rest) ∧ piece.size = e.position - cursor ∧
      removed.size = e.length := by
  unfold takeApart at h
  split at h
  · cases h
  · next first later hfirst =>
      split at h
      · cases h
      · next removed behind hremoved =>
          cases h
          obtain ⟨rfl, hsize⟩ := Text.cut?_eq_some_iff.mp hfirst
          obtain ⟨rfl, hlength⟩ := Text.cut?_eq_some_iff.mp hremoved
          exact ⟨removed, rfl, hsize, hlength⟩

theorem yields_of_applyFrom {total last cursor : Nat} {t out : Text} {es : List Edit}
    (h : applyFrom total last cursor t es = .ok out) : Yields cursor t es out := by
  induction es generalizing last cursor t out with
  | nil => cases h; exact .done cursor t
  | cons e es ih =>
      rw [Edit.applyFrom] at h
      split at h
      · cases h
      · next hstart =>
          split at h
          · cases h
          · split at h
            · cases h
            · next piece rest htake =>
                split at h
                · cases h
                · next done hdone =>
                    cases h
                    obtain ⟨position, length, added⟩ := e
                    obtain ⟨removed, rfl, hpiece, rfl⟩ := takeApart_eq_ok htake
                    obtain rfl : position = cursor + piece.size := by
                      simp only at hpiece hstart
                      omega
                    exact .edit piece removed added (ih hdone)

/-- Applying edits succeeds with what they yield. -/
theorem applyAll_eq_ok_iff {source out : Text} {es : List Edit} :
    applyAll source es = .ok out ↔ Yields 0 source (sort es) out := by
  constructor
  · exact yields_of_applyFrom
  · intro h
    have := h.applyFrom 0
    rwa [Nat.zero_add] at this

/-- A text in front of all edits is kept. -/
theorem Yields.prepend {cursor : Nat} {t out : Text} {es : List Edit} (x : Text)
    (h : Yields (cursor + x.size) t es out) : Yields cursor (x ++ t) es (x ++ out) := by
  cases h with
  | done => exact .done cursor _
  | @edit _ t out es kept removed added h =>
      have hcursor : cursor + x.size + kept.size = cursor + (x ++ kept).size := by
        rw [Text.size_append, Nat.add_assoc]
      rw [hcursor] at h ⊢
      simpa only [List.append_assoc] using Yields.edit (x ++ kept) removed added h

theorem Yields.le_position {cursor : Nat} {t out : Text} {es : List Edit}
    (h : Yields cursor t es out) : ∀ e ∈ es, cursor ≤ e.position := by
  induction h with
  | done => simp
  | @edit cursor t out es kept removed added _ ih =>
      refine List.forall_mem_cons.mpr ⟨Nat.le_add_right _ _, fun e he => ?_⟩
      have hlater := ih e he
      omega

theorem Yields.inOrder {cursor : Nat} {t out : Text} {es : List Edit}
    (h : Yields cursor t es out) : InOrder es := by
  induction h with
  | done => exact .nil
  | @edit cursor t out es kept removed added hlater ih =>
      refine List.pairwise_cons.mpr ⟨fun e he => ?_, ih⟩
      exact Nat.le_trans (Nat.le_add_right _ _) (hlater.le_position e he)

/-! ## Edits in a row -/

/-- Edits in a row, each around a piece of the text, yield something. -/
theorem exists_yields {cursor : Nat} {t : Text} {es : List Edit}
    (hrow : es.Pairwise fun e f => e.stop ≤ f.position)
    (hcut : ∀ e ∈ es, ∃ a m b, t = a ++ (m ++ b) ∧ cursor + a.size = e.position ∧
      m.size = e.length) :
    ∃ out, Yields cursor t es out := by
  induction es generalizing cursor t with
  | nil => exact ⟨t, .done cursor t⟩
  | cons e es ih =>
      obtain ⟨hfront, hrest⟩ := List.pairwise_cons.mp hrow
      obtain ⟨position, length, added⟩ := e
      obtain ⟨kept, removed, t, rfl, rfl, rfl⟩ := hcut _ List.mem_cons_self
      have hcut' : ∀ f ∈ es, ∃ a m b, t = a ++ (m ++ b) ∧
          cursor + kept.size + removed.size + a.size = f.position ∧ m.size = f.length := by
        intro f hf
        obtain ⟨a, m, b, hsplit, hposition, hlength⟩ := hcut f (List.mem_cons_of_mem _ hf)
        have hle : cursor + kept.size + removed.size ≤ f.position := hfront f hf
        -- What stands in front of the later edit begins with what this one has passed.
        obtain ⟨a', rfl, rfl⟩ := Text.append_eq_append_of_size_le (a := kept ++ removed) (b := t)
          (by simpa using hsplit) (by simp only [Text.size_append]; omega)
        refine ⟨a', m, b, rfl, ?_, hlength⟩
        simp only [Text.size_append] at hposition
        omega
      obtain ⟨out, hout⟩ := ih hrest hcut'
      exact ⟨kept ++ (added ++ out), .edit kept removed added hout⟩

theorem exists_piece {source : Text} {e : Edit} (hstart : source.isBoundary e.position = true)
    (hstop : source.isBoundary e.stop = true) :
    ∃ a m b, source = a ++ (m ++ b) ∧ 0 + a.size = e.position ∧ m.size = e.length := by
  obtain ⟨a, x, hsource, hposition⟩ := Text.isBoundary_iff.mp hstart
  obtain ⟨c, b, hsource', hsize⟩ := Text.isBoundary_iff.mp hstop
  simp only [stop] at hsize
  obtain ⟨m, rfl, rfl⟩ := Text.append_eq_append_of_size_le (hsource.symm.trans hsource') (by omega)
  refine ⟨a, m, b, hsource, by omega, ?_⟩
  simp only [Text.size_append] at hsize
  omega

/-- Edits that stand in a row once they are in order can be made. -/
theorem exists_applyAll_of_row {source : Text} {es : List Edit}
    (hrow : (sort es).Pairwise fun e f => e.stop ≤ f.position)
    (hcut : ∀ e ∈ es, source.isBoundary e.position = true ∧ source.isBoundary e.stop = true) :
    ∃ out, applyAll source es = .ok out := by
  obtain ⟨out, hout⟩ := exists_yields hrow fun e he => by
    obtain ⟨hstart, hstop⟩ := hcut e ((sort_perm es).mem_iff.mp he)
    exact exists_piece hstart hstop
  exact ⟨out, applyAll_eq_ok_iff.mpr hout⟩

/-! ## Edits that only insert -/

/-- None of the edits removes anything. -/
abbrev OnlyInserts (es : List Edit) : Prop := ∀ e ∈ es, e.length = 0

/-- Insertions in order do not overlap. -/
theorem applyFrom_ne_overlap {total last cursor : Nat} {t : Text} {es : List Edit}
    (hins : OnlyInserts es) (hordered : InOrder es) (hcursor : ∀ e ∈ es, cursor ≤ e.position)
    (first second : Nat) : applyFrom total last cursor t es ≠ .error (.overlap first second) := by
  induction es generalizing last cursor t with
  | nil => intro h; cases h
  | cons e es ih =>
      obtain ⟨hfront, hrest⟩ := List.pairwise_cons.mp hordered
      have hstop : e.stop = e.position := by
        rw [Edit.stop, hins e (List.mem_cons_self ..), Nat.add_zero]
      have hstart : ¬ e.position < cursor := Nat.not_lt.mpr (hcursor e (List.mem_cons_self ..))
      intro h
      rw [Edit.applyFrom, if_neg hstart] at h
      split at h
      · cases h
      · split at h
        · next problem htake =>
            unfold takeApart at htake
            split at htake
            · cases htake; cases h
            · split at htake
              · cases htake; cases h
              · cases htake
        · split at h
          · next problem hproblem =>
              cases h
              rw [hstop] at hproblem
              exact ih (fun f hf => hins f (List.mem_cons_of_mem _ hf)) hrest hfront hproblem
          · cases h

/-- Insertions at boundaries of a text can be made. -/
theorem exists_applyAll {source : Text} {es : List Edit} (hins : OnlyInserts es)
    (hcut : ∀ e ∈ es, source.isBoundary e.position = true) :
    ∃ out, applyAll source es = .ok out := by
  have hstop : ∀ e ∈ es, e.stop = e.position := by
    intro e he
    rw [stop, hins e he, Nat.add_zero]
  refine exists_applyAll_of_row ?_ fun e he => ⟨hcut e he, by rw [hstop e he]; exact hcut e he⟩
  refine (sort_inOrder es).imp_of_mem fun he _ hle => ?_
  rw [hstop _ ((sort_perm es).mem_iff.mp he)]
  exact hle

/-! ## Undoing insertions, and making them in two batches -/

/-- The size of the text that edits put in front of a position. -/
def sizeBefore (es : List Edit) (position : Nat) : Nat :=
  ((es.filter fun e => e.position < position).map fun e => e.text.size).sum

theorem sizeBefore_perm {es fs : List Edit} (h : es.Perm fs) (position : Nat) :
    sizeBefore es position = sizeBefore fs position :=
  ((h.filter _).map _).sum_nat

theorem sizeBefore_eq_zero {es : List Edit} {position : Nat}
    (h : ∀ e ∈ es, position ≤ e.position) : sizeBefore es position = 0 := by
  have hnone : es.filter (fun e => e.position < position) = [] := by
    rw [List.filter_eq_nil_iff]
    intro e he
    simpa using h e he
  rw [sizeBefore, hnone]
  rfl

theorem sizeBefore_cons_of_lt {e : Edit} {es : List Edit} {position : Nat}
    (h : e.position < position) :
    sizeBefore (e :: es) position = e.text.size + sizeBefore es position := by
  simp [sizeBefore, h]

theorem sizeBefore_cons_of_le {e : Edit} {es : List Edit} {position : Nat}
    (h : position ≤ e.position) : sizeBefore (e :: es) position = sizeBefore es position := by
  simp [sizeBefore, Nat.not_lt.mpr h]

theorem sizeBefore_succ {es : List Edit} {position : Nat}
    (h : ∀ e ∈ es, e.position ≠ position) :
    sizeBefore es (position + 1) = sizeBefore es position := by
  rw [sizeBefore, sizeBefore]
  congr 2
  refine List.filter_congr fun e he => decide_eq_decide.mpr ?_
  have hne := h e he
  omega

theorem sizeBefore_mono (es : List Edit) {p q : Nat} (h : p ≤ q) :
    sizeBefore es p ≤ sizeBefore es q := by
  induction es with
  | nil => exact Nat.le_refl _
  | cons e es ih =>
      by_cases hp : e.position < p
      · rw [sizeBefore_cons_of_lt hp, sizeBefore_cons_of_lt (Nat.lt_of_lt_of_le hp h)]
        exact Nat.add_le_add_left ih _
      · rw [sizeBefore_cons_of_le (Nat.not_lt.mp hp)]
        by_cases hq : e.position < q
        · rw [sizeBefore_cons_of_lt hq]
          exact Nat.le_trans ih (Nat.le_add_left _ _)
        · rw [sizeBefore_cons_of_le (Nat.not_lt.mp hq)]
          exact ih

/-- The deletion of what an insertion put in, when all the others have been made and
other text of the given size stands in front. -/
def undo (es : List Edit) (offset : Nat) (e : Edit) : Edit :=
  delete (e.position + (offset + sizeBefore es e.position)) e.text.size

theorem undo_perm {es fs : List Edit} (h : es.Perm fs) (offset : Nat) :
    undo es offset = undo fs offset := by
  funext e
  rw [undo, undo, sizeBefore_perm h]

/-- Deletions keep the order of what they undo. -/
theorem Increasing.map_undo {es : List Edit} (h : Increasing es) (all : List Edit)
    (offset : Nat) : Increasing (es.map (undo all offset)) := by
  refine List.pairwise_map.mpr (h.imp ?_)
  intro e f hlt
  have hle := sizeBefore_mono all (Nat.le_of_lt hlt)
  simp only [undo, delete]
  omega

theorem Yields.undo {cursor : Nat} {t out : Text} {es : List Edit} (h : Yields cursor t es out)
    (hins : OnlyInserts es) (hinc : Increasing es) (offset : Nat) :
    Yields (cursor + offset) out (es.map (Edit.undo es offset)) t := by
  induction h generalizing offset with
  | done cursor t => exact .done _ t
  | @edit cursor t out es kept removed added h ih =>
      obtain ⟨hfront, hrest⟩ := List.pairwise_cons.mp hinc
      obtain rfl : removed = [] := Text.eq_nil_of_size_eq_zero (hins _ (List.mem_cons_self ..))
      have hhead : Edit.undo (⟨cursor + kept.size, Text.size [], added⟩ :: es) offset
            ⟨cursor + kept.size, Text.size [], added⟩ =
          ⟨cursor + offset + kept.size, added.size, []⟩ := by
        have hzero : sizeBefore es (cursor + kept.size) = 0 :=
          sizeBefore_eq_zero fun f hf => Nat.le_of_lt (hfront f hf)
        simp only [Edit.undo, delete, sizeBefore_cons_of_le (Nat.le_refl _), hzero, Edit.mk.injEq,
          and_true]
        omega
      have htail : es.map (Edit.undo (⟨cursor + kept.size, Text.size [], added⟩ :: es) offset) =
          es.map (Edit.undo es (offset + added.size)) := by
        refine List.map_congr_left fun f hf => ?_
        have hlt := hfront f hf
        simp only [Edit.undo, sizeBefore_cons_of_lt hlt, Nat.add_assoc]
      have ih := ih (fun f hf => hins f (List.mem_cons_of_mem _ hf)) hrest (offset + added.size)
      rw [List.map_cons, hhead, htail]
      refine Yields.edit kept added [] ?_
      have hcursor : cursor + kept.size + Text.size [] + (offset + added.size) =
          cursor + offset + kept.size + added.size := by
        simp only [Text.size_nil]
        omega
      rwa [hcursor] at ih

/-- An insertion that counts the text of others, with other text of the given size in
front. -/
def after (es : List Edit) (offset : Nat) (e : Edit) : Edit :=
  ⟨e.position + (offset + sizeBefore es e.position), e.length, e.text⟩

/-- Insertions at increasing positions may be made in two batches. -/
theorem Yields.batch {cursor : Nat} {t out : Text} {es : List Edit} (h : Yields cursor t es out)
    (hins : OnlyInserts es) (hinc : Increasing es) (p : Edit → Bool) :
    ∃ mid, Yields cursor t (es.filter p) mid ∧ ∀ offset,
      Yields (cursor + offset) mid
        ((es.filter fun e => !p e).map (after (es.filter p) offset)) out := by
  induction h with
  | done cursor t => exact ⟨t, .done cursor t, fun offset => .done _ t⟩
  | @edit cursor t out es kept removed added h ih =>
      obtain ⟨hfront, hrest⟩ := List.pairwise_cons.mp hinc
      obtain rfl : removed = [] := Text.eq_nil_of_size_eq_zero (hins _ (List.mem_cons_self ..))
      obtain ⟨mid, hfirst, hsecond⟩ := ih (fun f hf => hins f (List.mem_cons_of_mem _ hf)) hrest
      cases hp : p ⟨cursor + kept.size, Text.size [], added⟩ with
      | true =>
          -- the first batch makes the edit, and to the second it is text like any other
          simp only [List.filter_cons, hp, Bool.not_true, Bool.false_eq_true, if_true, if_false]
          refine ⟨kept ++ (added ++ mid), .edit kept [] added hfirst, fun offset => ?_⟩
          have hlist : (es.filter fun e => !p e).map
                (after (⟨cursor + kept.size, Text.size [], added⟩ :: es.filter p) offset) =
              (es.filter fun e => !p e).map (after (es.filter p) (offset + added.size)) := by
            refine List.map_congr_left fun f hf => ?_
            have hlt := hfront f (List.mem_filter.mp hf).1
            simp only [after, sizeBefore_cons_of_lt hlt, Nat.add_assoc]
          have hcursor : cursor + kept.size + Text.size [] + (offset + added.size) =
              cursor + offset + (kept ++ added).size := by
            simp only [Text.size_nil, Text.size_append]
            omega
          have hbehind := hsecond (offset + added.size)
          rw [hcursor, ← hlist] at hbehind
          simpa only [List.append_assoc] using hbehind.prepend (kept ++ added)
      | false =>
          -- the second batch makes it, behind nothing of the first
          simp only [List.filter_cons, hp, Bool.not_false, Bool.false_eq_true, if_true, if_false,
            List.map_cons]
          refine ⟨kept ++ mid, hfirst.prepend kept, fun offset => ?_⟩
          have hzero : sizeBefore (es.filter p) (cursor + kept.size) = 0 :=
            sizeBefore_eq_zero fun f hf => Nat.le_of_lt (hfront f (List.mem_filter.mp hf).1)
          have hhead : after (es.filter p) offset ⟨cursor + kept.size, Text.size [], added⟩ =
              ⟨cursor + offset + kept.size, Text.size [], added⟩ := by
            simp only [after, hzero, Edit.mk.injEq, and_true]
            omega
          rw [hhead]
          refine Yields.edit kept [] added ?_
          have hbehind := hsecond offset
          have hcursor : cursor + kept.size + Text.size [] + offset =
              cursor + offset + kept.size + Text.size [] := by omega
          rwa [hcursor] at hbehind

theorem after_perm {es fs : List Edit} (h : es.Perm fs) (offset : Nat) :
    after es offset = after fs offset := by
  funext e
  rw [after, after, sizeBefore_perm h]

theorem Increasing.map_after {es : List Edit} (h : Increasing es) (first : List Edit)
    (offset : Nat) : Increasing (es.map (after first offset)) := by
  refine List.pairwise_map.mpr (h.imp ?_)
  intro e f hlt
  have hle := sizeBefore_mono first (Nat.le_of_lt hlt)
  simp only [after]
  omega

/-- Insertions at distinct positions may be made in two batches. -/
theorem applyAll_after {source mid out : Text} {es : List Edit} (hins : OnlyInserts es)
    (hdistinct : (es.map position).Nodup) (p : Edit → Bool)
    (hmid : applyAll source (es.filter p) = .ok mid) (hout : applyAll source es = .ok out) :
    applyAll mid ((es.filter fun e => !p e).map (after (es.filter p) 0)) = .ok out := by
  have hperm := sort_perm es
  have hinc := sort_increasing hdistinct
  have hins' : OnlyInserts (sort es) := fun e he => hins e (hperm.mem_iff.mp he)
  obtain ⟨mid', hfirst, hsecond⟩ :=
    (applyAll_eq_ok_iff.mp hout).batch hins' hinc p
  have hsort : sort (es.filter p) = (sort es).filter p :=
    sort_eq_of_increasing (hperm.filter p) (hinc.filter p)
  have hsort' : sort ((es.filter fun e => !p e).map (after (es.filter p) 0)) =
      ((sort es).filter fun e => !p e).map (after ((sort es).filter p) 0) := by
    rw [after_perm (hperm.filter p)]
    exact sort_eq_of_increasing ((hperm.filter _).map _) (Increasing.map_after (hinc.filter _) _ 0)
  obtain rfl : mid = mid' := by
    rw [← hsort] at hfirst
    rw [applyAll_eq_ok_iff.mpr hfirst] at hmid
    cases hmid
    rfl
  refine applyAll_eq_ok_iff.mpr ?_
  rw [hsort']
  exact hsecond 0

end Edit

end NativeHints
