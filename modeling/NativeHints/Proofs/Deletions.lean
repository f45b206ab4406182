import NativeHints.Proofs.Removals

/-!
# Deleting ranges

`Text.outside` is what is left of a text when ranges are taken out of it: the
characters that begin in none of them.  It says nothing about order, and nothing
about edits.  Deletions of ranges that are apart and cut no character can be made, in
whatever order they are given, and this is what they leave (`applyAll_deletions`).

A position behind a deletion moves by what is deleted in front of it.  In this sense
positions move with the text (`size_outside`).
-/

namespace NativeHints

/-! ## Ranges -/

namespace Span

/-- The position lies in the range. -/
def Covers (s : Span) (position : Nat) : Prop := s.start ≤ position ∧ position < s.stop

instance (s : Span) (position : Nat) : Decidable (s.Covers position) :=
  inferInstanceAs (Decidable (_ ∧ _))

/-- One of the ranges ends before the other begins. -/
def Apart (s t : Span) : Prop := s.stop ≤ t.start ∨ t.stop ≤ s.start

instance (s t : Span) : Decidable (s.Apart t) := inferInstanceAs (Decidable (_ ∨ _))

/-- The edit that deletes the range. -/
def deletion (s : Span) : Edit := .deleteRange s.start s.stop

theorem stop_deletion {s : Span} (h : s.start < s.stop) : s.deletion.stop = s.stop :=
  Edit.stop_deleteRange (Nat.le_of_lt h)

theorem length_deletion_pos {s : Span} (h : s.start < s.stop) : 0 < s.deletion.length :=
  Edit.length_deleteRange_pos h

/-- The number of bytes that lie in ranges and in front of a position. -/
def bytesBefore (ss : List Span) (position : Nat) : Nat :=
  (ss.map fun s => min s.stop position - s.start).sum

/-- Where a position moves when ranges are deleted. -/
def moved (ss : List Span) (position : Nat) : Nat := position - bytesBefore ss position

/-- Passing a character counts it if it lies in a range.  No range begins or ends inside of
it. -/
theorem bytesBefore_add {ss : List Span} (hapart : ss.Pairwise Apart) {position size : Nat}
    (hcut : ∀ s ∈ ss, (position < s.start → position + size ≤ s.start) ∧
      (position < s.stop → position + size ≤ s.stop)) :
    bytesBefore ss (position + size) =
      bytesBefore ss position + if ∃ s ∈ ss, s.Covers position then size else 0 := by
  induction ss with
  | nil => simp [bytesBefore]
  | cons s ss ih =>
      obtain ⟨hfront, hrest⟩ := List.pairwise_cons.mp hapart
      obtain ⟨⟨hstart, hstop⟩, hlater⟩ := List.forall_mem_cons.mp hcut
      have hcount := ih hrest hlater
      simp only [bytesBefore, List.map_cons, List.sum_cons] at hcount ⊢
      by_cases hcovers : s.Covers position
      · -- Then it lies in no other range.
        have hother : ¬ ∃ t ∈ ss, t.Covers position := by
          rintro ⟨t, ht, hcovers'⟩
          have hapart' := hfront t ht
          simp only [Covers, Apart] at hcovers hcovers' hapart'
          omega
        rw [if_neg hother] at hcount
        rw [if_pos ⟨s, List.mem_cons_self, hcovers⟩]
        simp only [Covers] at hcovers
        omega
      · have hiff : (∃ t ∈ s :: ss, t.Covers position) ↔ ∃ t ∈ ss, t.Covers position := by
          simp [hcovers]
        simp only [hiff]
        simp only [Covers] at hcovers
        omega

end Span

/-! ## What is left of a text -/

namespace Text

/-- What ranges leave of a text whose first byte has the given position. -/
def outside (ss : List Span) (position : Nat) : Text → Text
  | [] => []
  | c :: t =>
      if ∃ s ∈ ss, s.Covers position then outside ss (position + c.utf8Size) t
      else c :: outside ss (position + c.utf8Size) t

variable {ss : List Span} {position : Nat}

theorem outside_append (a b : Text) :
    outside ss position (a ++ b) =
      outside ss position a ++ outside ss (position + a.size) b := by
  induction a generalizing position with
  | nil => rfl
  | cons c a ih =>
      rw [List.cons_append, outside, outside, ih, size_cons, Nat.add_assoc]
      split <;> rfl

/-- A text that no range meets is left as it is. -/
theorem outside_eq_self {t : Text}
    (h : ∀ s ∈ ss, s.stop ≤ position ∨ position + t.size ≤ s.start) :
    outside ss position t = t := by
  induction t generalizing position with
  | nil => rfl
  | cons c t ih =>
      have hpos := c.utf8Size_pos
      have hnone : ¬ ∃ s ∈ ss, s.Covers position := by
        rintro ⟨s, hs, hstart, hstop⟩
        have hmeets := h s hs
        simp only [size_cons] at hmeets
        omega
      rw [outside, if_neg hnone, ih]
      intro s hs
      have hmeets := h s hs
      simp only [size_cons] at hmeets
      omega

/-- Nothing is left of a text inside a range. -/
theorem outside_eq_nil {t : Text} {s : Span} (hs : s ∈ ss) (hstart : s.start ≤ position)
    (hstop : position + t.size ≤ s.stop) : outside ss position t = [] := by
  induction t generalizing position with
  | nil => rfl
  | cons c t ih =>
      have hpos := c.utf8Size_pos
      rw [size_cons] at hstop
      rw [outside, if_pos ⟨s, hs, hstart, by omega⟩]
      exact ih (by omega) (by omega)

/-- A boundary behind the beginning of a character is behind all of it. -/
theorem le_of_isBoundary {a t : Text} {c : Char} {p : Nat}
    (h : isBoundary (a ++ c :: t) p = true) (hlt : a.size < p) : a.size + c.utf8Size ≤ p := by
  obtain ⟨x, y, hsplit, rfl⟩ := isBoundary_iff.mp h
  obtain ⟨m, rfl, hm⟩ := append_eq_append_of_size_le hsplit (Nat.le_of_lt hlt)
  cases m with
  | nil => simp at hlt
  | cons d m =>
      obtain ⟨rfl, -⟩ := List.cons.inj hm
      simp only [size_append, size_cons]
      omega

section Size

variable {source : Text} (hapart : ss.Pairwise Span.Apart)
  (hcut : ∀ s ∈ ss, source.isBoundary s.start = true ∧ source.isBoundary s.stop = true)

include hapart hcut

theorem size_outside_add {a t b : Text} (hsource : source = a ++ (t ++ b)) :
    size (outside ss a.size t) + Span.bytesBefore ss (a.size + t.size) =
      Span.bytesBefore ss a.size + t.size := by
  induction t generalizing a with
  | nil => simp [outside]
  | cons c t ih =>
      have hinside : source = a ++ c :: (t ++ b) := hsource
      have hchar : ∀ s ∈ ss, (a.size < s.start → a.size + c.utf8Size ≤ s.start) ∧
          (a.size < s.stop → a.size + c.utf8Size ≤ s.stop) := by
        intro s hs
        obtain ⟨hstart, hstop⟩ := hcut s hs
        rw [hinside] at hstart hstop
        exact ⟨le_of_isBoundary hstart, le_of_isBoundary hstop⟩
      have hstep := Span.bytesBefore_add hapart hchar
      have hlater := ih (a := a ++ [c]) (by simp [hsource])
      simp only [size_append, size_cons, size_nil, Nat.add_zero] at hlater
      rw [outside, size_cons, ← Nat.add_assoc a.size]
      by_cases hcovers : ∃ s ∈ ss, s.Covers a.size
      · rw [if_pos hcovers] at hstep ⊢
        omega
      · rw [if_neg hcovers] at hstep ⊢
        rw [size_cons]
        omega

/-- Positions move with the text. -/
theorem size_outside {a b : Text} (hsource : source = a ++ b) :
    size (outside ss 0 a) = Span.moved ss a.size := by
  have hsize := size_outside_add hapart hcut (a := []) hsource
  have hzero : Span.bytesBefore ss 0 = 0 := by simp [Span.bytesBefore]
  rw [size_nil, Nat.zero_add, hzero, Nat.zero_add] at hsize
  exact Nat.eq_sub_of_add_eq hsize

end Size

end Text

/-! ## Deletions -/

namespace Edit

/-- The range that an edit replaces. -/
def span (e : Edit) : Span := ⟨e.position, e.stop⟩

theorem span_deletion {s : Span} (h : s.start < s.stop) : s.deletion.span = s := by
  rw [span, Span.stop_deletion h]
  rfl

/-- Edits that add nothing leave what lies outside of their ranges.  Of the ranges behind the
cursor each is that of an edit. -/
theorem Yields.eq_outside {cursor : Nat} {t out : Text} {es : List Edit}
    (h : Yields cursor t es out) {ss : List Span} (htext : ∀ e ∈ es, e.text = [])
    (hspans : ∀ e ∈ es, e.span ∈ ss)
    (hedits : ∀ s ∈ ss, s.stop ≤ cursor ∨ ∃ e ∈ es, e.span = s) :
    out = Text.outside ss cursor t := by
  induction h with
  | done cursor t =>
      refine (Text.outside_eq_self fun s hs => .inl ?_).symm
      rcases hedits s hs with hle | ⟨e, he, -⟩
      · exact hle
      · cases he
  | @edit cursor t out es kept removed added hlater ih =>
      obtain ⟨rfl, htext'⟩ := List.forall_mem_cons.mp htext
      obtain ⟨hspan, hspans'⟩ := List.forall_mem_cons.mp hspans
      have hkept : Text.outside ss cursor kept = kept := by
        refine Text.outside_eq_self fun s hs => ?_
        rcases hedits s hs with hle | ⟨e, he, rfl⟩
        · exact .inl hle
        · rcases List.mem_cons.mp he with rfl | he
          · exact .inr (Nat.le_refl _)
          · have hposition := hlater.le_position e he
            exact .inr (Nat.le_trans (Nat.le_add_right _ _) hposition)
      have hremoved : Text.outside ss (cursor + kept.size) removed = [] :=
        Text.outside_eq_nil hspan (Nat.le_refl _) (Nat.le_refl _)
      have hrest : out = Text.outside ss (cursor + kept.size + removed.size) t := by
        refine ih htext' hspans' fun s hs => ?_
        rcases hedits s hs with hle | ⟨e, he, rfl⟩
        · exact .inl (by omega)
        · rcases List.mem_cons.mp he with rfl | he
          · exact .inl (Nat.le_refl _)
          · exact .inr ⟨e, he, rfl⟩
      rw [Text.outside_append, Text.outside_append, hkept, hremoved, ← hrest]

/-- Deleting ranges that are not empty, apart, and cut no character. -/
theorem applyAll_deletions {source : Text} {ss : List Span} (hpos : ∀ s ∈ ss, s.start < s.stop)
    (hapart : ss.Pairwise Span.Apart)
    (hcut : ∀ s ∈ ss, source.isBoundary s.start = true ∧ source.isBoundary s.stop = true) :
    applyAll source (ss.map Span.deletion) = .ok (source.outside ss 0) := by
  have hstop : ∀ s ∈ ss, s.deletion.stop = s.stop := fun s hs => Span.stop_deletion (hpos s hs)
  have hsome : ∃ out, applyAll source (ss.map Span.deletion) = .ok out := by
    refine exists_applyAll_of_apart ?_ (List.pairwise_map.mpr ?_) ?_
    · exact List.forall_mem_map.mpr fun s hs => Span.length_deletion_pos (hpos s hs)
    · refine hapart.imp_of_mem fun hs ht h => ?_
      rw [Apart, hstop _ hs, hstop _ ht]
      exact h
    · refine List.forall_mem_map.mpr fun s hs => ?_
      rw [hstop s hs]
      exact hcut s hs
  obtain ⟨out, hout⟩ := hsome
  have hmem : ∀ e, e ∈ sort (ss.map Span.deletion) ↔ ∃ s ∈ ss, s.deletion = e := fun e =>
    (sort_perm _).mem_iff.trans List.mem_map
  have heq : out = source.outside ss 0 := by
    refine (applyAll_eq_ok_iff.mp hout).eq_outside ?_ ?_ ?_
    · intro e he
      obtain ⟨s, -, rfl⟩ := (hmem e).mp he
      rfl
    · intro e he
      obtain ⟨s, hs, rfl⟩ := (hmem e).mp he
      rwa [span_deletion (hpos s hs)]
    · intro s hs
      exact .inr ⟨s.deletion, (hmem _).mpr ⟨s, hs, rfl⟩, span_deletion (hpos s hs)⟩
  rw [hout, heq]

end Edit

end NativeHints
