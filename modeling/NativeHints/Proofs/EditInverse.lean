import Mathlib.Algebra.Order.Ring.Int
import NativeHints.Proofs.EditFaults

/-!
# Taking edits back

What edits have made of a text, other edits make into the text again.  For each edit
there is one that gives back what it has removed for what it has put in.  It does so at
another position, since the edits in front have made the text longer or shorter.

Several of these edits may begin at one position, when what was removed stood side by
side.  They are made in the order in which they are given, and this is the order of
the text.
-/

namespace NativeHints

namespace Edit

/-- How many bytes edits add to a text.  The number is negative if they make it shorter. -/
def growth (es : List Edit) : Int := (es.map fun e => (e.text.size : Int) - e.length).sum

/-- The edit that gives back what an edit has removed for what it has put in, if the text has
grown by the given number in front of it. -/
def back (source : Text) (grown : Int) (e : Edit) : Edit :=
  ⟨(e.position + grown).toNat, e.text.size, source.slice e.position e.stop⟩

/-- The edits that take back edits in order, one for each. -/
def inverse (source : Text) (es : List Edit) : List Edit :=
  es.mapIdx fun i e => e.back source (growth (es.take i))

theorem growth_cons (e : Edit) (es : List Edit) :
    growth (e :: es) = (e.text.size - e.length) + growth es := by
  rw [growth, List.map_cons, List.sum_cons]
  rfl

/-- To the edits behind it, an edit is growth in front. -/
theorem mapIdx_back_cons (source : Text) (grown : Int) (e : Edit) (es : List Edit) :
    ((e :: es).mapIdx fun i f => f.back source (grown + growth ((e :: es).take i))) =
      e.back source grown :: es.mapIdx fun i f =>
        f.back source (grown + (e.text.size - e.length) + growth (es.take i)) := by
  rw [List.mapIdx_cons]
  simp only [List.take_zero, List.take_succ_cons, growth_cons, Int.add_assoc]
  rw [growth, List.map_nil, List.sum_nil, Int.add_zero]

/-- Edits are taken back in a text that has grown in front of them. -/
theorem Yields.inverse {source t out : Text} {es : List Edit} (passed : Text)
    (h : Yields passed.size t es out) (hsource : source = passed ++ t) {cursor : Nat} {grown : Int}
    (hcursor : (cursor : Int) = passed.size + grown) :
    Yields cursor out (es.mapIdx fun i e => e.back source (grown + growth (es.take i))) t := by
  generalize hpassed : passed.size = start at h
  induction h generalizing passed cursor grown with
  | done start t => exact .done cursor t
  | @edit start t out es kept removed added _ ih =>
      have hslice :
          source.slice (start + kept.size) (start + kept.size + removed.size) = removed := by
        have hsplit : source = (passed ++ kept) ++ (removed ++ t) := by simp [hsource]
        rw [hsplit, ← hpassed, ← Text.size_append, Text.slice_append]
      have hhead : back source grown ⟨start + kept.size, removed.size, added⟩ =
          ⟨cursor + kept.size, added.size, removed⟩ := by
        simp only [back, stop, hslice, mk.injEq, and_true]
        omega
      have hcursor' : ((cursor + kept.size + added.size : Nat) : Int) =
          (passed ++ (kept ++ removed)).size + (grown + (added.size - removed.size)) := by
        simp only [Text.size_append]
        omega
      have hlater := ih (passed ++ (kept ++ removed)) (by simp [hsource]) hcursor'
        (by simp only [Text.size_append]; omega)
      rw [mapIdx_back_cons, hhead]
      exact .edit kept added removed hlater

/-- No edit is taken back in front of the place from which on they were made. -/
theorem Yields.le_grown {start : Nat} {t out : Text} {es : List Edit} (h : Yields start t es out)
    {cursor : Nat} {grown : Int} (hcursor : (cursor : Int) = start + grown) {i : Nat} {e : Edit}
    (he : es[i]? = some e) : (cursor : Int) ≤ e.position + (grown + growth (es.take i)) := by
  induction h generalizing cursor grown i with
  | done start t => cases he
  | @edit start t out es kept removed added _ ih =>
      cases i with
      | zero =>
          cases he
          simp only [List.take_zero, growth, List.map_nil, List.sum_nil]
          omega
      | succ i =>
          have hcursor' : ((cursor + kept.size + added.size : Nat) : Int) =
              (start + kept.size + removed.size : Nat) + (grown + (added.size - removed.size)) := by
            omega
          have hlater := ih hcursor' he
          rw [List.take_succ_cons, growth_cons]
          dsimp only
          omega

/-- Whatever edits make of a text can be taken back.  The edits that do this begin at positions
that are no negative numbers, and they make the text as it was. -/
theorem applyAll_inverse {source out : Text} {es sorted : List Edit}
    (hsorted : Arranges sorted es) (h : applyAll source es = .ok out) :
    (∀ i e, sorted[i]? = some e → 0 ≤ (e.position : Int) + growth (sorted.take i)) ∧
    applyAll out (inverse source sorted) = .ok source := by
  have hyields : Yields 0 source sorted out := by
    rw [← hsorted.sort_eq]
    exact applyAll_eq_ok_iff.mp h
  have hnone : ((0 : Nat) : Int) = (Text.size [] : Nat) + 0 := rfl
  have hback : Yields 0 out (inverse source sorted) source := by
    have hback := hyields.inverse [] (List.nil_append source).symm hnone
    simp only [Int.zero_add] at hback
    exact hback
  refine ⟨fun i e he => ?_, applyAll_eq_ok_iff.mpr ?_⟩
  · have hle := hyields.le_grown hnone he
    rwa [Int.zero_add] at hle
  · rw [sort_of_inOrder hback.inOrder]
    exact hback

/-- Two pieces that stood side by side are given back at one position, and a third one for what was
put in behind them. -/
theorem applyAll_inverse_side_by_side :
    let es := [⟨5, 1, "!".toList⟩, delete 3 2, delete 1 2]
    let sorted := [delete 1 2, delete 3 2, ⟨5, 1, "!".toList⟩]
    let taken := [insert 1 "é".toList, insert 1 "bc".toList, ⟨1, 1, "d".toList⟩]
    Arranges sorted es ∧ applyAll "aébcd".toList es = .ok "a!".toList ∧
      inverse "aébcd".toList sorted = taken ∧
      applyAll "a!".toList taken = .ok "aébcd".toList := by
  intro es sorted taken
  have hsorted : Arranges sorted es := arranges_sort es
  have hmade : applyAll "aébcd".toList es = .ok "a!".toList := rfl
  have hinverse : inverse "aébcd".toList sorted = taken := by decide
  exact ⟨hsorted, hmade, hinverse, hinverse ▸ (applyAll_inverse hsorted hmade).2⟩

end Edit

end NativeHints
