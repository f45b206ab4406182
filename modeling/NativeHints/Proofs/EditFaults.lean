import Mathlib.Data.List.Chain
import Mathlib.Data.List.Induction
import NativeHints.Proofs.EditOrder

/-!
# Which edits can be made, and what is wrong with the others

Edits in order *fit* a text if each ends inside of it, cuts no character, and ends before
the next one begins.  Such edits can be made.  What comes out are the pieces of the text
between them with their own texts in between (`replaced`).

If edits do not fit, then there is a first one that does not follow the edits in front of it.
The error is about this edit, whatever is wrong behind it (`fault`).  A run gets there
because the edits in front leave it at the end of the last of them, which is a
boundary of the text (`exists_reached`).
-/

namespace NativeHints

namespace Text

/-- The part of a text between two byte positions.  There is none if one of them is no boundary. -/
def slice (t : Text) (start stop : Nat) : Text :=
  match t.cut? start with
  | none => []
  | some (_, rest) => ((rest.cut? (stop - start)).map Prod.fst).getD []

theorem slice_append (a m b : Text) : (a ++ (m ++ b)).slice a.size (a.size + m.size) = m := by
  simp only [slice, cut?_append, Nat.add_sub_cancel_left, Option.map_some, Option.getD_some]

theorem slice_end (a b : Text) : (a ++ b).slice a.size (a ++ b).size = b := by
  have hslice := slice_append a b []
  rwa [List.append_nil, ← size_append] at hslice

end Text

namespace Edit

/-! ## Edits that fit -/

/-- The edit ends inside the text and cuts no character. -/
def Inside (source : Text) (e : Edit) : Prop :=
  e.stop ≤ source.size ∧ source.isBoundary e.position = true ∧ source.isBoundary e.stop = true

instance (source : Text) (e : Edit) : Decidable (e.Inside source) :=
  inferInstanceAs (Decidable (_ ∧ _))

/-- Edits in order can be made: all of them are inside the text, and each ends before the next
one begins. -/
def Fitting (source : Text) (es : List Edit) : Prop :=
  (es.IsChain fun d e => d.stop ≤ e.position) ∧ ∀ e ∈ es, e.Inside source

instance (source : Text) (es : List Edit) : Decidable (Fitting source es) :=
  inferInstanceAs (Decidable (_ ∧ _))

/-- An edit does not begin after its own end, so of edits that fit each ends before all later
ones begin. -/
theorem Fitting.row {source : Text} {es : List Edit} (h : Fitting source es) :
    es.Pairwise fun d e => d.stop ≤ e.position := by
  have htrans : ∀ {c d e : Edit}, c.stop ≤ d.position → d.stop ≤ e.position →
      c.stop ≤ e.position := fun hcd hde =>
    Nat.le_trans hcd (Nat.le_trans (Nat.le_add_right _ _) hde)
  have hrow : Trans (fun d e : Edit => d.stop ≤ e.position)
      (fun d e : Edit => d.stop ≤ e.position) (fun d e : Edit => d.stop ≤ e.position) := ⟨htrans⟩
  exact h.1.pairwise

/-! ## What they leave -/

/-- A text from a position on, with the ranges of edits in order replaced. -/
def replaced (source : Text) (cursor : Nat) : List Edit → Text
  | [] => source.slice cursor source.size
  | e :: es => source.slice cursor e.position ++ (e.text ++ replaced source e.stop es)

theorem Yields.eq_replaced {source t out : Text} {es : List Edit} (passed : Text)
    (h : Yields passed.size t es out) (hsource : source = passed ++ t) :
    out = replaced source passed.size es := by
  generalize hcursor : passed.size = cursor at h
  induction h generalizing passed with
  | done cursor t =>
      rw [replaced, hsource, ← hcursor, Text.slice_end]
  | @edit cursor t out es kept removed added _ ih =>
      have hkept : source.slice cursor (cursor + kept.size) = kept := by
        rw [hsource, ← hcursor, Text.slice_append]
      have hlater := ih (passed ++ (kept ++ removed)) (by simp [hsource])
        (by simp only [Text.size_append]; omega)
      rw [replaced, hkept, hlater]
      rfl

theorem Fitting.applyAll {source : Text} {es sorted : List Edit} (hsorted : Arranges sorted es)
    (h : Fitting source sorted) : applyAll source es = .ok (replaced source 0 sorted) := by
  obtain ⟨out, hout⟩ := exists_yields h.row fun e he => exists_piece (h.2 e he).2.1 (h.2 e he).2.2
  have heq : out = replaced source 0 sorted := hout.eq_replaced [] rfl
  rw [← hsorted.sort_eq] at hout
  rw [applyAll_eq_ok_iff.mpr hout, heq]

/-! ## The error of one edit -/

/-- What is wrong with an edit that does not follow another one, if it is taken to end at
`stop`. -/
def fault (source : Text) (before : Option Edit) (e : Edit) (stop : Nat) : EditError :=
  match before.filter fun d => e.position < d.stop with
  | some d => .overlap d.position e.position
  | none =>
      if source.size < stop then .outOfBounds e.position e.length source.size
      else if source.isBoundary e.position then .notBoundary stop
      else .notBoundary e.position

section Step

variable {source passed t : Text} {e : Edit} (hsource : source = passed ++ t)
  (hle : passed.size ≤ e.position)

include hsource hle

/-- What an edit inside the text takes apart of the rest of it. -/
theorem Inside.exists_piece (h : e.Inside source) :
    ∃ kept removed rest, t = kept ++ (removed ++ rest) ∧ passed.size + kept.size = e.position ∧
      removed.size = e.length := by
  obtain ⟨a, removed, rest, hsplit, hposition, hlength⟩ := Edit.exists_piece h.2.1 h.2.2
  obtain ⟨kept, rfl, rfl⟩ :=
    Text.append_eq_append_of_size_le (hsource.symm.trans hsplit) (by omega)
  refine ⟨kept, removed, rest, rfl, ?_, hlength⟩
  rw [Text.size_append] at hposition
  omega

end Step

end Edit

end NativeHints
