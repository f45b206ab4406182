import NativeHints.Proofs.Override

/-!
# What merging settles

Subtyping is a preorder with the missing hint on top.  It is no partial order, since the
case of names does not matter, and neither does the word that a type is written with.  Two
hints may stand for each other exactly if they are *interchangeable*.

Merging takes each type from one of two signatures.  It is the overriding method's own type
wherever overriding admits that, and the inherited one everywhere else.  So there is
nothing left to do for a second merge: a place where the inherited type was
taken has both sides equal, and a place with an own type keeps it for the same reason as
before.
-/

namespace NativeHints

namespace HintType

/-- Two types that mean the same name and admit `null` alike. -/
def Interchangeable (a b : HintType) : Prop := a.nullable = b.nullable ∧ a.resolved.Same b.resolved

/-- No two names lie below each other that differ in more than case. -/
theorem same_of_isSubtype_both {a b : HintType} (hab : isSubtype (some a) (some b) = true)
    (hba : isSubtype (some b) (some a) = true) : a.resolved.Same b.resolved := by
  rcases (isSubtype_some_iff.mp hab).2 with hsame | ⟨-, ha⟩ | ⟨-, ha⟩
  · exact hsame
  · exact (same_of_isSubtype hba (.inl ha)).symm
  · exact (same_of_isSubtype hba (.inr ha)).symm

/-- Two hints may stand for each other exactly if both are missing or they are
interchangeable. -/
theorem isSubtype_both_iff {a b : Option HintType} :
    isSubtype a b = true ∧ isSubtype b a = true ↔ Option.Rel Interchangeable a b := by
  constructor
  · rintro ⟨hab, hba⟩
    cases a with
    | none =>
        rw [eq_none_of_isSubtype_none hab]
        exact .none
    | some a =>
        cases b with
        | none => cases eq_none_of_isSubtype_none hba
        | some b =>
            have hnull : a.nullable = b.nullable :=
              Bool.eq_iff_iff.mpr
                ⟨(isSubtype_some_iff.mp hab).1, (isSubtype_some_iff.mp hba).1⟩
            exact .some ⟨hnull, same_of_isSubtype_both hab hba⟩
  · intro h
    cases h with
    | none => exact ⟨rfl, rfl⟩
    | some h =>
        obtain ⟨hnull, hsame⟩ := h
        simp [isSubtype_some_iff, hnull, hsame, hsame.symm]

end HintType

namespace Signature

open HintType

/-! ## Merging one place -/

theorem mergeParam_of_isSubtype {t : HintType} {inherited : Option HintType}
    (h : isSubtype inherited (some t) = true) : mergeParam (some t) inherited = some t := by
  simp [mergeParam, h]

theorem mergeResult_of_isSubtype {own inherited : Option HintType}
    (h : isSubtype own inherited = true) : mergeResult own inherited = own := by
  simp [mergeResult, h]

@[simp] theorem mergeParam_self (own : Option HintType) : mergeParam own own = own := by
  rcases mergeParam_eq own own with h | h <;> exact h

@[simp] theorem mergeResult_self (own : Option HintType) : mergeResult own own = own := by
  rcases mergeResult_eq own own with h | h <;> exact h

@[simp] theorem mergeParam_again (own inherited : Option HintType) :
    mergeParam (mergeParam own inherited) inherited = mergeParam own inherited := by
  rcases mergeParam_eq own inherited with h | h
  · rw [h, h]
  · rw [h, mergeParam_self]

@[simp] theorem mergeResult_again (own inherited : Option HintType) :
    mergeResult (mergeResult own inherited) inherited = mergeResult own inherited := by
  rcases mergeResult_eq own inherited with h | h
  · rw [h, h]
  · rw [h, mergeResult_self]

/-! ## Merging signatures -/

theorem mergeParams_self (owns : List (Option HintType)) : mergeParams owns owns = owns := by
  induction owns with
  | nil => rfl
  | cons own owns ih => simp [mergeParams, ih]

theorem mergeParams_again (owns inherited : List (Option HintType)) :
    mergeParams (mergeParams owns inherited) inherited = mergeParams owns inherited := by
  induction owns, inherited using mergeParams.induct with
  | case1 inherited => rfl
  | case2 owns _ => cases owns <;> rfl
  | case3 own owns inherited rest ih => simp [mergeParams, ih]

theorem merge_self (s : Signature) : s.merge s = s := by
  simp [merge, mergeParams_self]

theorem merge_again (own inherited : Signature) :
    (own.merge inherited).merge inherited = own.merge inherited := by
  simp [merge, mergeParams_again]

/-- A signature for an overriding method, with the types that overriding asks for. -/
structure Settles (merged own inherited : Signature) : Prop where
  /-- It has the parameters of the method. -/
  arity : merged.params.length = own.params.length
  /-- It may override the inherited signature. -/
  overrides : merged.Overrides inherited
  /-- It has no types but those of the two. -/
  chosen : ∀ i, merged.slot i = own.slot i ∨ merged.slot i = inherited.slot i
  /-- Own parameter types are kept where they are wide enough. -/
  wide : ∀ i t, i < inherited.params.length → own.param i = some t →
    isSubtype (inherited.param i) (some t) = true → merged.param i = some t
  /-- Nothing constrains further parameters. -/
  further : ∀ i, inherited.params.length ≤ i → merged.params[i]? = own.params[i]?
  /-- The own result type is kept if it is narrow enough. -/
  narrow : isSubtype own.result inherited.result = true → merged.result = own.result

theorem settles_merge (own inherited : Signature) :
    (own.merge inherited).Settles own inherited where
  arity := by simp [merge]
  overrides := merge_overrides own inherited
  chosen := slot_merge own inherited
  wide := by
    intro i t hi hown hwide
    have howns : own.params[i]? = some (some t) := Option.join_eq_some_iff.mp hown
    rw [param_of_lt hi] at hwide
    simp [param, merge, getElem?_mergeParams, howns, List.getElem?_eq_getElem hi,
      mergeParam_of_isSubtype hwide]
  further := by
    intro i hi
    simp [merge, getElem?_mergeParams, List.getElem?_eq_none hi]
  narrow := mergeResult_of_isSubtype

/-- Subtyping is a preorder with the missing hint on top, and hints below each other are
interchangeable.  Merging gives the signature that overriding asks for.  A signature merged with
itself stays as it is, and so does a merged one with what it was merged with. -/
theorem merge_respects_subtyping :
    ((∀ a, isSubtype a a = true) ∧
      (∀ a b c, isSubtype a b = true → isSubtype b c = true → isSubtype a c = true) ∧
      (∀ a, isSubtype a none = true) ∧
      ∀ a b, (isSubtype a b = true ∧ isSubtype b a = true) ↔ Option.Rel Interchangeable a b) ∧
    ∀ own inherited : Signature,
      (own.merge inherited).Settles own inherited ∧
      own.merge own = own ∧
      (own.merge inherited).merge inherited = own.merge inherited := by
  refine ⟨⟨isSubtype_refl, ?_, isSubtype_none, ?_⟩, ?_⟩
  · intro a b c hab hbc
    exact isSubtype_trans hab hbc
  · intro a b
    exact isSubtype_both_iff
  · intro own inherited
    exact ⟨settles_merge own inherited, merge_self own, merge_again own inherited⟩

/-- The types of a method with four parameters. -/
def wideSignature : Signature :=
  ⟨[some (.named "Iterable".toList true), some (.named "App\\User".toList false), none,
    some (.named "int".toList false)], some (.named "Array".toList false)⟩

/-- The types of the method that it overrides. -/
def narrowSignature : Signature :=
  ⟨[some (.named "array".toList false), some (.named "object".toList false),
    some (.named "float".toList false)], some (.named "iterable".toList true)⟩

/-- The method widens an array and narrows the result.  It may not narrow an `object`, gives no
type to its third parameter and is free in the last. -/
theorem merge_respects_subtyping_wide :
    isSubtype (wideSignature.merge narrowSignature).result narrowSignature.result = true ∧
      isSubtype (some (.named "ARRAY".toList false)) narrowSignature.result = true ∧
      (wideSignature.merge narrowSignature).param 0 = some (.named "Iterable".toList true) ∧
      (wideSignature.merge narrowSignature).params =
        [some (.named "Iterable".toList true), some (.named "object".toList false),
          some (.named "float".toList false), some (.named "int".toList false)] ∧
      (wideSignature.merge narrowSignature).result = some (.named "Array".toList false) := by
  obtain ⟨⟨-, htrans, -, -⟩, hmerge⟩ := merge_respects_subtyping
  have hsettles := (hmerge wideSignature narrowSignature).1
  refine ⟨hsettles.overrides.result, ?_, ?_, by decide, ?_⟩
  · exact htrans _ (some (.named "array".toList false)) _ (by decide) (by decide)
  · exact hsettles.wide 0 _ (by decide) rfl (by decide)
  · exact hsettles.narrow (by decide)

end Signature

end NativeHints
