import NativeHints.Proofs.Text
import NativeHints.Hint.Subtype

/-!
# Subtyping is a preorder, and merging respects it

`HintType.isSubtype` compares names up to ASCII case, with two exceptions: an
array is an `iterable`, and every class is an `object`.  It is a preorder all
the same.  A name that admits an exception on one side never does so on the
other, since `array` is no class and nothing lies strictly below it.

`Signature.merge` keeps the two directions of overriding.  Each of its
parameters lies above the inherited one, and its result lies below it.
Subtyping only looks at what a type means, so handing a signature to another
class (`Signature.asResolved`) changes neither.

A merged signature is made of the types of the two: at each *slot*, be it a
parameter or the result, it has what one of them has there
(`Signature.slot_merge`).
-/

namespace NativeHints

namespace HintType

/-! ## Names up to case -/

theorem is_of_same {a b : HintType} (h : a.resolved.Same b.resolved) (word : Text) :
    a.is word = b.is word := by
  unfold HintType.is
  exact decide_eq_decide.mpr (h.left_iff word)

theorem isClass_of_same {a b : HintType} (h : a.resolved.Same b.resolved) :
    a.isClass = b.isClass := by
  unfold isClass
  rw [h.isOneOf_eq]

/-- A type that means one of the fixed words is no class. -/
theorem isClass_of_is {a : HintType} {word : Text} (hw : word ∈ builtinKinds)
    (h : a.is word = true) : a.isClass = false := by
  simp only [isClass, Text.isOneOf, Bool.not_eq_false', List.any_eq_true]
  exact ⟨word, hw, h⟩

/-- A type means at most one word. -/
theorem is_unique {a : HintType} {word other : Text} (h : a.is word = true)
    (hne : ¬ word.Same other) : a.is other = false := by
  simp only [HintType.is, decide_eq_true_eq, decide_eq_false_iff_not] at h ⊢
  exact fun hother => hne (h.symm.trans hother)

/-! ## The preorder -/

/-- The three ways in which one hint may stand for another. -/
theorem isSubtype_some_iff {a b : HintType} :
    isSubtype (some a) (some b) = true ↔
      (a.nullable = true → b.nullable = true) ∧
        (a.resolved.Same b.resolved ∨
          (b.is "iterable".toList = true ∧ a.is "array".toList = true) ∨
          (b.is "object".toList = true ∧ a.isClass = true)) := by
  have hwords : ¬ Text.Same "iterable".toList "object".toList := by decide
  have hnull : (!a.nullable || b.nullable) = true ↔ (a.nullable = true → b.nullable = true) := by
    cases a.nullable <;> simp
  rw [isSubtype, Bool.and_eq_true, hnull, Bool.or_eq_true, decide_eq_true_eq]
  cases hi : b.is "iterable".toList with
  | true =>
      rw [is_unique hi hwords]
      simp only [if_true, true_and, false_and, or_false, Bool.false_eq_true]
  | false => simp only [if_false, Bool.and_eq_true, false_and, false_or, Bool.false_eq_true]

@[simp] theorem isSubtype_none (a : Option HintType) : isSubtype a none = true := by
  cases a <;> rfl

theorem isSubtype_refl (a : Option HintType) : isSubtype a a = true := by
  cases a with
  | none => rfl
  | some a => exact isSubtype_some_iff.mpr ⟨id, Or.inl (Text.Same.refl _)⟩

/-- Only `none` lies above `none`. -/
theorem eq_none_of_isSubtype_none {b : Option HintType} (h : isSubtype none b = true) :
    b = none := by
  cases b with
  | none => rfl
  | some b => simp [isSubtype] at h

/-- Below `array` there is only `array`, and below a class there is only that class. -/
theorem same_of_isSubtype {a b : HintType} (h : isSubtype (some a) (some b) = true)
    (hb : b.is "array".toList = true ∨ b.isClass = true) : a.resolved.Same b.resolved := by
  rcases (isSubtype_some_iff.mp h).2 with hsame | ⟨hb', -⟩ | ⟨hb', -⟩
  · exact hsame
  · rcases hb with hb | hb
    · rw [is_unique hb (by decide)] at hb'; cases hb'
    · rw [isClass_of_is (by decide) hb'] at hb; cases hb
  · rcases hb with hb | hb
    · rw [is_unique hb (by decide)] at hb'; cases hb'
    · rw [isClass_of_is (by decide) hb'] at hb; cases hb

theorem isSubtype_trans {a b c : Option HintType} (hab : isSubtype a b = true)
    (hbc : isSubtype b c = true) : isSubtype a c = true := by
  cases c with
  | none => simp
  | some c =>
      cases b with
      | none => exact absurd (eq_none_of_isSubtype_none hbc) (by simp)
      | some b =>
          cases a with
          | none => exact absurd (eq_none_of_isSubtype_none hab) (by simp)
          | some a =>
              have hbelow := same_of_isSubtype hab
              rw [isSubtype_some_iff] at hab hbc ⊢
              refine ⟨fun ha => hbc.1 (hab.1 ha), ?_⟩
              rcases hbc.2 with hsame | ⟨hc, hb⟩ | ⟨hc, hb⟩
              · rw [← is_of_same hsame, ← is_of_same hsame]
                exact hab.2.imp (fun h => h.trans hsame) id
              · exact Or.inr (Or.inl ⟨hc, (is_of_same (hbelow (.inl hb)) _).trans hb⟩)
              · exact Or.inr (Or.inr ⟨hc, (isClass_of_same (hbelow (.inr hb))).trans hb⟩)

/-! ## What a type means is all that counts -/

@[simp] theorem isSubtype_asResolved_left (a b : Option HintType) :
    isSubtype (a.map asResolved) b = isSubtype a b := by
  cases a <;> cases b <;> rfl

@[simp] theorem isSubtype_asResolved_right (a b : Option HintType) :
    isSubtype a (b.map asResolved) = isSubtype a b := by
  cases a <;> cases b <;> rfl

end HintType

namespace Signature

open HintType

/-! ## Merging one place -/

/-- A merged parameter lies above the inherited one. -/
theorem isSubtype_mergeParam (own inherited : Option HintType) :
    isSubtype inherited (mergeParam own inherited) = true := by
  unfold mergeParam
  split
  · exact isSubtype_refl inherited
  · next h => simp_all

/-- A merged result lies below the inherited one. -/
theorem mergeResult_isSubtype (own inherited : Option HintType) :
    isSubtype (mergeResult own inherited) inherited = true := by
  unfold mergeResult
  split
  · next h => exact h
  · exact isSubtype_refl inherited

/-! ## Merging signatures -/

theorem getElem?_mergeParams (owns inherited : List (Option HintType)) (i : Nat) :
    (mergeParams owns inherited)[i]? =
      owns[i]?.map fun own => (inherited[i]?.map (mergeParam own)).getD own := by
  induction owns, inherited using mergeParams.induct generalizing i with
  | case1 inherited => simp [mergeParams]
  | case2 owns _ =>
      cases owns with
      | nil => simp_all
      | cons own owns => cases i <;> simp [mergeParams]
  | case3 own owns inherited rest ih =>
      cases i with
      | zero => simp [mergeParams]
      | succ i => simpa [mergeParams] using ih i

@[simp] theorem length_mergeParams (owns inherited : List (Option HintType)) :
    (mergeParams owns inherited).length = owns.length := by
  induction owns, inherited using mergeParams.induct with
  | case1 inherited => rfl
  | case2 owns _ => cases owns <;> rfl
  | case3 own owns inherited rest ih => simp [mergeParams, ih]

theorem param_of_lt {s : Signature} {i : Nat} (h : i < s.params.length) :
    s.param i = s.params[i] := by
  simp [param, List.getElem?_eq_getElem h]

theorem lt_of_param {s : Signature} {i : Nat} {t : HintType} (h : s.param i = some t) :
    i < s.params.length := by
  refine Nat.lt_of_not_le fun hge => ?_
  rw [param, List.getElem?_eq_none hge] at h
  cases h

/-- Where both signatures have a parameter, the merged one lies above the
inherited one. -/
theorem isSubtype_param_merge {own inherited : Signature} {i : Nat}
    (hown : i < own.params.length) (hinh : i < inherited.params.length) :
    isSubtype (inherited.param i) ((own.merge inherited).param i) = true := by
  have hmerged : (own.merge inherited).param i =
      mergeParam own.params[i] inherited.params[i] := by
    simp only [param, merge, getElem?_mergeParams, List.getElem?_eq_getElem hown,
      List.getElem?_eq_getElem hinh, Option.map_some, Option.getD_some, Option.join_some]
  rw [hmerged, param_of_lt hinh]
  exact isSubtype_mergeParam _ _

@[simp] theorem length_params_asResolved (s : Signature) :
    s.asResolved.params.length = s.params.length := by
  simp [asResolved]

@[simp] theorem result_asResolved (s : Signature) :
    s.asResolved.result = s.result.map HintType.asResolved := rfl

@[simp] theorem param_asResolved (s : Signature) (i : Nat) :
    s.asResolved.param i = (s.param i).map HintType.asResolved := by
  cases h : s.params[i]? <;> simp [param, asResolved, h]

/-! ## Slots -/

/-- The places of a signature that may have a type. -/
inductive Slot where
  /-- A parameter. -/
  | param (index : Nat)
  /-- The result. -/
  | result
deriving DecidableEq, Repr

/-- The type at a slot. -/
def slot (s : Signature) : Slot → Option HintType
  | .param index => s.param index
  | .result => s.result

/-- All types of the signature have the property. -/
def Over (Q : HintType → Prop) (s : Signature) : Prop :=
  (∀ type ∈ s.params, ∀ t ∈ type, Q t) ∧ ∀ t ∈ s.result, Q t

/-- The types of a signature are those at its slots. -/
theorem over_iff_slot {Q : HintType → Prop} {s : Signature} :
    s.Over Q ↔ ∀ i t, s.slot i = some t → Q t := by
  constructor
  · rintro ⟨hparams, hresult⟩ i t ht
    cases i with
    | result => exact hresult t ht
    | param index =>
        have hindex : s.params[index]? = some (some t) := Option.join_eq_some_iff.mp ht
        exact hparams _ (List.mem_of_getElem? hindex) t rfl
  · intro h
    refine ⟨fun type htype t ht => ?_, h .result⟩
    obtain ⟨index, hindex⟩ := List.mem_iff_getElem?.mp htype
    obtain rfl : type = some t := ht
    exact h (.param index) t (Option.join_eq_some_iff.mpr hindex)

@[simp] theorem slot_asResolved (s : Signature) (i : Slot) :
    s.asResolved.slot i = (s.slot i).map HintType.asResolved := by
  cases i <;> simp [slot]

theorem mergeParam_eq (own inherited : Option HintType) :
    mergeParam own inherited = own ∨ mergeParam own inherited = inherited := by
  simp only [mergeParam]
  split
  · exact .inr rfl
  · exact .inl rfl

theorem mergeResult_eq (own inherited : Option HintType) :
    mergeResult own inherited = own ∨ mergeResult own inherited = inherited := by
  simp only [mergeResult]
  split
  · exact .inl rfl
  · exact .inr rfl

/-- Merging makes no types, and it moves none to another slot. -/
theorem slot_merge (own inherited : Signature) (i : Slot) :
    (own.merge inherited).slot i = own.slot i ∨
      (own.merge inherited).slot i = inherited.slot i := by
  cases i with
  | result => exact mergeResult_eq own.result inherited.result
  | param index =>
      simp only [slot, param, merge, getElem?_mergeParams]
      cases hown : own.params[index]? with
      | none => exact .inl rfl
      | some type =>
          cases hinherited : inherited.params[index]? with
          | none => exact .inl rfl
          | some type' => simpa using mergeParam_eq type type'

end Signature

end NativeHints
