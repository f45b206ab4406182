import NativeHints.Proofs.Subtype
import NativeHints.Insertion.Basic

/-!
# What the features decide

Whether a type is written at a place is a list of conditions on the features,
one for each form the type needs.  Here they are stated as such.  All of them
are upward closed twice: more features allow more, and a type that lies below
another never needs more than it.
-/

namespace NativeHints

namespace Insertion

open HintType

theorem not_or_eq_true_iff {a b : Bool} : (!a || b) = true ↔ (a = true → b = true) := by
  cases a <;> simp

/-- The conditions under which a type may be written at all. -/
theorem isSupported_iff {options : Options} {inClass : Bool} {t : HintType} :
    isSupported options inClass t = true ↔
      (t.isRelative = true → inClass = true) ∧
        (t.is "iterable".toList = true → options .iterable = true) ∧
        (t.is "object".toList = true → options .object = true) := by
  have hwords : ¬ Text.Same "iterable".toList "object".toList := by decide
  unfold isSupported
  rw [Bool.and_eq_true]
  refine and_congr not_or_eq_true_iff ?_
  cases hi : t.is "iterable".toList with
  | true =>
      rw [is_unique hi hwords, if_pos rfl]
      exact ⟨fun h => ⟨fun _ => h, fun ho => absurd ho Bool.false_ne_true⟩, fun h => h.1 rfl⟩
  | false =>
      rw [if_neg Bool.false_ne_true]
      cases ho : t.is "object".toList with
      | true =>
          rw [if_pos rfl]
          exact ⟨fun h => ⟨fun hf => absurd hf Bool.false_ne_true, fun _ => h⟩, fun h => h.2 rfl⟩
      | false =>
          rw [if_neg Bool.false_ne_true]
          exact ⟨fun _ => ⟨fun hf => absurd hf Bool.false_ne_true,
            fun hf => absurd hf Bool.false_ne_true⟩, fun _ => rfl⟩

/-- A result is hinted with its type or not at all. -/
theorem resultType?_eq_some_iff {options : Options} {inClass : Bool} {t t' : HintType} :
    resultType? options inClass t = some t' ↔
      t = t' ∧ (t.nullable = true → options .nullableTypes = true) ∧
        isSupported options inClass t = true := by
  unfold resultType?
  rw [Option.ite_none_right_eq_some, Bool.and_eq_true, not_or_eq_true_iff, Option.some.injEq]
  exact and_comm

/-- A parameter is hinted like a result, but without `null` if that is its default. -/
theorem parameterType?_eq (options : Options) (inClass : Bool) (p : Param) (t : HintType) :
    parameterType? options inClass p t =
      resultType? options inClass (if t.nullable && p.nullDefault then t.notNullable else t) :=
  rfl

/-- A property is hinted with its type or not at all. -/
theorem propertyType?_eq_some_iff {options : Options} {inClass : Bool} {t t' : HintType} :
    propertyType? options inClass t = some t' ↔
      t = t' ∧ options .propertyTypes = true ∧ t.is "callable".toList = false ∧
        isSupported options inClass t = true := by
  rw [propertyType?, Option.ite_none_right_eq_some, Bool.and_eq_true, Bool.and_eq_true,
    Bool.not_eq_true', Option.some.injEq]
  exact ⟨fun ⟨⟨⟨hoption, hcallable⟩, hsupported⟩, ht⟩ => ⟨ht, hoption, hcallable, hsupported⟩,
    fun ⟨ht, hoption, hcallable, hsupported⟩ => ⟨⟨⟨hoption, hcallable⟩, hsupported⟩, ht⟩⟩

/-! ## More features allow more -/

/-- Whether the features allow a kind of type, wherever it stands. -/
def allowsKind (options : Options) (t : HintType) : Bool :=
  (!t.is "iterable".toList || options .iterable) && (!t.is "object".toList || options .object)

/-- Whether the features allow a type as it is written for a parameter or a result. -/
def allowsHint (options : Options) (t : HintType) : Bool :=
  (!t.nullable || options .nullableTypes) && allowsKind options t

theorem isSupported_eq (options : Options) (inClass : Bool) (t : HintType) :
    isSupported options inClass t = ((!t.isRelative || inClass) && allowsKind options t) := by
  rw [Bool.eq_iff_iff, isSupported_iff]
  simp only [allowsKind, Bool.and_eq_true, not_or_eq_true_iff]

section More

variable {options more : Options} (hmore : ∀ feature, options feature = true → more feature = true)

include hmore

theorem allowsKind_of_more {t : HintType} (h : allowsKind options t = true) :
    allowsKind more t = true := by
  simp only [allowsKind, Bool.and_eq_true, not_or_eq_true_iff] at h ⊢
  exact ⟨fun ht => hmore _ (h.1 ht), fun ht => hmore _ (h.2 ht)⟩

/-- Of the result types that more features allow, the others leave those they allow. -/
theorem resultType?_filter (inClass : Bool) (t : HintType) :
    resultType? options inClass t =
      (resultType? more inClass t).filter (allowsHint options) := by
  ext t'
  simp only [Option.filter_eq_some_iff, resultType?_eq_some_iff, isSupported_eq, Bool.and_eq_true]
  constructor
  · rintro ⟨rfl, hnull, hrelative, hkind⟩
    have hnull' : t.nullable = true → more .nullableTypes = true := fun ht => hmore _ (hnull ht)
    refine ⟨⟨rfl, hnull', hrelative, allowsKind_of_more hmore hkind⟩, ?_⟩
    simp only [allowsHint, Bool.and_eq_true, not_or_eq_true_iff]
    exact ⟨hnull, hkind⟩
  · rintro ⟨⟨rfl, -, hrelative, -⟩, hallowed⟩
    simp only [allowsHint, Bool.and_eq_true, not_or_eq_true_iff] at hallowed
    exact ⟨rfl, hallowed.1, hrelative, hallowed.2⟩

/-- Of the property types that more features allow, the others leave those they allow. -/
theorem propertyType?_filter (inClass : Bool) (t : HintType) :
    propertyType? options inClass t =
      (propertyType? more inClass t).filter
        fun t => options .propertyTypes && allowsKind options t := by
  ext t'
  simp only [Option.filter_eq_some_iff, propertyType?_eq_some_iff, isSupported_eq,
    Bool.and_eq_true]
  constructor
  · rintro ⟨rfl, hoption, hcallable, hrelative, hkind⟩
    exact ⟨⟨rfl, hmore _ hoption, hcallable, hrelative, allowsKind_of_more hmore hkind⟩,
      hoption, hkind⟩
  · rintro ⟨⟨rfl, -, hcallable, hrelative, -⟩, hoption, hkind⟩
    exact ⟨rfl, hoption, hcallable, hrelative, hkind⟩

end More

/-! ## Less specific types need more -/

/-- In a class, a type below another one is written whenever the other is. -/
theorem isSupported_of_isSubtype {options : Options} {a b : HintType}
    (h : isSubtype (some a) (some b) = true) (hb : isSupported options true b = true) :
    isSupported options true a = true := by
  rw [isSupported_iff] at hb ⊢
  refine ⟨fun _ => rfl, fun ha => ?_, fun ha => ?_⟩
  · rcases (isSubtype_some_iff.mp h).2 with hsame | ⟨-, harray⟩ | ⟨-, hclass⟩
    · exact hb.2.1 ((is_of_same hsame _).symm.trans ha)
    · rw [is_unique harray (by decide)] at ha; cases ha
    · rw [isClass_of_is (by decide) ha] at hclass; cases hclass
  · rcases (isSubtype_some_iff.mp h).2 with hsame | ⟨-, harray⟩ | ⟨-, hclass⟩
    · exact hb.2.2 ((is_of_same hsame _).symm.trans ha)
    · rw [is_unique harray (by decide)] at ha; cases ha
    · rw [isClass_of_is (by decide) ha] at hclass; cases hclass

/-- In a class, a result below another one is hinted whenever the other is. -/
theorem resultType?_of_isSubtype {options : Options} {a b b' : HintType}
    (h : isSubtype (some a) (some b) = true) (hb : resultType? options true b = some b') :
    resultType? options true a = some a := by
  obtain ⟨-, hnull, hsupported⟩ := resultType?_eq_some_iff.mp hb
  refine resultType?_eq_some_iff.mpr ⟨rfl, fun ha => ?_, isSupported_of_isSubtype h hsupported⟩
  exact hnull ((isSubtype_some_iff.mp h).1 ha)

end Insertion

end NativeHints
