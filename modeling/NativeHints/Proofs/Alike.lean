import Mathlib.Data.List.Forall2
import NativeHints.Proofs.PlainNames
import NativeHints.Insertion.Basic

/-!
# Types up to the names of anonymous classes

Two types are *alike* if they are written in the same way and mean the same name,
or each the made-up name of some anonymous class.  Nothing that is decided about
a type tells them apart: neither the features nor the way it is written out, nor
a comparison with a type whose name is plain.
-/

namespace NativeHints

theorem rel_bind {α β γ δ : Type} {R : α → β → Prop} {S : γ → δ → Prop} {f : α → Option γ}
    {f' : β → Option δ} {o : Option α} {o' : Option β} (h : Option.Rel R o o')
    (hf : ∀ a b, R a b → Option.Rel S (f a) (f' b)) : Option.Rel S (o.bind f) (o'.bind f') := by
  cases h with
  | none => exact .none
  | some h => exact hf _ _ h

theorem exists_of_rel_some {α β : Type} {R : α → β → Prop} {a : α} {o : Option β}
    (h : Option.Rel R (some a) o) : ∃ b, o = some b ∧ R a b := by
  cases h with
  | some h => exact ⟨_, rfl, h⟩

theorem eq_none_of_rel_none {α β : Type} {R : α → β → Prop} {o : Option β}
    (h : Option.Rel R none o) : o = none := by
  cases h with
  | none => rfl

theorem eq_of_rel {α : Type} {R : α → α → Prop} {o o' : Option α} (h : Option.Rel R o o')
    (heq : ∀ a ∈ o, ∀ {b}, R a b → a = b) : o = o' := by
  cases h with
  | none => rfl
  | some h => rw [heq _ rfl h]

/-- The same name, or two made-up ones. -/
def Text.Alike (a b : Text) : Prop := a = b ∨ ¬ a.Plain ∧ ¬ b.Plain

theorem Text.Alike.refl (a : Text) : a.Alike a := .inl rfl

/-- A plain word is compared alike with both. -/
theorem Text.Alike.same_iff {a b : Text} (h : a.Alike b) {word : Text} (hword : word.Plain) :
    a.Same word ↔ b.Same word := by
  rcases h with rfl | ⟨ha, hb⟩
  · exact Iff.rfl
  · exact ⟨fun h => absurd (h.symm.plain hword) ha, fun h => absurd (h.symm.plain hword) hb⟩

namespace HintType

/-- The same type up to the names of anonymous classes. -/
structure Alike (t t' : HintType) : Prop where
  declared : t.declared = t'.declared
  nullable : t.nullable = t'.nullable
  resolved : t.resolved.Alike t'.resolved

namespace Alike

theorem refl (t : HintType) : t.Alike t := ⟨rfl, rfl, .refl _⟩

/-- A plain type is alike to itself only. -/
theorem eq {t t' : HintType} (h : t.Alike t') (ht : t.Plain) : t = t' := by
  obtain ⟨declared, resolved, nullable⟩ := t
  obtain ⟨declared', resolved', nullable'⟩ := t'
  obtain ⟨hdeclared, hnullable, hresolved | ⟨hplain, -⟩⟩ := h
  · cases hdeclared
    cases hnullable
    cases hresolved
    rfl
  · exact absurd ht hplain

variable {t t' : HintType} (h : t.Alike t')

include h

theorem is_eq {word : Text} (hword : word.Plain) : t.is word = t'.is word :=
  decide_eq_decide.mpr (h.resolved.same_iff hword)

theorem isClass_eq : t.isClass = t'.isClass := by
  have hwords : ∀ word ∈ builtinKinds, Text.Plain word := by decide
  have hany : t.resolved.isOneOf builtinKinds = t'.resolved.isOneOf builtinKinds := by
    rw [Text.isOneOf, Text.isOneOf, Bool.eq_iff_iff, List.any_eq_true, List.any_eq_true]
    refine exists_congr fun word => and_congr_right fun hword => ?_
    rw [decide_eq_true_iff, decide_eq_true_iff]
    exact h.resolved.same_iff (hwords word hword)
  rw [isClass, isClass, hany]

theorem isRelative_eq : t.isRelative = t'.isRelative := by
  rw [isRelative, isRelative, h.declared]

theorem notNullable : t.notNullable.Alike t'.notNullable := ⟨h.declared, rfl, h.resolved⟩

theorem display_eq (s : Scope) : s.display t = s.display t' := by
  rw [Scope.display, Scope.display, h.isClass_eq, h.isRelative_eq, h.declared, h.nullable]

theorem isSubtype_left {b : Option HintType} (hb : ∀ u ∈ b, HintType.Plain u) :
    isSubtype (some t) b = isSubtype (some t') b := by
  cases b with
  | none => rfl
  | some b =>
      have hsame : decide (t.resolved.Same b.resolved) = decide (t'.resolved.Same b.resolved) :=
        decide_eq_decide.mpr (h.resolved.same_iff (hb b rfl))
      have harray : t.is "array".toList = t'.is "array".toList := h.is_eq (by decide)
      simp only [isSubtype, h.nullable, hsame, harray, h.isClass_eq]

theorem isSubtype_right {a : Option HintType} (ha : ∀ u ∈ a, HintType.Plain u) :
    isSubtype a (some t) = isSubtype a (some t') := by
  cases a with
  | none => rfl
  | some a =>
      have hsame : decide (a.resolved.Same t.resolved) = decide (a.resolved.Same t'.resolved) := by
        have hiff := h.resolved.same_iff (ha a rfl)
        exact decide_eq_decide.mpr
          ⟨fun hs => (hiff.mp hs.symm).symm, fun hs => (hiff.mpr hs.symm).symm⟩
      have hiterable : t.is "iterable".toList = t'.is "iterable".toList := h.is_eq (by decide)
      have hobject : t.is "object".toList = t'.is "object".toList := h.is_eq (by decide)
      simp only [isSubtype, h.nullable, hsame, hiterable, hobject]

end Alike

/-- No types, or two that are alike. -/
abbrev BothAlike : Option HintType → Option HintType → Prop := Option.Rel Alike

theorem BothAlike.refl (t : Option HintType) : BothAlike t t := by
  cases t with
  | none => exact .none
  | some t => exact .some (.refl t)

end HintType

open HintType (BothAlike)

/-! ## Signatures -/

namespace Signature

/-- The same signature up to the names of anonymous classes. -/
structure Alike (s s' : Signature) : Prop where
  params : List.Forall₂ BothAlike s.params s'.params
  result : BothAlike s.result s'.result

theorem Alike.refl (s : Signature) : s.Alike s :=
  ⟨List.forall₂_same.mpr fun t _ => BothAlike.refl t, BothAlike.refl _⟩

theorem Alike.eq {s s' : Signature} (h : s.Alike s') (hs : s.Plain) : s = s' := by
  have hlists : ∀ {ts ts' : List (Option HintType)}, List.Forall₂ BothAlike ts ts' →
      (∀ t ∈ ts, ∀ u ∈ t, HintType.Plain u) → ts = ts' := by
    intro ts ts' hts hplain
    induction hts with
    | nil => rfl
    | cons ht _ ih =>
        rw [eq_of_rel ht fun t h {_} hu => hu.eq (hplain _ (List.mem_cons_self ..) t h),
          ih fun t h => hplain t (List.mem_cons_of_mem _ h)]
  obtain ⟨params, result⟩ := s
  obtain ⟨params', result'⟩ := s'
  obtain rfl : params = params' := hlists h.params hs.1
  obtain rfl : result = result' := eq_of_rel h.result fun t ht {_} hu => hu.eq (hs.2 t ht)
  rfl

theorem mergeParam_alike {own own' inherited : Option HintType} (h : BothAlike own own')
    (hplain : ∀ t ∈ inherited, HintType.Plain t) :
    BothAlike (mergeParam own inherited) (mergeParam own' inherited) := by
  cases h with
  | none => exact BothAlike.refl _
  | some h =>
      simp only [mergeParam, h.isSubtype_right hplain, Option.isNone_some, Bool.false_or]
      split
      · exact BothAlike.refl _
      · exact .some h

theorem mergeParams_alike {own own' : List (Option HintType)} (h : List.Forall₂ BothAlike own own')
    {inherited : List (Option HintType)}
    (hplain : ∀ type ∈ inherited, ∀ t ∈ type, HintType.Plain t) :
    List.Forall₂ BothAlike (mergeParams own inherited) (mergeParams own' inherited) := by
  induction h generalizing inherited with
  | nil => exact .nil
  | cons hhead htail ih =>
      cases inherited with
      | nil => exact .cons hhead htail
      | cons type inherited =>
          rw [mergeParams, mergeParams]
          exact .cons (mergeParam_alike hhead (hplain type (List.mem_cons_self ..)))
            (ih fun type h => hplain type (List.mem_cons_of_mem _ h))

theorem mergeResult_alike {own own' inherited : Option HintType} (h : BothAlike own own')
    (hplain : ∀ t ∈ inherited, HintType.Plain t) :
    BothAlike (mergeResult own inherited) (mergeResult own' inherited) := by
  cases h with
  | none => exact BothAlike.refl _
  | some h =>
      rw [mergeResult, mergeResult, h.isSubtype_left hplain]
      split
      · exact .some h
      · exact BothAlike.refl _

/-- Overriding the same plain signature keeps signatures alike. -/
theorem merge_alike {own own' inherited : Signature} (h : own.Alike own')
    (hplain : inherited.Plain) : (own.merge inherited).Alike (own'.merge inherited) :=
  ⟨mergeParams_alike h.params hplain.1, mergeResult_alike h.result hplain.2⟩

end Signature

/-! ## Doc comments -/

namespace Doc

/-- The same class around up to the names of anonymous classes. -/
structure Enclosing.Alike (c c' : Enclosing) : Prop where
  name : c.name.Alike c'.name
  parent : c.parent = c'.parent

theorem lookup_alike {l l' : List (Text × HintType)}
    (hl : List.Forall₂ (fun a b => a.1 = b.1 ∧ a.2.Alike b.2) l l') (key : Text) :
    BothAlike (l.lookup key) (l'.lookup key) := by
  induction hl with
  | nil => exact .none
  | @cons a b l l' hab _ ih =>
      obtain ⟨name, t⟩ := a
      obtain ⟨name', t'⟩ := b
      obtain rfl : name = name' := hab.1
      rw [List.lookup_cons, List.lookup_cons]
      split
      · exact .some hab.2
      · exact ih

variable {c c' : Enclosing} (h : c.Alike c')

include h

theorem readType?_alike (s : Scope) (written : Text) :
    BothAlike (readType? s (some c) written) (readType? s (some c') written) := by
  have hmeaning : ∀ name, (meaning (some c) name).Alike (meaning (some c') name) := by
    intro name
    rw [meaning, meaning, h.parent]
    split
    · exact h.name
    · exact .refl _
  rw [readType?, readType?]
  cases unionName? s (((Text.splitOn '|' (Text.trim written))).filter (!isNull ·)) with
  | none => exact .none
  | some name => exact .some ⟨rfl, rfl, hmeaning name⟩

theorem typedParams_alike (s : Scope) (doc : Text) :
    List.Forall₂ (fun a b => a.1 = b.1 ∧ a.2.Alike b.2) (typedParams s (some c) doc)
      (typedParams s (some c') doc) := by
  rw [typedParams, typedParams]
  induction paramTags doc with
  | nil => exact .nil
  | cons tag tags ih =>
      have htype := readType?_alike h s tag.type
      rw [List.filterMap_cons, List.filterMap_cons]
      cases ht : readType? s (some c) tag.type with
      | none =>
          rw [ht] at htype
          cases ht' : readType? s (some c') tag.type with
          | none => exact ih
          | some t' => rw [ht'] at htype; cases htype
      | some t =>
          rw [ht] at htype
          cases ht' : readType? s (some c') tag.type with
          | none => rw [ht'] at htype; cases htype
          | some t' =>
              rw [ht'] at htype
              cases htype with
              | some htype => exact .cons ⟨rfl, htype⟩ ih

theorem signature_alike (s : Scope) (params : List Text) (doc : Text) :
    (signature s (some c) params doc).Alike (signature s (some c') params doc) := by
  refine ⟨?_, ?_⟩
  · rw [signature, signature]
    induction params with
    | nil => exact .nil
    | cons name params ih => exact .cons (lookup_alike (typedParams_alike h s doc) name) ih
  · rw [signature, signature, resultType?, resultType?]
    cases (valueTags "@return".toList doc).head? with
    | none => exact .none
    | some written => exact readType?_alike h s written

theorem propertyType?_alike (s : Scope) (doc : Text) :
    BothAlike (propertyType? s (some c) doc) (propertyType? s (some c') doc) := by
  rw [propertyType?, propertyType?]
  split
  · exact readType?_alike h s _
  · exact .none

end Doc

/-! ## Insertions -/

namespace Insertion

variable {t t' : HintType} (h : t.Alike t')

include h

theorem isSupported_alike (options : Options) (inClass : Bool) :
    isSupported options inClass t = isSupported options inClass t' := by
  have hiterable : t.is "iterable".toList = t'.is "iterable".toList := h.is_eq (by decide)
  have hobject : t.is "object".toList = t'.is "object".toList := h.is_eq (by decide)
  simp only [isSupported, h.isRelative_eq, hiterable, hobject]

theorem resultType?_alike (options : Options) (inClass : Bool) :
    BothAlike (resultType? options inClass t) (resultType? options inClass t') := by
  rw [resultType?, resultType?, isSupported_alike h, h.nullable]
  split
  · exact .some h
  · exact .none

theorem parameterType?_alike (options : Options) (inClass : Bool) (p : Param) :
    BothAlike (parameterType? options inClass p t) (parameterType? options inClass p t') := by
  have hnarrowed : (if t.nullable && p.nullDefault then t.notNullable else t).Alike
      (if t'.nullable && p.nullDefault then t'.notNullable else t') := by
    rw [h.nullable]
    split
    · exact h.notNullable
    · exact h
  rw [parameterType?, parameterType?]
  exact resultType?_alike hnarrowed options inClass

theorem propertyType?_alike (options : Options) (inClass : Bool) :
    BothAlike (propertyType? options inClass t) (propertyType? options inClass t') := by
  have hcallable : t.is "callable".toList = t'.is "callable".toList := h.is_eq (by decide)
  simp only [propertyType?, isSupported_alike h, hcallable]
  split
  · exact .some h
  · exact .none

end Insertion

end NativeHints
