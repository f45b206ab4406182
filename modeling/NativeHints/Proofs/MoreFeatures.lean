import NativeHints.Proofs.Features
import NativeHints.Proofs.Places

/-!
# Features only filter

When more features are allowed, a plan keeps all its insertions and gets others
in between.  Seen from the larger plan, features only filter: each insertion
shows by itself which features it needs (`Insertion.isAllowed`), and a plan with
fewer features is the larger one without the insertions that need another.  No
feature changes the type, the text or the position of what another one allows.

And where a plan with more features does not fail, one with fewer does not either.
-/

namespace NativeHints

namespace Insertion

/-- Whether the features allow an insertion that has been planned.  What counts is the type
that is written, so a parameter that has lost its `null` does not need nullable types. -/
def isAllowed (options : Options) : Insertion → Bool
  | strictTypes _ => options .strictTypes
  | parameter _ t _ | result _ t _ => allowsHint options t
  | property _ t _ => options .propertyTypes && allowsKind options t

section More

variable {options more : Options} (hmore : ∀ feature, options feature = true → more feature = true)

include hmore

/-! ## One declaration -/

theorem ofParam?_filter (inClass : Bool) (s : Scope) (p : Param) (type : Option HintType) :
    ofParam? options inClass s p type =
      (ofParam? more inClass s p type).filter (isAllowed options) := by
  have hdue : due p.hint type (parameterType? options inClass p) =
      (due p.hint type (parameterType? more inClass p)).filter (allowsHint options) :=
    due_filter (fun t => resultType?_filter hmore inClass _) _ _
  rw [ofParam?_eq, ofParam?_eq, hdue, Option.filter_map]
  rfl

theorem ofParams_filter (inClass : Bool) (s : Scope) (ps : List Param)
    (ts : List (Option HintType)) :
    ofParams options inClass s ps ts =
      (ofParams more inClass s ps ts).filter (isAllowed options) := by
  induction ps, ts using ofParams.induct with
  | case1 ts => rfl
  | case2 ps _ => cases ps <;> rfl
  | case3 p ps t ts ih =>
      rw [ofParams, ofParams, List.filter_append, ← ih, ofParam?_filter hmore,
        Option.toList_filter]

theorem ofResult_filter {g : Graph} {path : Text} {s : Scope} {classes : List Text}
    {f : FunctionHead} {type : Option HintType} {is : List Insertion}
    (h : ofResult ⟨g, more, path⟩ s classes f type = .ok is) :
    ofResult ⟨g, options, path⟩ s classes f type = .ok (is.filter (isAllowed options)) := by
  have hdue : due f.result type (resultType? options (!classes.isEmpty)) =
      (due f.result type (resultType? more (!classes.isEmpty))).filter (allowsHint options) :=
    due_filter (resultType?_filter hmore _) _ _
  rw [ofResult_eq] at h ⊢
  simp only [hdue]
  cases hlarge : due f.result type (resultType? more (!classes.isEmpty)) with
  | none =>
      simp only [hlarge] at h
      cases h
      rfl
  | some t =>
      cases hend : f.signatureEnd with
      | none => simp [hlarge, hend] at h
      | some e =>
          simp only [hlarge, hend] at h
          cases h
          cases hallowed : allowsHint options t with
          | true => simp [Option.filter, isAllowed, hallowed]
          | false => simp [Option.filter, isAllowed, hallowed]

theorem ofProperty_filter (g : Graph) (path : Text) (s : Scope) (classes : List Text)
    (p : Property) :
    ofProperty ⟨g, options, path⟩ s classes p =
      (ofProperty ⟨g, more, path⟩ s classes p).filter (isAllowed options) := by
  by_cases hsingle : ∃ e around outer, p.elements = [e] ∧ classes = around :: outer
  · obtain ⟨e, around, outer, helements, rfl⟩ := hsingle
    have hdue : due p.hint (g.property? around e.name) (propertyType? options true) =
        (due p.hint (g.property? around e.name) (propertyType? more true)).filter
          fun t => options .propertyTypes && allowsKind options t :=
      due_filter (propertyType?_filter hmore true) _ _
    rw [ofProperty_of_single ⟨g, options, path⟩ s around outer helements,
      ofProperty_of_single ⟨g, more, path⟩ s around outer helements, hdue, ← Option.toList_filter,
      Option.filter_map]
    rfl
  · have hnone : ∀ o, ofProperty ⟨g, o, path⟩ s classes p = [] := fun o =>
      (ofProperty_cases _ s classes p).resolve_right hsingle
    rw [hnone, hnone]
    rfl

theorem planVisit_filter {g : Graph} {path : Text} {v : Visit} {is : List Insertion}
    (h : planVisit ⟨g, more, path⟩ v = .ok is) :
    planVisit ⟨g, options, path⟩ v = .ok (is.filter (isAllowed options)) := by
  obtain ⟨s, around, item⟩ := v
  cases item with
  | property decl =>
      cases h
      exact congrArg Except.ok (ofProperty_filter hmore g path s _ decl)
  | function head =>
      have hsignature : ∀ classes, signatureFor ⟨g, options, path⟩ s classes head =
          signatureFor ⟨g, more, path⟩ s classes head := fun classes => rfl
      rw [planVisit_function] at h ⊢
      rcases ofFunction_eq_ok_iff.mp h with ⟨hnone, rfl⟩ | ⟨signature, result, hsome, hresult, rfl⟩
      · exact ofFunction_of_none ((hsignature _).trans hnone)
      · refine ofFunction_eq_ok_iff.mpr (.inr ⟨signature, result.filter (isAllowed options),
          (hsignature _).trans hsome, ofResult_filter hmore hresult, ?_⟩)
        rw [List.filter_append, ofParams_filter hmore]

/-! ## A file -/

theorem ofFile_filter (f : FileOutline) :
    ofFile options f = (ofFile more f).filter (isAllowed options) := by
  cases hstrict : options .strictTypes with
  | true =>
      simp only [ofFile, hstrict, hmore _ hstrict]
      split
      · cases f.strictTypesAt <;> simp [isAllowed, hstrict]
      · rfl
  | false =>
      simp only [ofFile, hstrict, Bool.false_and, Bool.false_eq_true, if_false]
      split
      · cases f.strictTypesAt <;> simp [isAllowed, hstrict]
      · rfl

/-- The run: a plan with fewer features is what they allow of the one with more. -/
theorem planFile_filter {g : Graph} {path : Text} {f : FileOutline} {is : List Insertion}
    (h : planFile ⟨g, more, path⟩ f = .ok is) :
    planFile ⟨g, options, path⟩ f = .ok (is.filter (isAllowed options)) := by
  obtain ⟨hints, hhints, rfl⟩ := planFile_eq_ok_iff.mp h
  obtain ⟨hints', hhints', rfl⟩ : ∃ hints', gather (planVisit ⟨g, options, path⟩)
      (f.decls.visits .start []) = .ok hints' ∧ hints' = hints.filter (isAllowed options) :=
    gather_imp (Q := fun a b => b = a.filter (isAllowed options)) rfl
      (fun a b a' b' ha hb => by rw [ha, hb, List.filter_append])
      (fun v _ is hv => ⟨_, planVisit_filter hmore hv, rfl⟩) hhints
  exact planFile_eq_ok_iff.mpr ⟨_, hhints', by rw [List.filter_append, ofFile_filter hmore f]⟩

theorem planFile_of_more {g : Graph} {path : Text} {f : FileOutline} {is : List Insertion}
    (h : planFile ⟨g, more, path⟩ f = .ok is) :
    ∃ is', planFile ⟨g, options, path⟩ f = .ok is' ∧ is'.Sublist is :=
  ⟨_, planFile_filter hmore h, List.filter_sublist⟩

end More

end Insertion

/-! ## Places -/

section Places

variable {options more : Options} (hmore : ∀ feature, options feature = true → more feature = true)

include hmore

theorem Visit.places_of_more (v : Visit) : (v.places options).Sublist (v.places more) := by
  obtain ⟨s, around, item⟩ := v
  cases item with
  | function head => exact List.Sublist.refl _
  | property decl =>
      simp only [Visit.places]
      cases hallowed : options .propertyTypes with
      | false => exact List.nil_sublist _
      | true => rw [hmore _ hallowed]

/-- A file has all its places also with more features. -/
theorem FileOutline.places_of_more (f : FileOutline) :
    (f.places options).Sublist (f.places more) := by
  rw [places, places, Outline.places_eq_flatMap options f.decls .start [],
    Outline.places_eq_flatMap more f.decls .start []]
  refine List.Sublist.append ?_ ?_
  · cases hstrict : options .strictTypes with
    | false => exact List.nil_sublist _
    | true => rw [hmore _ hstrict]
  · induction f.decls.visits .start [] with
    | nil => exact .slnil
    | cons v vs ih => exact (v.places_of_more hmore).append ih

end Places

/-! ## Versions -/

namespace Version

theorem atLeast_iff {v w : Version} :
    v.atLeast w = true ↔ w.major < v.major ∨ w.major = v.major ∧ w.minor ≤ v.minor := by
  simp only [atLeast, compare, bne_iff_ne, ne_eq, Ordering.then_eq_lt, Nat.compare_eq_lt,
    Nat.compare_eq_eq]
  omega

theorem atLeast_trans {u v w : Version} (huv : u.atLeast v = true) (hvw : v.atLeast w = true) :
    u.atLeast w = true := by
  rw [atLeast_iff] at huv hvw ⊢
  omega

end Version

/-- A later version has all features of an earlier one. -/
theorem Options.ofVersion_mono {v w : Version} (h : w.atLeast v = true) (feature : Feature)
    (hfeature : ofVersion v feature = true) : ofVersion w feature = true :=
  Version.atLeast_trans h hfeature

/-- Options only filter.  If planning succeeds with all features allowed, it does so with any
options, and the plan is the full one without the insertions that need a feature which
is not allowed.  So the hints for a version are among those for any later one, in the same
order and with the same texts. -/
theorem options_only_filter {g : Graph} {path : Text} {f : FileOutline} {full : List Insertion}
    (h : Insertion.planFile ⟨g, fun _ => true, path⟩ f = .ok full) :
    (∀ options, Insertion.planFile ⟨g, options, path⟩ f =
      .ok (full.filter (Insertion.isAllowed options))) ∧
    ∀ v w : Version, w.atLeast v = true →
      ∃ earlier later, Insertion.planFile ⟨g, .ofVersion v, path⟩ f = .ok earlier ∧
        Insertion.planFile ⟨g, .ofVersion w, path⟩ f = .ok later ∧ earlier.Sublist later := by
  have hfilter : ∀ options, Insertion.planFile ⟨g, options, path⟩ f =
      .ok (full.filter (Insertion.isAllowed options)) := fun options =>
    Insertion.planFile_filter (fun _ _ => rfl) h
  refine ⟨hfilter, fun v w hvw => ?_⟩
  obtain ⟨earlier, hearlier, hsub⟩ :=
    Insertion.planFile_of_more (Options.ofVersion_mono hvw) (hfilter (.ofVersion w))
  exact ⟨earlier, _, hearlier, hfilter (.ofVersion w), hsub⟩

/-- A function with a parameter that is nullable by its default, one that is nullable without,
and an iterable result, and a class with a property. -/
def optionalFile : FileOutline :=
  ⟨some ⟨0, 5⟩, none, false,
    .functionLike
      ⟨.function, some "f".toList, 60,
        some "/** @param A|null $a @param B|null $b @return iterable */".toList,
        [⟨"a".toList, ⟨70, 79⟩, 70, none, true⟩, ⟨"b".toList, ⟨81, 83⟩, 81, none, false⟩],
        some 84, none⟩ .empty
      (.classLike ⟨.ordinary, some "C".toList, 90, [], []⟩
        (.property ⟨some "/** @var object */".toList, none, [⟨"p".toList, 120⟩]⟩ .empty) .empty)⟩

/-- The code base of that file alone, under given options. -/
def optionalContext (options : Options) : Insertion.Context :=
  ⟨.ofOutlines [("a.php".toList, optionalFile.decls)], options, "a.php".toList⟩

/-- All that may be inserted in it. -/
def optionalPlan : List Insertion :=
  [.strictTypes 5, .parameter 70 (.named "A".toList false) "A".toList,
    .parameter 81 (.named "B".toList true) "?B".toList,
    .result 84 (.named "iterable".toList false) "iterable".toList,
    .property 120 (.named "object".toList false) "object".toList]

/-- Version 7.0 allows two of the insertions, and version 7.3 keeps them. -/
theorem options_only_filter_optional :
    Insertion.planFile (optionalContext fun _ => true) optionalFile = .ok optionalPlan ∧
    Insertion.planFile (optionalContext (.ofVersion ⟨7, 0⟩)) optionalFile =
      .ok [.strictTypes 5, .parameter 70 (.named "A".toList false) "A".toList] ∧
    ∃ earlier later,
      Insertion.planFile (optionalContext (.ofVersion ⟨7, 0⟩)) optionalFile = .ok earlier ∧
      Insertion.planFile (optionalContext (.ofVersion ⟨7, 3⟩)) optionalFile = .ok later ∧
      earlier.Sublist later := by
  have hfull : Insertion.planFile (optionalContext fun _ => true) optionalFile =
      .ok optionalPlan := by decide +kernel
  have hearly : optionalPlan.filter (Insertion.isAllowed (.ofVersion ⟨7, 0⟩)) =
      [.strictTypes 5, .parameter 70 (.named "A".toList false) "A".toList] := by decide
  obtain ⟨hfilter, hversions⟩ := options_only_filter hfull
  refine ⟨hfull, ?_, hversions ⟨7, 0⟩ ⟨7, 3⟩ (by decide)⟩
  rw [← hearly]
  exact hfilter (.ofVersion ⟨7, 0⟩)

end NativeHints
