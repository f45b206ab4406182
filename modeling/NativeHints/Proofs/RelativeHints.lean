import NativeHints.Proofs.Annotated
import NativeHints.Proofs.Emitted
import NativeHints.Proofs.ReservedWords
import NativeHints.Php.Reading

/-!
# Where hints relative to a class stand

The hints `self` and `parent` mean a class in relation to the place.  They are only
added where there is a class-like around.  But the class-likes around are all that
counts.  A function declared inside a method has a class-like around and yet no class
of its own, and it gets such a hint exactly if its doc comment gives it one
(`relative_hints_placed`).
-/

namespace NativeHints

open Text (Qualified qualified_segmentwise)

/-! ## Hints that are relative -/

/-- A hint without the mark of a nullable type. -/
def Text.unmarked : Text → Text
  | '?' :: t => t
  | t => t

theorem Text.unmarked_of_not_mem {t : Text} (h : '?' ∉ t) : t.unmarked = t := by
  rw [unmarked.eq_def]
  split
  · exact absurd List.mem_cons_self h
  · rfl

/-- Reading makes no question marks. -/
theorem Text.notQuestion_segmentwise : Segmentwise ('?' ∉ ·) := by
  refine ⟨by simp, fun {t} h hmem => ?_⟩
  exact absurd (Doc.isNamePart_of_mem h hmem) (by decide)

/-- A type is written as `self` or `parent` exactly if that is what it is declared as. -/
theorem Scope.isRelativeName_display {s : Scope} (hs : s.WellNamed) {t : HintType}
    (ht : t.declared.Qualified) :
    HintType.isRelativeName (s.display t).unmarked = t.isRelative := by
  have hkept : ∀ {name : Text}, Text.Rooted Qualified name →
      Text.unmarked (if t.nullable then '?' :: name else name) = name := by
    intro name hname
    split
    · rfl
    · refine Text.unmarked_of_not_mem ?_
      rcases hname with hname | ⟨rest, rfl, hrest⟩
      · exact hname.of Text.notQuestion_segmentwise
      · have hrest' := hrest.of Text.notQuestion_segmentwise
        simpa using hrest'
  have hdisplay : s.display t = if t.nullable then
      '?' :: (if t.isClass && !t.isRelative then s.shortest t.declared else t.declared)
    else if t.isClass && !t.isRelative then s.shortest t.declared else t.declared := rfl
  cases hwritten : t.isClass && !t.isRelative with
  | false =>
      rw [hdisplay, hwritten]
      exact congrArg _ (hkept (.inl ht))
  | true =>
      obtain ⟨-, hnot⟩ := Bool.and_eq_true_iff.mp hwritten
      have hrelative : t.isRelative = false := by simpa using hnot
      rw [hdisplay, hwritten]
      refine (congrArg _ (hkept (rooted_shortest hs ht))).trans ?_
      rw [hrelative, ← Bool.not_eq_true]
      intro hshortest
      have hname := relative_of_shortest hshortest
      rw [(ht.of Text.segmented_segmentwise).dropLeading] at hname
      cases hrelative.symm.trans hname

/-! ## Types that are relative -/

/-- A place without a hint has a relative type, and `null` is allowed there if the type needs
it. -/
def GivesRelative (hint : Option WrittenHint) (type : Option HintType) (nullable : Prop) : Prop :=
  hint = none ∧ ∃ t, type = some t ∧ t.isRelative = true ∧ (t.nullable = true → nullable)

/-- The doc comment gives `self` or `parent` to a parameter or to the result, and the features
allow the type apart from that. -/
def FunctionHead.DocumentsRelative (options : Options) (s : Scope) (f : FunctionHead) : Prop :=
  ∃ doc, f.doc = some doc ∧ Doc.isInherited doc = false ∧
    ((∃ p ∈ f.params, GivesRelative p.hint ((Doc.typedParams s none doc).lookup p.name)
        (p.nullDefault = true ∨ options .nullableTypes = true)) ∨
      GivesRelative f.result (Doc.resultType? s none doc) (options .nullableTypes = true))

/-- A type that is read outside of any class means what it is declared as. -/
theorem Doc.resolved_eq_declared {s : Scope} {written : Text} {t : HintType}
    (h : readType? s none written = some t) : t.resolved = t.declared := by
  obtain ⟨name, -, rfl⟩ := Option.map_eq_some_iff.mp h
  rfl

namespace Insertion

section Allowed

variable {options : Options} {inClass : Bool} {t : HintType}

/-- Only the lack of a class keeps a relative type from being supported. -/
theorem isSupported_of_relative (hrelative : t.isRelative = true)
    (hmeaning : t.resolved = t.declared) : isSupported options inClass t = inClass := by
  have hword : ∀ word : Text, word ∈ HintType.builtinKinds → t.is word = false := by
    intro word hmem
    rw [← Bool.not_eq_true]
    intro his
    have hsame : t.declared.Same word := hmeaning ▸ of_decide_eq_true his
    have hbuiltin : HintType.isRelativeName word = true :=
      (hsame.isOneOf_eq ["self".toList, "parent".toList]).symm.trans hrelative
    have hnone : ∀ word ∈ HintType.builtinKinds, HintType.isRelativeName word = false := by decide
    cases (hnone word hmem).symm.trans hbuiltin
  rw [Bool.eq_iff_iff, isSupported_iff, hword "iterable".toList (by decide),
    hword "object".toList (by decide)]
  simp [hrelative]

theorem exists_resultType?_iff (hrelative : t.isRelative = true)
    (hmeaning : t.resolved = t.declared) :
    (∃ u, resultType? options inClass t = some u) ↔
      inClass = true ∧ (t.nullable = true → options .nullableTypes = true) := by
  simp only [resultType?_eq_some_iff, isSupported_of_relative hrelative hmeaning,
    exists_eq_left', and_comm]

theorem exists_parameterType?_iff (p : Param) (hrelative : t.isRelative = true)
    (hmeaning : t.resolved = t.declared) :
    (∃ u, parameterType? options inClass p t = some u) ↔
      inClass = true ∧
        (t.nullable = true → p.nullDefault = true ∨ options .nullableTypes = true) := by
  rw [parameterType?_eq]
  cases hdefault : t.nullable && p.nullDefault with
  | true =>
      obtain ⟨-, hnull⟩ := Bool.and_eq_true_iff.mp hdefault
      rw [if_pos rfl, exists_resultType?_iff (t := t.notNullable) hrelative hmeaning]
      simp [HintType.notNullable, hnull]
  | false =>
      rw [if_neg Bool.false_ne_true, exists_resultType?_iff hrelative hmeaning]
      refine and_congr_right fun _ => forall_congr' fun hnullable => ?_
      rw [hnullable, Bool.true_and] at hdefault
      simp [hdefault]

/-- A relative hint is due where one is given and there is a class around. -/
theorem exists_relative_due_iff {hint : Option WrittenHint} {type : Option HintType}
    {allowed : HintType → Option HintType} {nullable : Prop}
    (hdeclared : ∀ t u, allowed t = some u → u.declared = t.declared)
    (hallowed : ∀ t ∈ type, t.isRelative = true →
      ((∃ u, allowed t = some u) ↔ inClass = true ∧ (t.nullable = true → nullable))) :
    (∃ u, due hint type allowed = some u ∧ u.isRelative = true) ↔
      inClass = true ∧ GivesRelative hint type nullable := by
  have hkept : ∀ {t u}, allowed t = some u → u.isRelative = t.isRelative :=
    fun h => congrArg HintType.isRelativeName (hdeclared _ _ h)
  constructor
  · rintro ⟨u, hdue, hrelative⟩
    obtain ⟨hhint, t, ht, hu⟩ := due_eq_some_iff.mp hdue
    rw [hkept hu] at hrelative
    obtain ⟨hclass, hnull⟩ := (hallowed t ht hrelative).mp ⟨u, hu⟩
    exact ⟨hclass, hhint, t, ht, hrelative, hnull⟩
  · rintro ⟨hclass, hhint, t, ht, hrelative, hnull⟩
    obtain ⟨u, hu⟩ := (hallowed t ht hrelative).mpr ⟨hclass, hnull⟩
    exact ⟨u, due_eq_some_iff.mpr ⟨hhint, t, ht, hu⟩, (hkept hu).trans hrelative⟩

/-- What is due can be written if what is given can. -/
theorem qualified_of_due {hint : Option WrittenHint} {type : Option HintType}
    {allowed : HintType → Option HintType}
    (hdeclared : ∀ t u, allowed t = some u → u.declared = t.declared)
    (htype : ∀ t ∈ type, t.declared.Qualified) {u : HintType}
    (h : due hint type allowed = some u) : u.declared.Qualified := by
  obtain ⟨-, t, ht, hallowed⟩ := due_eq_some_iff.mp h
  rw [hdeclared t u hallowed]
  exact htype t ht

end Allowed

/-! ## Hints by their places -/

/-- Whether the inserted hint is `self` or `parent`, nullable or not. -/
def isRelative (i : Insertion) : Bool := HintType.isRelativeName i.written.unmarked

/-- The insertion is due for the declaration. -/
def DueAt (c : Context) (v : Visit) (i : Insertion) : Prop :=
  ∃ here, planVisit c v = .ok here ∧ i ∈ here

/-- Parameters whose types are given one by one are planned for one by one. -/
theorem mem_ofParams_map {options : Options} {inClass : Bool} {s : Scope} {ps : List Param}
    {type : Param → Option HintType} {i : Insertion} :
    i ∈ ofParams options inClass s ps (ps.map type) ↔
      ∃ p ∈ ps, ofParam? options inClass s p (type p) = some i := by
  induction ps with
  | nil => simp [ofParams]
  | cons p ps ih =>
      rw [List.map_cons, ofParams, List.mem_append, Option.mem_toList, ih]
      simp

/-- Only a method has its signature from elsewhere. -/
theorem signatureFor_eq_some_iff {c : Context} {s : Scope} {classes : List Text}
    {f : FunctionHead} (hkind : f.kind ≠ .method) {signature : Signature} :
    signatureFor c s classes f = some signature ↔
      ∃ doc, f.doc = some doc ∧ Doc.isInherited doc = false ∧
        Doc.signature s none (f.params.map Param.name) doc = signature := by
  rw [signatureFor.eq_def]
  split
  · next hmethod => exact absurd hmethod hkind
  · simp only [bind, Option.bind_eq_some_iff, Option.ite_none_left_eq_some, Option.some.injEq,
      Bool.not_eq_true]

section Places

variable {c : Context} {s : Scope} (hs : s.WellNamed) {classes : List Text} {f : FunctionHead}

include hs

theorem exists_relative_param_iff {options : Options} {inClass : Bool} {ps : List Param}
    {type : Param → Option HintType}
    (htype : ∀ p ∈ ps, ∀ t ∈ type p, t.declared.Qualified ∧ t.resolved = t.declared) :
    (∃ i ∈ ofParams options inClass s ps (ps.map type), i.isRelative = true) ↔
      inClass = true ∧ ∃ p ∈ ps, GivesRelative p.hint (type p)
        (p.nullDefault = true ∨ options .nullableTypes = true) := by
  have hdue : ∀ p ∈ ps,
      ((∃ u, due p.hint (type p) (parameterType? options inClass p) = some u ∧
        u.isRelative = true) ↔
      inClass = true ∧ GivesRelative p.hint (type p)
        (p.nullDefault = true ∨ options .nullableTypes = true)) := fun p hp =>
    exists_relative_due_iff (fun _ _ => declared_of_parameterType?)
      fun t ht hrelative => exists_parameterType?_iff p hrelative (htype p hp t ht).2
  have hwritten : ∀ p ∈ ps, ∀ u,
      due p.hint (type p) (parameterType? options inClass p) = some u →
      isRelative (.parameter p.hintAt u (s.display u)) = u.isRelative := fun p hp u hu =>
    Scope.isRelativeName_display hs <|
      qualified_of_due (fun _ _ => declared_of_parameterType?) (fun t ht => (htype p hp t ht).1) hu
  constructor
  · rintro ⟨i, hi, hrelative⟩
    obtain ⟨p, hp, hparam⟩ := mem_ofParams_map.mp hi
    rw [ofParam?_eq] at hparam
    obtain ⟨u, hu, rfl⟩ := Option.map_eq_some_iff.mp hparam
    rw [hwritten p hp u hu] at hrelative
    obtain ⟨hclass, hgives⟩ := (hdue p hp).mp ⟨u, hu, hrelative⟩
    exact ⟨hclass, p, hp, hgives⟩
  · rintro ⟨hclass, p, hp, hgives⟩
    obtain ⟨u, hu, hrelative⟩ := (hdue p hp).mpr ⟨hclass, hgives⟩
    refine ⟨.parameter p.hintAt u (s.display u), mem_ofParams_map.mpr ⟨p, hp, ?_⟩,
      (hwritten p hp u hu).trans hrelative⟩
    rw [ofParam?_eq, hu, Option.map_some]

theorem exists_relative_result_iff {type : Option HintType}
    (htype : ∀ t ∈ type, t.declared.Qualified ∧ t.resolved = t.declared) {is : List Insertion}
    (h : ofResult c s classes f type = .ok is) :
    (∃ i ∈ is, i.isRelative = true) ↔
      (!classes.isEmpty) = true ∧
        GivesRelative f.result type (c.options .nullableTypes = true) := by
  have hdeclared : ∀ t u, resultType? c.options (!classes.isEmpty) t = some u →
      u.declared = t.declared := by
    intro t u hu
    rw [(resultType?_eq_some_iff.mp hu).1]
  refine Iff.trans ?_ (exists_relative_due_iff hdeclared
    fun t ht hrelative => exists_resultType?_iff hrelative (htype t ht).2)
  rw [ofResult_eq] at h
  split at h
  · next hdue =>
      cases h
      simp [hdue]
  · next u position hdue hend =>
      cases h
      have hwritten : isRelative (.result position u (s.display u)) = u.isRelative :=
        Scope.isRelativeName_display hs
          (qualified_of_due hdeclared (fun t ht => (htype t ht).1) hdue)
      simp [hdue, hwritten]
  · cases h

/-- What a function-like other than a method documents is what counts, and that there is a
class around. -/
theorem exists_relative_iff (hkind : f.kind ≠ .method) {is : List Insertion}
    (h : ofFunction c s classes f = .ok is) :
    (∃ i ∈ is, i.isRelative = true) ↔
      (!classes.isEmpty) = true ∧ f.DocumentsRelative c.options s := by
  rcases ofFunction_eq_ok_iff.mp h with ⟨hnone, rfl⟩ | ⟨signature, result, hsignature, hresult, rfl⟩
  · refine ⟨fun ⟨i, hi, _⟩ => absurd hi (List.not_mem_nil), ?_⟩
    rintro ⟨-, doc, hdoc, hinherited, -⟩
    have hsome : signatureFor c s classes f =
        some (Doc.signature s none (f.params.map Param.name) doc) :=
      (signatureFor_eq_some_iff hkind).mpr ⟨doc, hdoc, hinherited, rfl⟩
    cases hnone.symm.trans hsome
  · obtain ⟨doc, hdoc, hinherited, rfl⟩ := (signatureFor_eq_some_iff hkind).mp hsignature
    obtain ⟨hparams, hresults⟩ := Doc.over_signature
      (fun _ _ hread => And.intro (Doc.over_declared qualified_segmentwise hs.names hread)
        (Doc.resolved_eq_declared hread)) (f.params.map Param.name) doc
    have htypes : ∀ p ∈ f.params, ∀ t ∈ (Doc.typedParams s none doc).lookup p.name,
        t.declared.Qualified ∧ t.resolved = t.declared := fun p hp =>
      hparams _ (List.mem_map_of_mem (List.mem_map_of_mem hp))
    have hmap : (Doc.signature s none (f.params.map Param.name) doc).params =
        f.params.map fun p => (Doc.typedParams s none doc).lookup p.name := List.map_map
    rw [hmap]
    simp only [List.mem_append, or_and_right, exists_or, exists_relative_param_iff hs htypes,
      exists_relative_result_iff hs hresults hresult, ← and_or_left]
    refine and_congr_right fun _ => ⟨fun hgives => ⟨doc, hdoc, hinherited, hgives⟩, ?_⟩
    rintro ⟨doc', hdoc', -, hgives⟩
    cases hdoc.symm.trans hdoc'
    exact hgives

end Places

/-- A relative hint has a class around. -/
theorem around_ne_nil_of_relative {c : Context} {v : Visit} (hs : v.scope.WellNamed)
    {is : List Insertion} (h : planVisit c v = .ok is) {i : Insertion} (hi : i ∈ is)
    (hrelative : i.isRelative = true) : v.around ≠ [] := by
  intro hnone
  have hclasses : v.classes c.path = [] := by rw [Visit.classes, hnone, List.map_nil]
  rw [planVisit, hclasses] at h
  split at h
  · next f hitem =>
      by_cases hkind : f.kind = .method
      · have hsignature : signatureFor c v.scope [] f = none := by rw [signatureFor, hkind]; rfl
        rw [ofFunction_of_none hsignature] at h
        cases h
        cases hi
      · have hclass := ((exists_relative_iff hs hkind h).mp ⟨i, hi, hrelative⟩).1
        cases hclass
  · next p hitem =>
      cases h
      rcases ofProperty_cases c v.scope [] p with hempty | ⟨e, around, outer, -, hcons⟩
      · rw [hempty] at hi
        cases hi
      · cases hcons

end Insertion

/-- Where hints relative to a class stand, in a file whose names are well formed.  Each of
them is due for a declaration with a class-like around.  For a function-like other than a
method, a function inside a method too, there is one exactly if a class-like is around and its
doc comment gives one. -/
theorem relative_hints_placed {c : Insertion.Context} {f : FileOutline}
    (hnames : f.decls.WellNamed) {is : List Insertion}
    (hplan : Insertion.planFile c f = .ok is) :
    (∀ i ∈ is, i.isRelative = true → ∃ v ∈ f.decls.visits .start [], Insertion.DueAt c v i) ∧
      ∀ v ∈ f.decls.visits .start [],
        (∀ i, Insertion.DueAt c v i → i ∈ is) ∧
        (∀ i, Insertion.DueAt c v i → i.isRelative = true → v.around ≠ []) ∧
        ∀ head, v.item = .function head → head.kind ≠ .method →
          ((∃ i, Insertion.DueAt c v i ∧ i.isRelative = true) ↔
            v.around ≠ [] ∧ head.DocumentsRelative c.options v.scope) := by
  obtain ⟨hints, hhints, rfl⟩ := Insertion.planFile_eq_ok_iff.mp hplan
  refine ⟨fun i hi hrelative => ?_, fun v hv => ?_⟩
  · rcases List.mem_append.mp hi with hi | hi
    · -- The declaration of `strict_types` has no hint in it.
      rw [Insertion.ofFile] at hi
      split at hi
      · obtain ⟨position, -, rfl⟩ := Option.map_eq_some_iff.mp (Option.mem_toList.mp hi)
        cases hrelative
      · cases hi
    · exact exists_of_mem_gather hhints hi
  · have hs := hnames.visit Scope.wellNamed_start hv
    obtain ⟨here, hhere, hkept⟩ := mem_of_gather hhints hv
    have hdue : ∀ i, Insertion.DueAt c v i ↔ i ∈ here := by
      intro i
      refine ⟨?_, fun hi => ⟨here, hhere, hi⟩⟩
      rintro ⟨here', hhere', hi⟩
      cases hhere.symm.trans hhere'
      exact hi
    simp only [hdue]
    refine ⟨fun i hi => List.mem_append_right _ (hkept i hi),
      fun i hi hrelative => Insertion.around_ne_nil_of_relative hs hhere hi hrelative, ?_⟩
    intro head hitem hkind
    rw [Insertion.planVisit, hitem] at hhere
    refine (Insertion.exists_relative_iff hs hkind hhere).trans (and_congr_left fun _ => ?_)
    simp [Visit.classes]

/-- A function on its own and one inside a method, both documented with `self`. -/
def nestedSource : Text :=
  "<?php /** @return self */ function f()\x7b\x7d class A\x7bfunction m()\x7b".toList ++
    "/** @param parent|null $p @return self */function g($p)\x7b\x7d\x7d\x7d".toList

/-- The function on its own. -/
def outerFunction : FunctionHead :=
  ⟨.function, some "f".toList, 26, some "/** @return self */".toList, [], some 38, none⟩

/-- The function inside the method. -/
def innerFunction : FunctionHead :=
  ⟨.function, some "g".toList, 103, some "/** @param parent|null $p @return self */".toList,
    [⟨"p".toList, ⟨114, 116⟩, 114, none, false⟩], some 117, none⟩

/-- The class around it. -/
def outerClass : ClassHead := ⟨.ordinary, some "A".toList, 41, [], []⟩

/-- The outline of that source. -/
def nestedFile : FileOutline :=
  ⟨some ⟨0, 5⟩, none, false,
    .functionLike outerFunction .empty <|
    .classLike outerClass
      (.functionLike ⟨.method, some "m".toList, 49, none, [], some 61, none⟩
        (.functionLike innerFunction .empty .empty) .empty)
    .empty⟩

/-- The file on its own, with all that may be inserted. -/
def nestedContext : Insertion.Context :=
  ⟨.ofOutlines [("a.php".toList, nestedFile.decls)], fun _ => true, "a.php".toList⟩

/-- The way to the inner function. -/
def innerVisit : Visit := ⟨.start, [(outerClass, .start)], .function innerFunction⟩

/-- What is inserted. -/
def nestedPlan : List Insertion :=
  [.strictTypes 5, .parameter 114 (.named "parent".toList true) "?parent".toList,
    .result 117 (.named "self".toList false) "self".toList]

/-- The function outside of the class gets no relative hint, and the one in the method, which
gets two, documents them. -/
theorem relative_hints_placed_nested :
    Insertion.planFile nestedContext nestedFile = .ok nestedPlan ∧
      (∀ i, Insertion.DueAt nestedContext ⟨.start, [], .function outerFunction⟩ i →
        i.isRelative = false) ∧
      innerFunction.DocumentsRelative nestedContext.options innerVisit.scope := by
  have hplan : Insertion.planFile nestedContext nestedFile = .ok nestedPlan := by decide +kernel
  obtain ⟨-, hvisits⟩ := relative_hints_placed (by decide) hplan
  refine ⟨hplan, fun i hi => ?_, ?_⟩
  · obtain ⟨-, haround, -⟩ := hvisits _ List.mem_cons_self
    rw [← Bool.not_eq_true]
    exact fun hrelative => haround i hi hrelative rfl
  · have hinner : innerVisit ∈ nestedFile.decls.visits .start [] :=
      .tail _ (.tail _ List.mem_cons_self)
    obtain ⟨-, -, hexact⟩ := hvisits _ hinner
    have hdue : Insertion.DueAt nestedContext innerVisit
        (.result 117 (.named "self".toList false) "self".toList) :=
      ⟨nestedPlan.tail, by decide +kernel, by decide⟩
    exact ((hexact innerFunction rfl (by decide)).mp ⟨_, hdue, by decide⟩).2

/-- A function that is no method, and yet is hinted with `self`. -/
theorem function_in_method_hinted :
    Php.outline? nestedSource = some nestedFile ∧ innerVisit ∈ nestedFile.decls.visits .start [] ∧
      innerVisit.item = .function innerFunction ∧ innerFunction.kind = .function ∧
      ∃ i, Insertion.DueAt nestedContext innerVisit i ∧ i.isRelative = true := by
  refine ⟨by decide +kernel, .tail _ (.tail _ List.mem_cons_self), rfl, rfl, ?_⟩
  exact ⟨.result 117 (.named "self".toList false) "self".toList,
    ⟨nestedPlan.tail, by decide +kernel, by decide⟩, by decide⟩

end NativeHints
