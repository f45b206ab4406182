import NativeHints.Proofs.Annotated

/-!
# Removing what was added

Removal and insertion go through an outline in the same order but choose their
ranges on their own.  For a file without hints, whose added parameter hints are
all scalar, the ranges match: the removals from the annotated outline are the
added insertions, each undone (`removals_annotated`).  So removing gives back the
source, byte by byte.
-/

namespace NativeHints

open Insertion (at? startAfter endAfter)

/-! ## Scalar hints -/

namespace Text

theorem toLower_of_isBlank {c : Char} (h : isBlank c = true) : c.toLower = c := by
  rw [← Char.toNat_inj, toNat_toLower]
  simp only [isBlank, Bool.or_eq_true, Bool.and_eq_true, decide_eq_true_eq, beq_iff_eq] at h
  split <;> omega

end Text

namespace HintType

/-- A text that stands for a scalar kind, with or without a question mark. -/
def ScalarText (t : Text) : Prop :=
  ∃ kind ∈ scalarKinds, t.Same kind ∨ t.Same ('?' :: kind)

instance (t : Text) : Decidable (ScalarText t) :=
  inferInstanceAs (Decidable (∃ kind ∈ scalarKinds, t.Same kind ∨ t.Same ('?' :: kind)))

theorem scalarKinds_plain : ∀ kind ∈ scalarKinds,
    Text.lower kind = kind ∧ '?' ∉ kind ∧ kind.any Text.isBlank = false := by
  decide

/-- Reading a scalar kind drops nothing of it. -/
theorem trim_of_same_kind {t kind : Text} (hkind : kind ∈ scalarKinds) (h : t.Same kind) :
    Text.trim (t.dropLeading '?') = t := by
  obtain ⟨hlower, hmark, hblank⟩ := scalarKinds_plain kind hkind
  have hchars : t.lower = kind := Eq.trans h hlower
  have hmark' : '?' ∉ t := fun hc => hmark (hchars ▸ (Text.mem_lower_iff (by decide)).mpr hc)
  have hblank' : ∀ c ∈ t, Text.isBlank c = false := by
    intro c hc
    cases hc' : Text.isBlank c with
    | false => rfl
    | true =>
        have hmem : c ∈ kind := by
          rw [← hchars, ← Text.toLower_of_isBlank hc']
          exact List.mem_map_of_mem hc
        exact absurd hc' (List.any_eq_false.mp hblank c hmem)
  rw [Text.dropLeading_of_not_mem hmark', Text.trim_eq_self hblank']

end HintType

theorem WrittenHint.isScalar_of_scalarText {h : WrittenHint} (ht : HintType.ScalarText h.text) :
    h.isScalar = true := by
  obtain ⟨kind, hkind, hsame | hsame⟩ := ht
  · rw [isScalar, HintType.trim_of_same_kind hkind hsame, hsame.isOneOf_eq]
    exact List.any_eq_true.mpr ⟨kind, hkind, decide_eq_true (Text.Same.refl kind)⟩
  · obtain ⟨span, text, next⟩ := h
    cases text with
    | nil => cases hsame
    | cons c t =>
        obtain ⟨hc, hsame'⟩ := List.cons_eq_cons.mp hsame
        obtain rfl : c = '?' := (Text.toLower_eq_iff (by decide)).mp hc
        have hdrop : Text.dropLeading '?' ('?' :: t) = Text.dropLeading '?' t := rfl
        rw [isScalar, hdrop, HintType.trim_of_same_kind hkind hsame', Text.Same.isOneOf_eq hsame']
        exact List.any_eq_true.mpr ⟨kind, hkind, decide_eq_true (Text.Same.refl kind)⟩

/-! ## The removals from an annotated outline -/

/-- The deletion of one of the insertions, when all have been made. -/
def Insertion.undone (is : List Insertion) (i : Insertion) : Edit :=
  Edit.undo (is.map Insertion.edit) 0 i.edit

theorem Insertion.undone_eq (is : List Insertion) (i : Insertion) :
    i.undone is = .delete (endAfter is i.position) i.text.size := by
  rw [undone, Edit.undo, position_edit, text_edit, Nat.zero_add, endAfter]

theorem Insertion.size_text_parameter (position : Nat) (type : HintType) (written : Text) :
    (parameter position type written).text.size = written.size + 1 := by
  have hgap : Text.size [' '] = 1 := by decide
  rw [← hgap, ← Text.size_append]
  rfl

theorem Insertion.size_text_result (position : Nat) (type : HintType) (written : Text) :
    (result position type written).text.size = 3 + written.size := by
  have hcolon : Text.size " : ".toList = 3 := by decide
  rw [← hcolon, ← Text.size_append]
  rfl

/-- No parameter and no result has a hint. -/
def FunctionHead.Unhinted (f : FunctionHead) : Prop :=
  (∀ p ∈ f.params, p.hint = none) ∧ f.result = none

instance (f : FunctionHead) : Decidable f.Unhinted :=
  inferInstanceAs (Decidable ((∀ p ∈ f.params, p.hint = none) ∧ f.result = none))

namespace Removal

variable {is : List Insertion}

theorem ofParam_annotated {p : Param} (hnone : p.hint = none)
    (hscalar : ∀ i ∈ is, i.isParameter = true → HintType.ScalarText i.written) :
    ofParam (p.annotated is) = (p.place?.bind (at? is)).toList.map (Insertion.undone is) := by
  have hplace : p.place? = some (.parameter p.hintAt) := by simp only [Param.place?, hnone]
  rw [hplace, Option.bind_some]
  cases hi : at? is (.parameter p.hintAt) with
  | none =>
      have hhint : (p.annotated is).hint = none := by rw [Param.hint_annotated is hnone, hi]; rfl
      rw [ofParam, hhint]
      rfl
  | some i =>
      have hmem := Insertion.mem_of_at? hi
      cases i with
      | parameter position type written =>
          obtain rfl : position = p.hintAt := by
            cases Insertion.place_of_at? hi
            rfl
          have hhint : (p.annotated is).hint = some (.new (endAfter is p.hintAt) written 1) := by
            rw [Param.hint_annotated is hnone, hi]
            rfl
          have hkind : (WrittenHint.new (endAfter is p.hintAt) written 1).isScalar = true :=
            WrittenHint.isScalar_of_scalarText (hscalar _ hmem rfl)
          rw [ofParam, hhint]
          simp only [hkind, if_true, Option.toList_some, List.map_cons, List.map_nil,
            Insertion.undone_eq, Insertion.size_text_parameter, Insertion.position]
          simp only [WrittenHint.new, Nat.add_assoc, Edit.deleteRange_add]
      | strictTypes position => cases Insertion.place_of_at? hi
      | result position type written => cases Insertion.place_of_at? hi
      | property position type written => cases Insertion.place_of_at? hi

theorem ofResult_annotated (path : Text) {f : FunctionHead} (hnone : f.result = none) :
    ofResult path (f.annotated is) =
      .ok ((f.resultPlace?.bind (at? is)).toList.map (Insertion.undone is)) := by
  cases hend : f.signatureEnd with
  | none =>
      have hplace : f.resultPlace? = none := by rw [FunctionHead.resultPlace?, hnone, hend]; rfl
      have hresult : (f.annotated is).result = none := by
        rw [FunctionHead.annotated, FunctionHead.annotatedResult, hnone, hend]
      rw [ofResult, hresult, hplace]
      rfl
  | some e =>
      have hplace : f.resultPlace? = some (.result e) := by
        rw [FunctionHead.resultPlace?, hnone, hend]; rfl
      have hend' : (f.annotated is).signatureEnd = some (endAfter is e) := by
        rw [FunctionHead.annotated, hend]; rfl
      have hresult : (f.annotated is).result =
          (at? is (.result e)).map fun i => .new (endAfter is e + 3) i.written 0 :=
        FunctionHead.annotatedResult_of_end is hnone hend
      rw [hplace, Option.bind_some, ofResult, hend']
      cases hi : at? is (.result e) with
      | none => rw [hresult, hi]; rfl
      | some i =>
          rw [hresult, hi]
          cases i with
          | result position type written =>
              obtain rfl : position = e := by
                cases Insertion.place_of_at? hi
                rfl
              simp only [Option.map_some, Insertion.written, WrittenHint.new, Nat.add_assoc,
                Edit.deleteRange_add, Option.toList_some, List.map_cons, List.map_nil,
                Insertion.undone_eq, Insertion.size_text_result, Insertion.position]
          | strictTypes position => cases Insertion.place_of_at? hi
          | parameter position type written => cases Insertion.place_of_at? hi
          | property position type written => cases Insertion.place_of_at? hi

theorem ofFunction_annotated (path : Text) {f : FunctionHead} (hf : f.Unhinted)
    (hscalar : ∀ i ∈ is, i.isParameter = true → HintType.ScalarText i.written) :
    ∃ es, ofFunction path (f.annotated is) = .ok es ∧
      es.Perm ((f.places.filterMap (at? is)).map (Insertion.undone is)) := by
  obtain ⟨hparams, hresult⟩ := hf
  have hflat : (f.annotated is).params.flatMap ofParam =
      ((f.params.filterMap Param.place?).filterMap (at? is)).map (Insertion.undone is) := by
    rw [FunctionHead.annotated, List.flatMap_map, List.filterMap_filterMap,
      List.filterMap_eq_flatMap_toList, List.map_flatMap]
    exact List.flatMap_congr fun p hp => ofParam_annotated (hparams p hp) hscalar
  have hlast : (f.resultPlace?.bind (at? is)).toList =
      f.resultPlace?.toList.filterMap (at? is) := by
    cases f.resultPlace? with
    | none => rfl
    | some p => rw [Option.bind_some, Option.toList_some, List.filterMap_eq_flatMap_toList]; simp
  refine ⟨(f.resultPlace?.toList.filterMap (at? is)).map (Insertion.undone is) ++
    ((f.params.filterMap Param.place?).filterMap (at? is)).map (Insertion.undone is), ?_, ?_⟩
  · rw [ofFunction, ofResult_annotated path hresult, hflat, hlast]
    rfl
  · rw [FunctionHead.places, List.filterMap_append, List.map_append]
    exact List.perm_append_comm

/-- The removals from an annotated outline are the insertions undone, in some order. -/
theorem removals_annotated (path : Text) {options : Options}
    (hproperty : options .propertyTypes = false)
    (hscalar : ∀ i ∈ is, i.isParameter = true → HintType.ScalarText i.written)
    (vs : List Visit) (hvs : ∀ v ∈ vs, ∀ head, v.item = .function head → head.Unhinted) :
    ∃ es, gather (planVisit path) (vs.map (Visit.annotated is)) = .ok es ∧
      es.Perm (((vs.flatMap (Visit.places options)).filterMap (at? is)).map
        (Insertion.undone is)) := by
  induction vs with
  | nil => exact ⟨[], rfl, .refl _⟩
  | cons v vs ih =>
      obtain ⟨there, hthere, hperm⟩ := ih fun w hw => hvs w (List.mem_cons_of_mem _ hw)
      have hhere : ∃ here, planVisit path (v.annotated is) = .ok here ∧
          here.Perm (((v.places options).filterMap (at? is)).map (Insertion.undone is)) := by
        obtain ⟨s, around, item⟩ := v
        cases item with
        | function head =>
            exact ofFunction_annotated path (hvs _ (List.mem_cons_self ..) head rfl) hscalar
        | property decl =>
            refine ⟨[], rfl, ?_⟩
            simp [Visit.places, hproperty]
      obtain ⟨here, hhere, hperm'⟩ := hhere
      refine ⟨here ++ there, gather_cons_eq_ok.mpr ⟨here, there, hhere, hthere, rfl⟩, ?_⟩
      rw [List.flatMap_cons, List.filterMap_append, List.map_append]
      exact hperm'.append hperm

end Removal

/-! ## Undoing -/

theorem stripHints_eq_ok {path source out : Text} {f : FileOutline} {es : List Edit}
    (hplan : Removal.plan path f.decls = .ok es) (hout : Edit.applyAll source es = .ok out) :
    stripHints path source f = .ok out := by
  rw [stripHints, hplan]
  simp only [bind, Except.bind, hout]
  rfl

/-- Removing undoes the addition of result hints and of scalar parameter hints.  It gives
back every byte of a source that had no hints on its function-likes. -/
theorem stripHints_addHints {c : Insertion.Context} {source out path : Text} {f : FileOutline}
    {is : List Insertion} (hstrict : c.options .strictTypes = false)
    (hproperty : c.options .propertyTypes = false)
    (hunhinted : ∀ head ∈ f.decls.functions, head.Unhinted)
    (hdistinct : ((f.places c.options).map Place.position).Nodup)
    (hplan : Insertion.planFile c f = .ok is)
    (hscalar : ∀ i ∈ is, i.isParameter = true → HintType.ScalarText i.written)
    (hout : addHints c source f = .ok out) :
    stripHints path out (f.annotated is) = .ok source := by
  obtain ⟨is', hplan', happly⟩ := addHints_eq_ok_iff.mp hout
  obtain rfl : is' = is := by
    rw [hplan] at hplan'
    cases hplan'
    rfl
  have hplaces : f.places c.options =
      (f.decls.visits .start []).flatMap (Visit.places c.options) := by
    rw [FileOutline.places, hstrict, ← Outline.places_eq_flatMap]
    rfl
  have hsub := Insertion.planFile_places hplan
  obtain ⟨es, hes, hperm⟩ := Removal.removals_annotated path hproperty hscalar
    (f.decls.visits .start [])
    fun v hv head hhead => hunhinted head (Outline.mem_functions_of_visit hv hhead)
  rw [← hplaces, Insertion.filterMap_at? hsub hdistinct.of_map] at hperm
  have hremovals : Removal.plan path (f.annotated is').decls = .ok es := by
    rw [FileOutline.annotated, Removal.plan_eq_gather path _ .start [], ← hes]
    exact congrArg _ (Outline.visits_annotated is' f.decls .start [])
  -- in order, they are the insertions in order, each undone
  have hinc := Edit.sort_increasing (Insertion.planFile_nodup hplan hdistinct)
  have hsorted := Edit.sort_perm (is'.map Insertion.edit)
  have hsort : Edit.sort es =
      (Edit.sort (is'.map Insertion.edit)).map (Edit.undo (is'.map Insertion.edit) 0) := by
    refine Edit.sort_eq_of_increasing ?_ (hinc.map_undo _ 0)
    refine (hsorted.map _).trans ?_
    rw [List.map_map]
    exact hperm.symm
  have hyields : Edit.Yields 0 out (Edit.sort es) source := by
    rw [hsort, ← Edit.undo_perm hsorted]
    exact (Edit.applyAll_eq_ok_iff.mp happly).undo (Insertion.onlyInserts_sort is') hinc 0
  exact stripHints_eq_ok hremovals (Edit.applyAll_eq_ok_iff.mpr hyields)

/-- A file with an arrow function that gives another. -/
def arrowSource : Text := "<?php fn($a, $b) => fn($c) => 0;".toList

/-- Its outline, with the doc comments of the two. -/
def arrowOutline : FileOutline :=
  ⟨some ⟨0, 5⟩, none, false,
    .functionLike
      ⟨.arrow, none, 6,
        some "@param int $a @param string|null $b @return \\A\\B".toList,
        [⟨"a".toList, ⟨9, 11⟩, 9, none, false⟩, ⟨"b".toList, ⟨13, 15⟩, 13, none, false⟩],
        some 16, none⟩
      (.functionLike
        ⟨.arrow, none, 20, some "@param boolean $c".toList,
          [⟨"c".toList, ⟨23, 25⟩, 23, none, false⟩], some 26, none⟩
        .empty .empty)
      .empty⟩

/-- No classes, and nothing but nullable types allowed. -/
def arrowContext : Insertion.Context :=
  ⟨.empty, fun feature => feature = .nullableTypes, "arrow.php".toList⟩

/-- The insertions for it. -/
def arrowPlan : List Insertion :=
  [.parameter 9 (.named "int".toList false) "int".toList,
    .parameter 13 (.named "string".toList true) "?string".toList,
    .result 16 (.named "A\\B".toList false) "A\\B".toList,
    .parameter 23 (.named "bool".toList false) "bool".toList]

/-- Four hints are added to two nested arrow functions, and removing gives the source back. -/
theorem stripHints_addHints_arrow :
    addHints arrowContext arrowSource arrowOutline =
        .ok "<?php fn(int $a, ?string $b) : A\\B => fn(bool $c) => 0;".toList ∧
      stripHints "arrow.php".toList
          "<?php fn(int $a, ?string $b) : A\\B => fn(bool $c) => 0;".toList
          (arrowOutline.annotated arrowPlan) = .ok arrowSource := by
  have hplan : Insertion.planFile arrowContext arrowOutline = .ok arrowPlan := by
    decide +kernel
  have happly : Edit.applyAll arrowSource (arrowPlan.map Insertion.edit) =
      .ok "<?php fn(int $a, ?string $b) : A\\B => fn(bool $c) => 0;".toList := by
    decide +kernel
  have hout := addHints_eq_ok_iff.mpr ⟨arrowPlan, hplan, happly⟩
  exact ⟨hout, stripHints_addHints rfl rfl (by decide) (by decide) hplan (by decide) hout⟩

end NativeHints
