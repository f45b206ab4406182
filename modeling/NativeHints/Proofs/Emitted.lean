import NativeHints.Proofs.WellNamed
import NativeHints.Proofs.Places

/-!
# Emitted hints are well formed

A native hint is a path of segments, behind a backslash perhaps, and a question mark
in front of it all if it is nullable (`Text.IsHint`).  In well-named code every
hint that is inserted is one.  The effective type has a path to write, and so has
a type that a function documents itself.  The shortest spelling is a path too, for it
is the whole name, the end of it, or a segment put in front of the end.

A path has no `@` in it.  So the made-up name of an anonymous class is never
inserted.
-/

namespace NativeHints

/-! ## Hints -/

namespace Text

/-- Segments of a name with single backslashes between them. -/
inductive IsPath : Text → Prop where
  /-- One segment. -/
  | segment {t : Text} : Doc.isSegment t = true → IsPath t
  /-- A segment in front of others. -/
  | cons {first rest : Text} : Doc.isSegment first = true → IsPath rest →
      IsPath (first ++ '\\' :: rest)

/-- A native hint: a path, behind a backslash perhaps and behind a question mark perhaps. -/
def IsHint (t : Text) : Prop :=
  ∃ mark root path : Text, (mark = [] ∨ mark = ['?']) ∧ (root = [] ∨ root = ['\\']) ∧
    path.IsPath ∧ t = mark ++ root ++ path

theorem IsPath.append {a b : Text} (ha : a.IsPath) (hb : b.IsPath) : IsPath (a ++ '\\' :: b) := by
  induction ha with
  | segment h => exact .cons h hb
  | cons h _ ih =>
      rw [List.append_assoc, List.cons_append]
      exact .cons h ih

theorem isPath_iff {t : Text} : t.IsPath ↔ t.Qualified := by
  constructor
  · intro h
    induction h with
    | segment h => exact qualified_segmentwise.segment h
    | cons h _ ih =>
        exact qualified_segmentwise.append_iff.mpr ⟨qualified_segmentwise.segment h, ih⟩
  · exact segments_induction .segment .append

theorem exists_isPath_of_rooted {t : Text} (h : Rooted Qualified t) :
    ∃ root path : Text, (root = [] ∨ root = ['\\']) ∧ path.IsPath ∧ t = root ++ path := by
  rcases h with h | ⟨path, rfl, h⟩
  · exact ⟨[], t, .inl rfl, isPath_iff.mpr h, rfl⟩
  · exact ⟨['\\'], path, .inr rfl, isPath_iff.mpr h, rfl⟩

theorem IsHint.plain {t : Text} (h : t.IsHint) : t.Plain := by
  obtain ⟨mark, root, path, hmark, hroot, hpath, rfl⟩ := h
  have hplain : path.Plain := (isPath_iff.mp hpath).of plain_segmentwise
  rcases hmark with rfl | rfl <;> rcases hroot with rfl | rfl <;> simpa [Plain] using hplain

end Text

open Text (Qualified qualified_segmentwise)

/-! ## Spellings -/

namespace Scope

variable {s : Scope} (hs : s.WellNamed)

include hs

/-- The shortest spelling of a path is a path, or the full name behind a backslash. -/
theorem rooted_shortest {name : Text} (hname : name.Qualified) :
    Text.Rooted Qualified (s.shortest name) := by
  have hmem := s.shortest_mem (hname.of Text.segmented_segmentwise)
  generalize s.shortest name = spelling at hmem
  obtain h | rfl | ⟨front, rfl⟩ | ⟨a, ha, rfl | ⟨front, rest, rfl, rfl⟩⟩ :=
    candidates_cases (List.mem_filter.mp hmem).1
  · exact .inr ⟨name, h, hname⟩
  · exact .inl hname
  · exact .inl (qualified_segmentwise.append_iff.mp hname).2
  · exact .inl (qualified_segmentwise.segment (hs.aliases a ha))
  · have hrest := (qualified_segmentwise.append_iff.mp hname).2
    have halias := qualified_segmentwise.segment (hs.aliases a ha)
    exact .inl (qualified_segmentwise.append_iff.mpr ⟨halias, hrest⟩)

/-- A type with a path to write is shown as a hint. -/
theorem isHint_display {t : HintType} (ht : t.declared.Qualified) : (s.display t).IsHint := by
  have hname : Text.Rooted Qualified
      (if t.isClass && !t.isRelative then s.shortest t.declared else t.declared) := by
    split
    · exact rooted_shortest hs ht
    · exact .inl ht
  obtain ⟨root, path, hroot, hpath, heq⟩ := Text.exists_isPath_of_rooted hname
  simp only [display, heq]
  split
  · exact ⟨['?'], root, path, .inr rfl, hroot, hpath, rfl⟩
  · exact ⟨[], root, path, .inl rfl, hroot, hpath, rfl⟩

end Scope

/-! ## Insertions -/

namespace Insertion

/-- The text to insert is a hint, with what separates it from its surroundings, or the
declaration of `strict_types`. -/
def WellFormed (i : Insertion) : Prop :=
  match i with
  | .strictTypes _ => i.text = " declare(strict_types=1);".toList
  | .result .. => ∃ hint : Text, i.text = " : ".toList ++ hint ∧ hint.IsHint
  | .parameter .. | .property .. => ∃ hint : Text, i.text = hint ++ [' '] ∧ hint.IsHint

theorem WellFormed.plain {i : Insertion} (h : i.WellFormed) : i.text.Plain := by
  cases i with
  | strictTypes position =>
      show Text.Plain " declare(strict_types=1);".toList
      decide
  | parameter position type written =>
      obtain ⟨hint, htext, hhint⟩ := h
      simpa [htext, Text.Plain] using hhint.plain
  | result position type written =>
      obtain ⟨hint, htext, hhint⟩ := h
      simpa [htext, Text.Plain] using hhint.plain
  | property position type written =>
      obtain ⟨hint, htext, hhint⟩ := h
      simpa [htext, Text.Plain] using hhint.plain

theorem declared_of_parameterType? {options : Options} {inClass : Bool} {p : Param}
    {u t : HintType} (h : parameterType? options inClass p u = some t) :
    t.declared = u.declared := by
  rw [parameterType?_eq] at h
  obtain ⟨rfl, -⟩ := resultType?_eq_some_iff.mp h
  split <;> rfl

section Visit

variable {c : Context} {s : Scope} (hs : s.WellNamed)

include hs

theorem wellFormed_ofParams (options : Options) (inClass : Bool) (ps : List Param)
    {types : List (Option HintType)}
    (htypes : ∀ type ∈ types, ∀ t ∈ type, t.declared.Qualified) :
    ∀ i ∈ ofParams options inClass s ps types, i.WellFormed := by
  induction ps, types using ofParams.induct with
  | case1 types => intro i hi; cases hi
  | case2 ps hne => intro i hi; rw [ofParams] at hi; cases hi; exact hne
  | case3 p ps type types ih =>
      intro i hi
      rw [ofParams] at hi
      rcases List.mem_append.mp hi with hi | hi
      · have hparam := Option.mem_toList.mp hi
        rw [ofParam?_eq] at hparam
        obtain ⟨t, hdue, rfl⟩ := Option.map_eq_some_iff.mp hparam
        obtain ⟨-, u, rfl, ht⟩ := due_eq_some_iff.mp hdue
        have hu : u.declared.Qualified := htypes _ (List.mem_cons_self ..) u rfl
        rw [← declared_of_parameterType? ht] at hu
        exact ⟨_, rfl, Scope.isHint_display hs hu⟩
      · exact ih (fun type h => htypes type (List.mem_cons_of_mem _ h)) i hi

theorem wellFormed_ofResult {classes : List Text} {f : FunctionHead} {type : Option HintType}
    (htype : ∀ t ∈ type, t.declared.Qualified) {is : List Insertion}
    (h : ofResult c s classes f type = .ok is) : ∀ i ∈ is, i.WellFormed := by
  rw [ofResult_eq] at h
  split at h
  · cases h
    intro i hi
    cases hi
  · next t position hdue hend =>
      cases h
      obtain ⟨-, u, rfl, ht⟩ := due_eq_some_iff.mp hdue
      obtain ⟨rfl, -⟩ := resultType?_eq_some_iff.mp ht
      intro i hi
      rw [List.mem_singleton.mp hi]
      exact ⟨_, rfl, Scope.isHint_display hs (htype u rfl)⟩
  · cases h

/-- The types that a function-like is hinted with have paths to write. -/
theorem over_signatureFor (hg : c.graph.WellNamed) {classes : List Text} {f : FunctionHead}
    {signature : Signature} (h : signatureFor c s classes f = some signature) :
    signature.Over fun t => t.declared.Qualified := by
  rw [signatureFor.eq_def] at h
  split at h
  · obtain ⟨around, -, h⟩ := Option.bind_eq_some_iff.mp h
    obtain ⟨name, -, h⟩ := Option.bind_eq_some_iff.mp h
    exact hg.over_signature? h
  · obtain ⟨doc, -, h⟩ := Option.bind_eq_some_iff.mp h
    split at h
    · cases h
    · cases h
      exact Doc.over_signature
        (fun _ _ hread => Doc.over_declared qualified_segmentwise hs.names hread) _ _

theorem wellFormed_ofFunction (hg : c.graph.WellNamed) {classes : List Text} {f : FunctionHead}
    {is : List Insertion} (h : ofFunction c s classes f = .ok is) : ∀ i ∈ is, i.WellFormed := by
  rcases ofFunction_eq_ok_iff.mp h with ⟨-, rfl⟩ | ⟨signature, result, hsignature, hresult, rfl⟩
  · intro i hi
    cases hi
  · have hover := over_signatureFor hs hg hsignature
    exact List.forall_mem_append.mpr
      ⟨wellFormed_ofParams hs _ _ _ hover.1, wellFormed_ofResult hs hover.2 hresult⟩

theorem wellFormed_ofProperty (hg : c.graph.WellNamed) (classes : List Text) (p : Property) :
    ∀ i ∈ ofProperty c s classes p, i.WellFormed := by
  intro i hi
  rcases ofProperty_cases c s classes p with hnone | ⟨e, around, outer, helements, rfl⟩
  · rw [hnone] at hi
    cases hi
  · rw [ofProperty_of_single c s around outer helements] at hi
    obtain ⟨t, hdue, rfl⟩ := Option.map_eq_some_iff.mp (Option.mem_toList.mp hi)
    obtain ⟨-, u, hu, ht⟩ := due_eq_some_iff.mp hdue
    obtain ⟨rfl, -⟩ := propertyType?_eq_some_iff.mp ht
    exact ⟨_, rfl, Scope.isHint_display hs (hg.qualified_property? hu)⟩

end Visit

/-- The plan of a well-named file, in a well-named hierarchy. -/
theorem wellFormed_planFile {c : Context} (hg : c.graph.WellNamed) {f : FileOutline}
    (hf : f.decls.WellNamed) {is : List Insertion} (h : planFile c f = .ok is) :
    ∀ i ∈ is, i.WellFormed := by
  obtain ⟨hints, hhints, rfl⟩ := planFile_eq_ok_iff.mp h
  refine List.forall_mem_append.mpr ⟨fun i hi => ?_, fun i hi => ?_⟩
  · rw [ofFile] at hi
    split at hi
    · obtain ⟨position, -, rfl⟩ := Option.map_eq_some_iff.mp (Option.mem_toList.mp hi)
      rfl
    · cases hi
  · obtain ⟨v, hv, here, hplan, hi⟩ := exists_of_mem_gather hhints hi
    have hs := hf.visit Scope.wellNamed_start hv
    rw [planVisit] at hplan
    split at hplan
    · exact wellFormed_ofFunction hs hg hplan i hi
    · cases hplan
      exact wellFormed_ofProperty hs hg _ _ i hi

end Insertion

/-- Every emitted hint is well formed.  If all names that the files of a code base write
outside of doc comments are, then each text that is inserted into one of them is a native
hint with its separator, or the declaration of `strict_types`, whatever the doc comments say
and the features are.  The made-up name of an anonymous class is never part of it. -/
theorem emitted_hints_well_formed {files : List (Text × Outline)}
    (hfiles : ∀ file ∈ files, file.2.WellNamed) {path : Text} {f : FileOutline}
    (hfile : (path, f.decls) ∈ files) (options : Options) {source out : Text}
    (h : addHints ⟨.ofOutlines files, options, path⟩ source f = .ok out) :
    ∃ is, Insertion.planFile ⟨.ofOutlines files, options, path⟩ f = .ok is ∧
      Edit.applyAll source (is.map Insertion.edit) = .ok out ∧
      ∀ i ∈ is, i.WellFormed ∧ ∀ path' start, ¬ anonymousName path' start <:+: i.text := by
  obtain ⟨is, hplan, hout⟩ := addHints_eq_ok_iff.mp h
  refine ⟨is, hplan, hout, fun i hi => ?_⟩
  have hformed := Insertion.wellFormed_planFile (Graph.wellNamed_ofOutlines hfiles)
    (hfiles _ hfile) hplan i hi
  refine ⟨hformed, fun path' start hinfix => ?_⟩
  exact not_plain_anonymousName path' start (Text.plain_of_subset hinfix.subset hformed.plain)

/-- A class, and an anonymous one that extends it and documents `self`. -/
def selfSource : Text :=
  "<?php namespace App; use Lib\\Base as B; class Root \x7b /** @return self */ ".toList ++
    "function me() \x7b\x7d \x7d new class extends Root \x7b ".toList ++
    "/** @param self $a @return Root */ function me($a) \x7b\x7d ".toList ++
    "/** @var B\\Item|null */ public $p; \x7d;".toList

/-- The outline of that source. -/
def selfFile : FileOutline :=
  ⟨some ⟨0, 5⟩, none, false,
    .namespaceLine (some "App".toList) <|
    .imports [⟨.classes, "Lib\\Base".toList, "B".toList⟩] <|
    .classLike ⟨.ordinary, some "Root".toList, 40, [], []⟩
      (.functionLike
        ⟨.method, some "me".toList, 73, some "/** @return self */".toList, [], some 86, none⟩
        .empty .empty) <|
    .classLike ⟨.anonymous, none, 96, ["Root".toList], []⟩
      (.functionLike
        ⟨.method, some "me".toList, 152, some "/** @param self $a @return Root */".toList,
          [⟨"a".toList, ⟨164, 166⟩, 164, none, false⟩], some 167, none⟩ .empty <|
      .property ⟨some "/** @var B\\Item|null */".toList, none, [⟨"p".toList, 202⟩]⟩ .empty)
    .empty⟩

/-- All that may be inserted in it.  The parameter means the anonymous class. -/
def selfPlan : List Insertion :=
  [.strictTypes 5, .result 86 ⟨"self".toList, "App\\Root".toList, false⟩ "self".toList,
    .parameter 164 ⟨"self".toList, anonymousName "a.php".toList 96, false⟩ "self".toList,
    .result 167 (.named "App\\Root".toList false) "Root".toList,
    .property 202 (.named "Lib\\Base\\Item".toList true) "?B\\Item".toList]

/-- All that may be inserted in the file is well formed, and no name of an anonymous class is
part of it. -/
theorem emitted_hints_well_formed_self :
    Insertion.planFile ⟨.ofOutlines [("a.php".toList, selfFile.decls)], fun _ => true,
      "a.php".toList⟩ selfFile = .ok selfPlan ∧
    ∀ i ∈ selfPlan, i.WellFormed ∧ ∀ path' start, ¬ anonymousName path' start <:+: i.text := by
  have hplan : Insertion.planFile ⟨.ofOutlines [("a.php".toList, selfFile.decls)], fun _ => true,
      "a.php".toList⟩ selfFile = .ok selfPlan := by decide +kernel
  have hplaces : ∀ p ∈ selfFile.places fun _ => true, selfSource.isBoundary p.position = true := by
    decide +kernel
  obtain ⟨out, hout⟩ := Insertion.exists_applyAll_of_plan hplan hplaces
  have hnamed : ∀ file ∈ [("a.php".toList, selfFile.decls)], file.2.WellNamed := by
    intro file hfile
    rw [List.mem_singleton.mp hfile]
    decide
  obtain ⟨is, his, -, hformed⟩ := emitted_hints_well_formed hnamed (List.mem_singleton_self _)
    (fun _ => true) (addHints_eq_ok_iff.mpr ⟨selfPlan, hplan, hout⟩)
  cases hplan.symm.trans his
  exact ⟨hplan, hformed⟩

end NativeHints
