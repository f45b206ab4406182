import NativeHints.Codebase.Sources
import NativeHints.Proofs.MoreFeatures
import NativeHints.Proofs.Replan

/-!
# Adding hints in steps

Hints may be added to a code base with few features first and with more later.
The second time, the hierarchy is built from the annotated files: positions have
moved, anonymous classes have got other names, and hints stand where none stood.
The texts are still those of adding with all features at once
(`addHints_annotateAll`).  So adding twice is adding once.
-/

namespace NativeHints

namespace Insertion

/-! ## Part of a plan -/

section Part

variable {is all : List Insertion} (hpart : is.Sublist all)
  (hdistinct : (all.map position).Nodup)

include hpart hdistinct

theorem position_mem_iff {i : Insertion} (hi : i ∈ all) :
    i.position ∈ is.map position ↔ i ∈ is := by
  constructor
  · intro h
    obtain ⟨j, hj, hposition⟩ := List.mem_map.mp h
    rwa [← List.inj_on_of_nodup_map hdistinct (hpart.subset hj) hi hposition]
  · exact List.mem_map_of_mem

/-- Part of a plan is found in it by the positions. -/
theorem filter_position_mem : (all.filter fun i => i.position ∈ is.map position) = is := by
  refine (List.Sublist.eq_of_length_le ?_ ?_).symm
  · have hself : (is.filter fun i => i.position ∈ is.map position) = is := by
      refine List.filter_eq_self.mpr fun i hi => ?_
      exact decide_eq_true (List.mem_map_of_mem hi)
    have hfilter := hpart.filter fun i => decide (i.position ∈ is.map position)
    rwa [hself] at hfilter
  · have hnodup : (all.filter fun i => i.position ∈ is.map position).Nodup :=
      (List.Nodup.of_map _ hdistinct).filter _
    refine (hnodup.subperm ?_).length_le
    intro i hi
    obtain ⟨hall, hposition⟩ := List.mem_filter.mp hi
    exact (position_mem_iff hpart hdistinct hall).mp (of_decide_eq_true hposition)

/-- What is left of a plan when part of it has been carried out is the other part. -/
theorem left_of_part :
    left is all = ((all.map edit).filter fun e => !decide (e.position ∈ is.map position)).map
      (Edit.after (is.map edit) 0) := by
  rw [left, List.filter_map, List.map_map]
  refine congrArg (List.map _) (List.filter_congr ?_)
  intro i hi
  cases hfound : at? is i.place with
  | none =>
      have hnot : i.position ∉ is.map position := by
        intro h
        have hi' := (position_mem_iff hpart hdistinct hi).mp h
        exact at?_eq_none_iff.mp hfound (List.mem_map_of_mem hi')
      exact (congrArg not (decide_eq_false hnot)).symm
  | some j =>
      have hposition : j.position = i.position := by
        rw [← position_place, ← position_place, place_of_at? hfound]
      have h : i.position ∈ is.map position := hposition ▸ List.mem_map_of_mem (mem_of_at? hfound)
      exact (congrArg not (decide_eq_true h)).symm

/-- Carrying out part of a plan and then what is left of it is carrying out the plan. -/
theorem applyAll_left {source mid out : Text} (hmid : Edit.applyAll source (is.map edit) = .ok mid)
    (hout : Edit.applyAll source (all.map edit) = .ok out) :
    Edit.applyAll mid (left is all) = .ok out := by
  have hedits : ((all.map edit).filter fun e => decide (e.position ∈ is.map position)) =
      is.map edit := by
    rw [List.filter_map]
    exact congrArg (List.map edit) (filter_position_mem hpart hdistinct)
  have hpositions : ((all.map edit).map Edit.position).Nodup := by
    rw [List.map_map]
    exact hdistinct
  rw [← hedits] at hmid
  have hafter := Edit.applyAll_after (onlyInserts_map_edit all) hpositions _ hmid hout
  rwa [hedits, ← left_of_part hpart hdistinct] at hafter

end Part

end Insertion

/-! ## One file -/

/-- A file that is ready for hints: its names are plain, and its places are apart,
between characters and not in front of the open tag's end. -/
structure FileOutline.Ready (options : Options) (text : Text) (f : FileOutline) : Prop where
  plain : f.decls.Plain
  apart : ((f.places options).map Place.position).Nodup
  boundary : ∀ p ∈ f.places options, text.isBoundary p.position = true
  behind : ∀ tag ∈ f.openTag, ∀ p ∈ f.places options, tag.stop ≤ p.position

section File

variable {options more : Options} (hmore : ∀ feature, options feature = true → more feature = true)

include hmore

theorem FileOutline.Ready.of_more {text : Text} {f : FileOutline} (h : f.Ready more text) :
    f.Ready options text := by
  have hplaces := f.places_of_more hmore
  exact ⟨h.plain, h.apart.sublist (hplaces.map _), fun p hp => h.boundary p (hplaces.subset hp),
    fun tag htag p hp => h.behind tag htag p (hplaces.subset hp)⟩

section Again

variable {changes : Changes} {g g' : Graph} (hgraph : GraphTwin changes g g')
  {path text : Text} {f : FileOutline} (hready : f.Ready more text) {is : List Insertion}
  (hfile : (path, is) ∈ changes) (hplan : Insertion.planFile ⟨g, options, path⟩ f = .ok is)

include hgraph hready hfile hplan

/-- Planning with more features for a file that has got hints gives what is left. -/
theorem planFile_again :
    (Insertion.planFile ⟨g', more, path⟩ (f.annotated is)).toOption.map
        (List.map Insertion.edit) =
      (Insertion.planFile ⟨g, more, path⟩ f).toOption.map (Insertion.left is) := by
  have hplaces : ∀ i ∈ is, i.place ∈ f.places more := by
    intro i hi
    exact (f.places_of_more hmore).subset
      ((Insertion.planFile_places hplan).subset (List.mem_map_of_mem hi))
  refine Insertion.planFile_annotated hfile hgraph hready.plain hplaces ?_ ?_
  · intro p hp i hi hposition
    exact List.inj_on_of_nodup_map hready.apart (hplaces i hi) hp
      ((Insertion.position_place i).trans hposition)
  · intro tag htag i hi
    rw [← Insertion.position_place]
    exact hready.behind tag htag _ (hplaces i hi)

/-- Adding hints to a file that has got some gives the text of adding all at once. -/
theorem addHints_annotated {mid : Text}
    (hmid : Edit.applyAll text (is.map Insertion.edit) = .ok mid) (out : Text) :
    addHints ⟨g', more, path⟩ mid (f.annotated is) = .ok out ↔
      addHints ⟨g, more, path⟩ text f = .ok out := by
  have hagain := planFile_again hmore hgraph hready hfile hplan
  rw [addHints_eq_ok_iff, addHints_eq_ok_iff]
  cases hall : Insertion.planFile ⟨g, more, path⟩ f with
  | error e =>
      cases hsecond : Insertion.planFile ⟨g', more, path⟩ (f.annotated is) with
      | error e' => simp
      | ok again => rw [hall, hsecond] at hagain; cases hagain
  | ok all =>
      cases hsecond : Insertion.planFile ⟨g', more, path⟩ (f.annotated is) with
      | error e => rw [hall, hsecond] at hagain; cases hagain
      | ok again =>
          rw [hall, hsecond] at hagain
          have hleft : again.map Insertion.edit = Insertion.left is all := Option.some.inj hagain
          have hpart : is.Sublist all := by
            obtain ⟨is', his', hsub⟩ := Insertion.planFile_of_more hmore hall
            cases hplan.symm.trans his'
            exact hsub
          have hdistinct : (all.map Insertion.position).Nodup := by
            have h := Insertion.planFile_nodup hall hready.apart
            rwa [List.map_map] at h
          obtain ⟨once, honce⟩ := Insertion.exists_applyAll_of_plan hall hready.boundary
          have htwice := Insertion.applyAll_left hpart hdistinct hmid honce
          simp only [Except.ok.injEq, exists_eq_left']
          rw [hleft, htwice, honce]

end Again

end File

/-! ## Code bases -/

/-- The source with hints added, and the outline that it has then. -/
def ParsedSource.annotate (graph : Graph) (options : Options) (s : ParsedSource) :
    Except Error ParsedSource :=
  match s.outline with
  | none => .ok s
  | some f => do
      let is ← Insertion.planFile ⟨graph, options, s.path⟩ f
      let text ← s.addHints graph options
      return ⟨⟨s.path, text⟩, some (f.annotated is)⟩

namespace Codebase

/-- All sources with hints added, and the outlines that they have then. -/
def annotateAll (options : Options) (sources : List ParsedSource) :
    Except Error (List ParsedSource) :=
  sources.mapM (ParsedSource.annotate (graphOf sources) options)

/-- The plans for all sources. -/
def changes (graph : Graph) (options : Options) (sources : List ParsedSource) : Changes :=
  sources.filterMap fun s => s.outline.bind fun f =>
    (Insertion.planFile ⟨graph, options, s.path⟩ f).toOption.map fun is => (s.path, is)

end Codebase

namespace ParsedSource

theorem addHints_of_parsed (g : Graph) (options : Options) {s : ParsedSource} {f : FileOutline}
    (h : s.outline = some f) :
    s.addHints g options = NativeHints.addHints ⟨g, options, s.path⟩ s.text f := by
  rw [addHints, h]

theorem addHints_of_unparsed (g : Graph) (options : Options) {s : ParsedSource}
    (h : s.outline = none) : s.addHints g options = .ok s.text := by
  rw [addHints, h]

theorem annotate_of_unparsed (g : Graph) (options : Options) {s : ParsedSource}
    (h : s.outline = none) : s.annotate g options = .ok s := by
  rw [annotate, h]

theorem annotate_eq_ok_iff {g : Graph} {options : Options} {s s' : ParsedSource} {f : FileOutline}
    (h : s.outline = some f) :
    s.annotate g options = .ok s' ↔
      ∃ is mid, Insertion.planFile ⟨g, options, s.path⟩ f = .ok is ∧
        Edit.applyAll s.text (is.map Insertion.edit) = .ok mid ∧
        s' = ⟨⟨s.path, mid⟩, some (f.annotated is)⟩ := by
  rw [annotate, h]
  simp only [addHints_of_parsed g options h]
  constructor
  · intro hstep
    cases hplan : Insertion.planFile ⟨g, options, s.path⟩ f with
    | error e => rw [hplan] at hstep; cases hstep
    | ok is =>
        cases hmid : NativeHints.addHints ⟨g, options, s.path⟩ s.text f with
        | error e => rw [hplan, hmid] at hstep; cases hstep
        | ok mid =>
            rw [hplan, hmid] at hstep
            cases hstep
            obtain ⟨is', hplan', happly⟩ := addHints_eq_ok_iff.mp hmid
            rw [hplan] at hplan'
            cases hplan'
            exact ⟨is, mid, rfl, happly, rfl⟩
  · rintro ⟨is, mid, hplan, happly, rfl⟩
    rw [hplan, addHints_eq_ok_iff.mpr ⟨is, hplan, happly⟩]
    rfl

end ParsedSource

namespace Codebase

theorem graphOf_eq (sources : List ParsedSource) :
    graphOf sources = Graph.ofOutlines
      (sources.filterMap fun s => s.outline.map fun f => (s.path, f.decls)) := by
  rw [graphOf, Graph.ofOutlines, List.map_filterMap]
  have hfacts : ∀ s : ParsedSource, s.facts? =
      (s.outline.map fun f => (s.path, f.decls)).map fun file => file.2.facts file.1 := by
    intro s
    rw [ParsedSource.facts?, Option.map_map]
    rfl
  exact congrArg (fun facts? => Graph.ofFacts (sources.filterMap facts?)) (funext hfacts)

theorem mem_changes {g : Graph} {options : Options} {sources : List ParsedSource}
    {s : ParsedSource} (hs : s ∈ sources) {f : FileOutline} (hf : s.outline = some f)
    {is : List Insertion} (hplan : Insertion.planFile ⟨g, options, s.path⟩ f = .ok is) :
    (s.path, is) ∈ changes g options sources := by
  refine List.mem_filterMap.mpr ⟨s, hs, ?_⟩
  rw [hf, Option.bind_some, hplan]
  rfl

theorem changes_distinct (g : Graph) (options : Options) {sources : List ParsedSource}
    (hpaths : (sources.map fun s => s.path.lower).Nodup) :
    (changes g options sources).Distinct := by
  rw [Changes.Distinct, changes, List.Nodup, List.pairwise_map, List.pairwise_filterMap]
  have hpath : ∀ {s : ParsedSource} {c : Text × List Insertion}, (s.outline.bind fun f =>
      (Insertion.planFile ⟨g, options, s.path⟩ f).toOption.map fun is => (s.path, is)) = some c →
      c.1 = s.path := by
    intro s c h
    obtain ⟨f, -, h⟩ := Option.bind_eq_some_iff.mp h
    obtain ⟨is, -, rfl⟩ := Option.map_eq_some_iff.mp h
    rfl
  refine (List.pairwise_map.mp hpaths).imp ?_
  intro a b hab c hc d hd
  rwa [hpath hc, hpath hd]

/-- The hierarchy of the annotated sources is the old one, up to names of anonymous classes. -/
theorem graphOf_twin {g : Graph} {options : Options} {files files' : List ParsedSource}
    (hpaths : (files.map fun s => s.path.lower).Nodup)
    (hplain : ∀ s ∈ files, ∀ f ∈ s.outline, f.decls.Plain)
    (h : files.mapM (ParsedSource.annotate g options) = .ok files') :
    GraphTwin (changes g options files) (graphOf files) (graphOf files') := by
  rw [graphOf_eq, graphOf_eq]
  refine Graph.ofOutlines_twin (changes_distinct g options hpaths) ?_
  refine List.rel_filterMap ?_ (forall₂_of_mapM h)
  rintro s s' ⟨hs, hstep⟩
  cases houtline : s.outline with
  | none =>
      rw [ParsedSource.annotate_of_unparsed g options houtline] at hstep
      cases hstep
      simp only [houtline]
      exact .none
  | some f =>
      obtain ⟨is, mid, hplan, -, rfl⟩ := (ParsedSource.annotate_eq_ok_iff houtline).mp hstep
      simp only [houtline]
      exact .some ⟨is, mem_changes hs houtline hplan, hplain s hs f houtline, rfl⟩

/-- Adding hints with some features and then with more gives every file the text that
adding with more at once gives, and adding with the same features again changes nothing. -/
theorem addHints_annotateAll {options more : Options}
    (hmore : ∀ feature, options feature = true → more feature = true)
    {files files' : List ParsedSource} (hpaths : (files.map fun s => s.path.lower).Nodup)
    (hready : ∀ s ∈ files, ∀ f ∈ s.outline, f.Ready more s.text)
    (h : annotateAll options files = .ok files') :
    List.Forall₂ (fun s s' =>
      s.addHints (graphOf files) options = .ok s'.text ∧
      (∀ out, s'.addHints (graphOf files') more = .ok out ↔
        s.addHints (graphOf files) more = .ok out) ∧
      s'.addHints (graphOf files') options = .ok s'.text) files files' := by
  have hgraph := graphOf_twin hpaths (fun s hs f hf => (hready s hs f hf).plain) h
  refine (forall₂_of_mapM h).imp ?_
  rintro s s' ⟨hs, hstep⟩
  cases houtline : s.outline with
  | none =>
      rw [ParsedSource.annotate_of_unparsed _ options houtline] at hstep
      cases hstep
      have hsame := fun g options => ParsedSource.addHints_of_unparsed g options houtline
      refine ⟨hsame _ _, fun out => ?_, hsame _ _⟩
      rw [hsame, hsame]
  | some f =>
      obtain ⟨is, mid, hplan, hmid, rfl⟩ := (ParsedSource.annotate_eq_ok_iff houtline).mp hstep
      have hfile := mem_changes hs houtline hplan
      have hready' := hready s hs f houtline
      have hfirst := addHints_eq_ok_iff.mpr ⟨is, hplan, hmid⟩
      have hsame := addHints_annotated (fun _ h => h) hgraph (hready'.of_more hmore) hfile hplan
        hmid mid
      simp only [ParsedSource.addHints_of_parsed _ _ houtline]
      exact ⟨hfirst, addHints_annotated hmore hgraph hready' hfile hplan hmid, hsame.mpr hfirst⟩

/-- An interface whose method may give nothing. -/
def interfaceFile : ParsedSource :=
  ⟨⟨"i.php".toList, "<?php interface I \x7b /** @return self|null */ function m(); \x7d".toList⟩,
    some ⟨some ⟨0, 5⟩, none, false,
      .classLike ⟨.interface, some "I".toList, 6, [], []⟩
        (.functionLike
          ⟨.method, some "m".toList, 45, some "/** @return self|null */".toList, [], some 57, none⟩
          .empty .empty)
        .empty⟩⟩

/-- The text of a function, cut where hints belong: in front of its parameter, and
behind the method of its anonymous class. -/
def functionParts : Text × Text × Text :=
  ("<?php /** @param int $x */ function f(".toList,
    "$x) \x7b new class implements I \x7b function m()".toList, " \x7b\x7d \x7d; \x7d".toList)

/-- The outline of the function. -/
def functionOutline : FileOutline :=
  ⟨some ⟨0, 5⟩, none, false,
    .functionLike
      ⟨.function, some "f".toList, 27, some "/** @param int $x */".toList,
        [⟨"x".toList, ⟨38, 40⟩, 38, none, false⟩], some 41, none⟩
      (.classLike ⟨.anonymous, none, 48, [], ["I".toList]⟩
        (.functionLike ⟨.method, some "m".toList, 69, none, [], some 81, none⟩ .empty .empty)
        .empty)
      .empty⟩

/-- The file of the function. -/
def functionFile : ParsedSource :=
  ⟨⟨"f.php".toList, functionParts.1 ++ (functionParts.2.1 ++ functionParts.2.2)⟩,
    some functionOutline⟩

/-- The hint of the parameter, which needs no feature. -/
def functionPlan : List Insertion := [.parameter 38 (.named "int".toList false) "int".toList]

/-- With nullable types, the method of the anonymous class gets a hint as well. -/
def functionPlanNullable : List Insertion :=
  functionPlan ++ [.result 81 (.named "I".toList true) "?I".toList]

/-- The file of the function with the first hint.  The anonymous class has moved. -/
def functionFile' : ParsedSource :=
  ⟨⟨"f.php".toList,
      functionParts.1 ++ ("int ".toList ++ (functionParts.2.1 ++ functionParts.2.2))⟩,
    some (functionOutline.annotated functionPlan)⟩

open ParsedSource (annotate annotate_eq_ok_iff) in
/-- The second run finds the method of the interface for the anonymous class, though the first
hint has moved the class. -/
theorem addHints_annotateAll_anonymous :
    annotateAll (fun _ => false) [interfaceFile, functionFile] =
        .ok [interfaceFile, functionFile'] ∧
      functionFile'.addHints (graphOf [interfaceFile, functionFile']) (· = .nullableTypes) =
        .ok (functionParts.1 ++ ("int ".toList ++ (functionParts.2.1 ++
          (" : ?I".toList ++ functionParts.2.2)))) := by
  have hmore : ∀ feature : Feature, (fun _ => false) feature = true →
      decide (feature = .nullableTypes) = true := fun _ h => by cases h
  have hready : ∀ s ∈ [interfaceFile, functionFile], ∀ f ∈ s.outline,
      f.Ready (· = .nullableTypes) s.text := by
    intro s hs f hf
    rcases List.mem_pair.mp hs with rfl | rfl
    · cases hf
      exact ⟨by decide, by decide, by decide, by decide⟩
    · cases hf
      exact ⟨by decide, by decide, by decide, by decide⟩
  have hinterface : annotate (graphOf [interfaceFile, functionFile]) (fun _ => false)
      interfaceFile = .ok interfaceFile :=
    (annotate_eq_ok_iff rfl).mpr ⟨[], interfaceFile.text, by decide +kernel, rfl, rfl⟩
  have hfunction : annotate (graphOf [interfaceFile, functionFile]) (fun _ => false)
      functionFile = .ok functionFile' := by
    refine (annotate_eq_ok_iff rfl).mpr
      ⟨functionPlan, functionFile'.text, by decide +kernel, ?_, rfl⟩
    have hedits : Edit.sort (functionPlan.map Insertion.edit) =
        [⟨0 + functionParts.1.size, 0, "int ".toList⟩] := by decide +kernel
    rw [Edit.applyAll_eq_ok_iff, hedits]
    exact .edit functionParts.1 [] "int ".toList (.done _ _)
  have hfirst : annotateAll (fun _ => false) [interfaceFile, functionFile] =
      .ok [interfaceFile, functionFile'] := by
    rw [annotateAll, List.mapM_cons, List.mapM_cons, hinterface, hfunction]
    rfl
  have honce : functionFile.addHints (graphOf [interfaceFile, functionFile])
      (· = .nullableTypes) = .ok (functionParts.1 ++ ("int ".toList ++ (functionParts.2.1 ++
          (" : ?I".toList ++ functionParts.2.2)))) := by
    refine addHints_eq_ok_iff.mpr ⟨functionPlanNullable, by decide +kernel, ?_⟩
    have hedits : Edit.sort (functionPlanNullable.map Insertion.edit) =
        [⟨0 + functionParts.1.size, 0, "int ".toList⟩,
          ⟨0 + functionParts.1.size + 0 + functionParts.2.1.size, 0, " : ?I".toList⟩] := by
      decide +kernel
    rw [Edit.applyAll_eq_ok_iff, hedits]
    exact .edit functionParts.1 [] "int ".toList
      (.edit functionParts.2.1 [] " : ?I".toList (.done _ _))
  obtain ⟨-, hrest⟩ := List.forall₂_cons.mp
    (addHints_annotateAll hmore (by decide) hready hfirst)
  obtain ⟨⟨-, hsteps, -⟩, -⟩ := List.forall₂_cons.mp hrest
  exact ⟨hfirst, (hsteps _).mpr honce⟩

end Codebase

end NativeHints
