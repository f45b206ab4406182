import NativeHints.Proofs.FileOrder
import NativeHints.Proofs.Hinted
import NativeHints.Proofs.Upgrade

/-!
# Visiting files twice

A path may stand twice in the list of a run, since roots may overlap.  The hierarchy is read
before anything is written, and reading a file twice adds nothing to it
(`readGraph_append_self`).  So a list run through twice is two runs with one hierarchy, the
second on the disk that the first has left.

Adding hints makes a text longer or leaves it as it is.  Hence the second run leaves the disk
as it is exactly if none of its visits has anything to insert (`visitAll_same_iff`).  This
is so if the new texts read as the old ones with the hints put in and no anonymous class has
moved to a known key (`second_visit_harmless`).  It is not so in general: an anonymous class
may move to where another one was, and is then given the hints of that one
(`second_visit_changes_outer_class`).
-/

namespace NativeHints

open Files (Disk Item)

/-! ## Texts grow -/

/-- Insertions that are not empty make a text longer. -/
theorem Edit.Yields.size_le {cursor : Nat} {t out : Text} {es : List Edit}
    (h : Yields cursor t es out) (hins : OnlyInserts es) (htext : ∀ e ∈ es, e.text ≠ []) :
    t.size + es.length ≤ out.size := by
  induction h with
  | done cursor t => exact Nat.le_refl _
  | @edit cursor t out es kept removed added _ ih =>
      obtain ⟨hfirst, hrest⟩ := List.forall_mem_cons.mp hins
      obtain ⟨hadded, htext⟩ := List.forall_mem_cons.mp htext
      have hremoved : removed.size = 0 := hfirst
      have hsize : 0 < added.size := Text.size_pos hadded
      have hout := ih hrest htext
      simp only [Text.size_append, List.length_cons]
      omega

namespace Insertion

theorem text_ne_nil (i : Insertion) : i.text ≠ [] := by
  cases i with
  | strictTypes position =>
      show " declare(strict_types=1);".toList ≠ []
      decide
  | parameter position type written =>
      exact List.append_ne_nil_of_right_ne_nil _ (List.cons_ne_nil _ _)
  | result position type written => exact List.append_ne_nil_of_left_ne_nil (by decide) _
  | property position type written =>
      exact List.append_ne_nil_of_right_ne_nil _ (List.cons_ne_nil _ _)

theorem size_applyAll {source out : Text} {is : List Insertion}
    (h : Edit.applyAll source (is.map edit) = .ok out) : source.size + is.length ≤ out.size := by
  have hlength : (Edit.sort (is.map edit)).length = is.length := by
    rw [(Edit.sort_perm _).length_eq, List.length_map]
  rw [← hlength]
  refine (Edit.applyAll_eq_ok_iff.mp h).size_le (onlyInserts_sort is) fun e he => ?_
  obtain ⟨i, -, rfl⟩ := List.mem_map.mp ((Edit.sort_perm _).mem_iff.mp he)
  exact i.text_ne_nil

end Insertion

/-- Adding hints changes nothing exactly if there is nothing to insert. -/
theorem addHints_eq_self_iff {c : Insertion.Context} {source : Text} {f : FileOutline} :
    addHints c source f = .ok source ↔ Insertion.planFile c f = .ok [] := by
  rw [addHints_eq_ok_iff]
  constructor
  · rintro ⟨is, hplan, happly⟩
    have hsize := Insertion.size_applyAll happly
    have hnone : is = [] := List.length_eq_zero_iff.mp (by omega)
    rwa [hnone] at hplan
  · intro h
    exact ⟨[], h, rfl⟩

/-- The hints of a source are quiet: they disturb no keys, and the new text reads as the old
one with the hints put in. -/
def Source.Quiet (graph : Graph) (options : Options) (s : Source) : Prop :=
  ∀ f is out, Php.outline? s.text = some f →
    Insertion.planFile ⟨graph, options, s.path⟩ f = .ok is →
    Edit.applyAll s.text (is.map Insertion.edit) = .ok out →
    Insertion.Calm ⟨graph, options, s.path⟩ f is ∧
      ∀ f', Php.outline? out = some f' → f'.blanked = (f.annotated is).blanked

namespace Codebase

/-- The text with hints is the old one or longer. -/
theorem size_lt_addHints {graph : Graph} {options : Options} {s : Source} {out : Text}
    (h : s.parse.addHints graph options = .ok out) : out = s.text ∨ s.text.size < out.size := by
  cases houtline : Php.outline? s.text with
  | none =>
      rw [keepsUnparsed_addHints graph options s.parse houtline] at h
      exact .inl (Except.ok.inj h).symm
  | some f =>
      rw [ParsedSource.addHints_of_parsed graph options (s := s.parse) houtline] at h
      obtain ⟨is, -, happly⟩ := addHints_eq_ok_iff.mp h
      cases is with
      | nil => exact .inl (Except.ok.inj happly).symm
      | cons i is =>
          have hsize : s.text.size + (i :: is).length ≤ out.size := Insertion.size_applyAll happly
          rw [List.length_cons] at hsize
          exact .inr (by omega)

/-! ## Runs that change nothing -/

theorem disk_visitAll_append (revise : ParsedSource → Except Error Text) (d : Disk)
    (paths more : List Text) :
    (visitAll revise d (paths ++ more)).2 =
      (visitAll revise (visitAll revise d paths).2 more).2 := by
  induction paths generalizing d with
  | nil => rfl
  | cons path paths ih => exact ih _

/-- A visit that gives a text back as it was leaves the disk as it is. -/
theorem disk_visit_of_same {revise : ParsedSource → Except Error Text} {d : Disk} {path : Text}
    (h : ∀ t, d.read path = .ok t → revise (Source.parse ⟨path, t⟩) = .ok t) :
    (visit revise d path).2 = d := by
  cases hread : d.read path with
  | error f => exact disk_visit_of_unread revise hread
  | ok t =>
      have hsource : (readSource d path).bind (outcomeOf revise) = outcomeOf revise ⟨path, t⟩ := by
        rw [readSource_of_read hread]
        rfl
      rw [visit, hsource]
      cases houtline : Php.outline? t with
      | none => rw [outcomeOf_of_unparsed (s := ⟨path, t⟩) houtline]
      | some f =>
          rw [outcomeOf_of_parsed (s := ⟨path, t⟩) houtline, h t hread]
          simp [Except.map]

/-- How long the text at a location is. -/
def sizeAt (d : Disk) (place : Files.Location) : Nat :=
  match d.top.item? place with
  | some (.file (.text t)) => t.size
  | _ => 0

theorem sizeAt_of_read {d : Disk} {path t : Text} {place : Files.Location}
    (hplace : d.locate path = .ok place) (hread : d.read path = .ok t) :
    sizeAt d place = t.size := by
  have hitem := Disk.read_eq_ok_iff.mp hread
  rw [Disk.item?_of_locate hplace] at hitem
  rw [sizeAt, hitem]

section Adding

variable (graph : Graph) (options : Options) {d : Disk}

variable {graph options} in
theorem read_visit {path t out : Text} (hread : d.read path = .ok t)
    (hout : (Source.parse ⟨path, t⟩).addHints graph options = .ok out) :
    (visit (ParsedSource.addHints graph options) d path).2.read path = .ok out := by
  rw [Disk.read_eq_ok_iff, item?_visit, Disk.read_eq_ok_iff.mp hread, settledItem,
    settled_of_revise (keepsUnparsed_addHints graph options) hout]

/-- No text gets shorter at a visit. -/
theorem sizeAt_visit (path : Text) (place : Files.Location) :
    sizeAt d place ≤ sizeAt (visit (ParsedSource.addHints graph options) d path).2 place := by
  have hvisit := rewritten_visit (ParsedSource.addHints graph options) d path
  cases hread : d.read path with
  | error f => rw [disk_visit_of_unread _ hread]
  | ok t =>
      by_cases hplace : d.locate path = .ok place
      · obtain ⟨out, hout⟩ := exists_addHints_parse graph options ⟨path, t⟩
        rw [sizeAt_of_read hplace hread,
          sizeAt_of_read ((hvisit.locate path).trans hplace) (read_visit hread hout)]
        rcases size_lt_addHints hout with rfl | hlt
        · exact Nat.le_refl _
        · exact Nat.le_of_lt hlt
      · rw [sizeAt, sizeAt, hvisit.item? place (by simpa using hplace)]

theorem sizeAt_visitAll (paths : List Text) (place : Files.Location) :
    sizeAt d place ≤
      sizeAt (visitAll (ParsedSource.addHints graph options) d paths).2 place := by
  induction paths generalizing d with
  | nil => exact Nat.le_refl _
  | cons path paths ih => exact Nat.le_trans (sizeAt_visit graph options path place) ih

variable {graph options}

/-- A visit changes its file or gives back the text as it was. -/
theorem addHints_of_sizeAt {path t : Text} {place : Files.Location}
    (hplace : d.locate path = .ok place) (hread : d.read path = .ok t)
    (h : sizeAt (visit (ParsedSource.addHints graph options) d path).2 place ≤ sizeAt d place) :
    (Source.parse ⟨path, t⟩).addHints graph options = .ok t := by
  have hvisit := rewritten_visit (ParsedSource.addHints graph options) d path
  obtain ⟨out, hout⟩ := exists_addHints_parse graph options ⟨path, t⟩
  rw [sizeAt_of_read hplace hread,
    sizeAt_of_read ((hvisit.locate path).trans hplace) (read_visit hread hout)] at h
  rcases size_lt_addHints hout with rfl | hlt
  · exact hout
  · exact absurd h (Nat.not_le_of_lt hlt)

/-- A run leaves everything as it is exactly if none of its visits has anything to insert. -/
theorem visitAll_same_iff {paths : List Text} :
    (∀ place, (visitAll (ParsedSource.addHints graph options) d paths).2.top.item? place =
        d.top.item? place) ↔
      ∀ p ∈ paths, ∀ t, d.read p = .ok t →
        (Source.parse ⟨p, t⟩).addHints graph options = .ok t := by
  constructor
  · intro h
    induction paths with
    | nil => intro p hp; cases hp
    | cons path paths ih =>
        -- The sizes after the first visit lie between those before it and those in the end.
        have hfirst : ∀ t, d.read path = .ok t →
            (Source.parse ⟨path, t⟩).addHints graph options = .ok t := by
          intro t hread
          obtain ⟨place, hplace, -⟩ := Disk.locate_of_read hread
          refine addHints_of_sizeAt hplace hread ?_
          refine (sizeAt_visitAll graph options paths place).trans ?_
          have hend := h place
          rw [disk_visitAll_cons] at hend
          rw [sizeAt, sizeAt, hend]
        refine List.forall_mem_cons.mpr ⟨hfirst, ih fun place => ?_⟩
        have hend := h place
        rwa [disk_visitAll_cons, disk_visit_of_same hfirst] at hend
  · intro h place
    induction paths with
    | nil => rfl
    | cons path paths ih =>
        obtain ⟨hfirst, hrest⟩ := List.forall_mem_cons.mp h
        rw [disk_visitAll_cons, disk_visit_of_same hfirst]
        exact ih hrest

end Adding

/-! ## A list run through twice -/

theorem graphOf_append_self (sources : List Source) :
    graphOf ((sources ++ sources).map Source.parse) = graphOf (sources.map Source.parse) := by
  rw [graphOf_map_parse, graphOf_map_parse, List.filterMap_append, Graph.ofFacts_append_self]

/-- Files that are read twice add nothing to the hierarchy. -/
theorem readGraph_append_self (d : Disk) (paths : List Text) :
    readGraph d (paths ++ paths) = readGraph d paths := by
  rw [readGraph, readGraph, List.mapM_append]
  cases paths.mapM (readSource d) with
  | error e => rfl
  | ok sources => exact congrArg Except.ok (graphOf_append_self sources)

theorem exists_of_readGraph {d : Disk} {paths : List Text} {graph : Graph}
    (h : readGraph d paths = .ok graph) :
    ∃ sources : List Source, graph = graphOf (sources.map Source.parse) := by
  rw [readGraph] at h
  cases hsources : paths.mapM (readSource d) with
  | error e => rw [hsources] at h; cases h
  | ok sources => rw [hsources] at h; exact ⟨sources, (Except.ok.inj h).symm⟩

theorem disk_addOn_of_graph {options : Options} {d : Disk} {paths : List Text} {graph : Graph}
    (h : readGraph d paths = .ok graph) :
    (addOn options d paths).2 = (visitAll (ParsedSource.addHints graph options) d paths).2 := by
  rw [addOn, h]
  rfl

theorem disk_addOn_append_self {options : Options} {d : Disk} {paths : List Text} {graph : Graph}
    (h : readGraph d paths = .ok graph) :
    (addOn options d (paths ++ paths)).2 =
      (visitAll (ParsedSource.addHints graph options) (addOn options d paths).2 paths).2 := by
  rw [disk_addOn_of_graph h, disk_addOn_of_graph ((readGraph_append_self d paths).trans h),
    disk_visitAll_append]

/-- With quiet hints there is nothing to insert into the new text. -/
theorem planFile_of_quiet {sources : List ParsedSource} {options : Options} {s : Source}
    (hquiet : s.Quiet (graphOf sources) options) {out : Text} {f' : FileOutline}
    (hout : s.parse.addHints (graphOf sources) options = .ok out)
    (houtline : Php.outline? out = some f') :
    Insertion.planFile ⟨graphOf sources, options, s.path⟩ f' = .ok [] := by
  cases hfirst : Php.outline? s.text with
  | none =>
      rw [keepsUnparsed_addHints _ options s.parse hfirst] at hout
      cases hout
      cases hfirst.symm.trans houtline
  | some f =>
      rw [ParsedSource.addHints_of_parsed _ options (s := s.parse) hfirst] at hout
      obtain ⟨is, hplan, happly⟩ := addHints_eq_ok_iff.mp hout
      obtain ⟨hcalm, hreads⟩ := hquiet f is out hfirst hplan happly
      rw [← Insertion.planFile_blanked, hreads f' houtline, Insertion.planFile_blanked]
      rw [graphOf_eq] at hplan hcalm ⊢
      exact Insertion.planFile_hinted hplan hcalm

theorem addHints_parse_eq_self_iff {graph : Graph} {options : Options} {s : Source} :
    s.parse.addHints graph options = .ok s.text ↔ ∀ f, Php.outline? s.text = some f →
      Insertion.planFile ⟨graph, options, s.path⟩ f = .ok [] := by
  cases houtline : Php.outline? s.text with
  | none =>
      refine ⟨fun _ f hf => ?_, fun _ => keepsUnparsed_addHints graph options s.parse houtline⟩
      cases hf
  | some f =>
      rw [ParsedSource.addHints_of_parsed graph options (s := s.parse) houtline]
      refine addHints_eq_self_iff.trans ⟨fun h f' hf' => ?_, fun h => h f rfl⟩
      cases hf'
      exact h

/-- A second run through a list changes nothing exactly if there is nothing to insert. -/
theorem addOn_append_self_iff (options : Options) (d : Disk) (paths : List Text) :
    (∀ place, (addOn options d (paths ++ paths)).2.top.item? place =
        (addOn options d paths).2.top.item? place) ↔
      ∀ graph, readGraph d paths = .ok graph → ∀ p ∈ paths, ∀ t f,
        (addOn options d paths).2.read p = .ok t → Php.outline? t = some f →
        Insertion.planFile ⟨graph, options, p⟩ f = .ok [] := by
  cases hgraph : readGraph d paths with
  | error e =>
      refine ⟨fun _ graph h => ?_, fun _ place => ?_⟩
      · cases h
      · rw [addOn, addOn, readGraph_append_self, hgraph]
  | ok graph =>
      rw [disk_addOn_append_self hgraph, visitAll_same_iff]
      constructor
      · intro h graph' hgraph' p hp t f hread
        cases hgraph'
        exact addHints_parse_eq_self_iff.mp (h p hp t hread) f
      · intro h p hp t hread
        exact addHints_parse_eq_self_iff.mpr fun f => h graph rfl p hp t f hread

/-- What a second run through a list of files does.  It leaves everything as the first has left
it exactly if there is nothing to insert into any of the new texts, with the hierarchy of the
old ones.  If no two paths lead to the same file and the hints of all files are quiet, this is
so. -/
theorem second_visit_harmless (options : Options) (d : Disk) (paths : List Text) :
    ((∀ place, (addOn options d (paths ++ paths)).2.top.item? place =
        (addOn options d paths).2.top.item? place) ↔
      ∀ graph, readGraph d paths = .ok graph → ∀ p ∈ paths, ∀ t f,
        (addOn options d paths).2.read p = .ok t → Php.outline? t = some f →
        Insertion.planFile ⟨graph, options, p⟩ f = .ok []) ∧
    (paths.Pairwise d.Apart →
      (∀ graph, readGraph d paths = .ok graph → ∀ p ∈ paths, ∀ t, d.read p = .ok t →
        Source.Quiet graph options ⟨p, t⟩) →
      ∀ place, (addOn options d (paths ++ paths)).2.top.item? place =
        (addOn options d paths).2.top.item? place) := by
  refine ⟨addOn_append_self_iff options d paths, fun hapart hquiet => ?_⟩
  refine (addOn_append_self_iff options d paths).mpr ?_
  intro graph hgraph p hp t' f' hread' houtline'
  obtain ⟨t, hread⟩ := exists_read_of_readGraph hgraph p hp
  obtain ⟨out, hout⟩ := exists_addHints_parse graph options ⟨p, t⟩
  have hwritten := read_visitAll (keepsUnparsed_addHints graph options) hapart hp hread hout
  rw [disk_addOn_of_graph hgraph] at hread'
  obtain rfl : out = t' := Except.ok.inj (hwritten.symm.trans hread')
  have hquiet := hquiet graph hgraph p hp t hread
  obtain ⟨sources, rfl⟩ := exists_of_readGraph hgraph
  exact planFile_of_quiet hquiet hout houtline'

/-- A file with an anonymous class that the declaration of `strict_types` moves. -/
def movedClassSource : Source :=
  ⟨"a.php".toList, "<?php new class\x7b/** @return int */function m()\x7b\x7d\x7d;".toList⟩

/-- The outline of that file. -/
def movedClassOutline : FileOutline :=
  ⟨some ⟨0, 5⟩, none, false, .classLike ⟨.anonymous, none, 10, [], []⟩
    (.functionLike
      ⟨.method, some "m".toList, 34, some "/** @return int */".toList, [], some 46, none⟩
      .empty .empty) .empty⟩

/-- What is inserted into it. -/
def movedClassPlan : List Insertion :=
  [.strictTypes 5, .result 46 (.named "int".toList false) "int".toList]

/-- The hierarchy of that file. -/
def movedClassGraph : Graph := .ofOutlines [(movedClassSource.path, movedClassOutline.decls)]

/-- A disk with that file alone. -/
def movedClassDisk : Disk := ⟨.file movedClassSource.path (.text movedClassSource.text) .empty, []⟩

/-- The class moves to a position where no class was. -/
theorem quiet_movedClassSource : movedClassSource.Quiet movedClassGraph fun _ => true := by
  intro f is out hf hplan happly
  have houtline : Php.outline? movedClassSource.text = some movedClassOutline := by decide +kernel
  obtain rfl : movedClassOutline = f := Option.some.inj (houtline.symm.trans hf)
  have hinsertions : Insertion.planFile ⟨movedClassGraph, fun _ => true, movedClassSource.path⟩
      movedClassOutline = .ok movedClassPlan := by decide +kernel
  obtain rfl : movedClassPlan = is := Except.ok.inj (hinsertions.symm.trans hplan)
  refine ⟨⟨by decide, ?_⟩, ?_⟩
  · intro site hsite _
    rw [List.mem_singleton.mp hsite]
    exact .inr (by decide +kernel)
  · intro f' hf'
    have hreads : ((Edit.applyAll movedClassSource.text
        (movedClassPlan.map Insertion.edit)).toOption.bind Php.outline?).map FileOutline.blanked =
          some (movedClassOutline.annotated movedClassPlan).blanked := by
      decide +kernel
    rw [happly] at hreads
    exact Option.some.inj ((congrArg (Option.map FileOutline.blanked) hf').symm.trans hreads)

/-- The class of the file moves, but not to where another was, so the second visit changes
nothing. -/
theorem second_visit_harmless_moved :
    movedClassDisk.read movedClassSource.path = .ok movedClassSource.text ∧
    movedClassSource.Quiet movedClassGraph (fun _ => true) ∧
    ∀ place, (addOn (fun _ => true) movedClassDisk
        ([movedClassSource.path] ++ [movedClassSource.path])).2.top.item? place =
      (addOn (fun _ => true) movedClassDisk [movedClassSource.path]).2.top.item? place := by
  have hread : movedClassDisk.read movedClassSource.path = .ok movedClassSource.text := by decide
  have hgraph : readGraph movedClassDisk [movedClassSource.path] = .ok movedClassGraph := by
    decide +kernel
  have hharmless := (second_visit_harmless (fun _ => true) movedClassDisk
    [movedClassSource.path]).2 (List.pairwise_singleton ..)
  refine ⟨hread, quiet_movedClassSource, hharmless ?_⟩
  intro graph hgraph' p hp t ht
  obtain rfl : movedClassGraph = graph := Except.ok.inj (hgraph.symm.trans hgraph')
  obtain rfl := List.mem_singleton.mp hp
  obtain rfl : movedClassSource.text = t := Except.ok.inj (hread.symm.trans ht)
  exact quiet_movedClassSource

/-- The declaration of `strict_types` moves the outer class to where the inner one was.  At the
second visit its method is given the hint of the inner one's. -/
theorem second_visit_changes_outer_class :
    (addOn (fun _ => true) nestedClassDisk ["a.php".toList]).2.read "a.php".toList =
      .ok ("<?php declare(strict_types=1); new class\x7bfunction m($x)\x7b".toList ++
        "new class\x7b/** @param int $x */function m(int $x)\x7b\x7d\x7d;\x7d\x7d;".toList) ∧
    (addOn (fun _ => true) nestedClassDisk (["a.php".toList] ++ ["a.php".toList])).2.read
        "a.php".toList =
      .ok ("<?php declare(strict_types=1); new class\x7bfunction m(int $x)\x7b".toList ++
        "new class\x7b/** @param int $x */function m(int $x)\x7b\x7d\x7d;\x7d\x7d;".toList) := by
  decide +kernel

end Codebase

end NativeHints
