import NativeHints.Codebase.Run
import NativeHints.Proofs.Stored
import NativeHints.Proofs.Walk

/-!
# Runs over files

A run visits the files of a list one after another.  A visit may write to the file it
is at, and to no other (`rewritten_visit`).  So if no two paths of the list lead to
the same file, the disk that a visit meets is, as far as its own file goes, the one
that the run began with.  Each file is left as a visit on that first disk would leave
it (`item?_visitAll`), and the outcomes are those of such visits
(`outcomes_visitAll`).

Hence a run on a disk is a run in memory: it has the same errors, writes the texts
that memory gives, and counts what they differ in.  Paths that are different as texts
are not enough for this (`distinct_paths_not_refined`).
-/

namespace NativeHints

open Files (Disk Item Location)

namespace Files.Disk

/-- No file that one path leads to is one that the other leads to. -/
def Apart (d : Disk) (p q : Text) : Prop := ∀ place, d.locate p = .ok place → d.locate q ≠ .ok place

theorem Apart.of_ne {d : Disk} {p q : Text} (h : d.locate p ≠ d.locate q) : d.Apart p q :=
  fun _ hp hq => h (hp.trans hq.symm)

theorem Apart.symm {d : Disk} {p q : Text} (h : d.Apart p q) : d.Apart q p :=
  fun place hq hp => h place hp hq

/-- Between two disks, paths lead to the same locations, and the items differ at most
where one of some paths leads. -/
structure Rewritten (d : Disk) (paths : List Text) (d' : Disk) : Prop where
  locate : ∀ path, d'.locate path = d.locate path
  item? : ∀ place, (∀ p ∈ paths, d.locate p ≠ .ok place) → d'.top.item? place = d.top.item? place

namespace Rewritten

variable {d d' d'' : Disk} {ps qs : List Text}

theorem refl (d : Disk) (ps : List Text) : d.Rewritten ps d :=
  ⟨fun _ => rfl, fun _ _ => rfl⟩

theorem trans (h : d.Rewritten ps d') (h' : d'.Rewritten qs d'') :
    d.Rewritten (ps ++ qs) d'' where
  locate path := (h'.locate path).trans (h.locate path)
  item? place hplace := by
    obtain ⟨hps, hqs⟩ := List.forall_mem_append.mp hplace
    refine (h'.item? place fun q hq => ?_).trans (h.item? place hps)
    rw [h.locate]
    exact hqs q hq

theorem apart (h : d.Rewritten ps d') {p q : Text} (hapart : d.Apart p q) : d'.Apart p q := by
  intro place
  rw [h.locate, h.locate]
  exact hapart place

/-- A path apart from those paths leads to the same item. -/
theorem item?_of_apart (h : d.Rewritten ps d') {q : Text} (hq : ∀ p ∈ ps, d.Apart p q) :
    d'.item? q = d.item? q := by
  rw [Disk.item?, Disk.item?, h.locate]
  cases hplace : d.locate q with
  | error f => rfl
  | ok place => exact h.item? place fun p hp hlocate => hq p hp place hlocate hplace

theorem read_of_apart (h : d.Rewritten ps d') {q : Text} (hq : ∀ p ∈ ps, d.Apart p q) :
    d'.read q = d.read q :=
  read_congr (h.locate q) (h.item?_of_apart hq)

end Rewritten

theorem rewritten_write {d : Disk} {path t : Text} (h : d.read path = .ok t) (new : Text) :
    d.Rewritten [path] (d.write path new) := by
  obtain ⟨place, hplace, hitem⟩ := locate_of_read h
  refine ⟨locate_write hplace hitem new, fun other hother => ?_⟩
  have hne : other ≠ place := by
    rintro rfl
    exact hother path (List.mem_singleton_self path) hplace
  rw [item?_write hplace hitem, if_neg hne]

theorem item?_write_self {d : Disk} {path t : Text} (h : d.read path = .ok t) (new : Text) :
    (d.write path new).item? path = some (.file (.text new)) := by
  obtain ⟨place, hplace, hitem⟩ := locate_of_read h
  rw [item?_of_locate ((locate_write hplace hitem new path).trans hplace),
    item?_write hplace hitem, if_pos rfl]

end Files.Disk

namespace Codebase

section Run

variable (revise : ParsedSource → Except Error Text)

/-! ## One visit -/

/-- The text that a source has after a visit. -/
def settled (s : Source) : Text :=
  match outcomeOf revise s with
  | .ok (_, some t) => t
  | _ => s.text

/-- The item that a path leads to after a visit. -/
def settledItem (path : Text) : Option Item → Option Item
  | some (.file (.text t)) => some (.file (.text (settled revise ⟨path, t⟩)))
  | item => item

/-- The outcome of a visit. -/
def outcomeAt (d : Disk) (path : Text) : Except Error Outcome :=
  ((readSource d path).bind (outcomeOf revise)).map Prod.fst

variable {d : Disk} {path : Text}

theorem readSource_of_read {t : Text} (h : d.read path = .ok t) :
    readSource d path = .ok ⟨path, t⟩ := by
  rw [readSource, h]

theorem outcomeAt_of_read {t : Text} (h : d.read path = .ok t) :
    outcomeAt revise d path = (outcomeOf revise ⟨path, t⟩).map Prod.fst := by
  rw [outcomeAt, readSource_of_read h]
  rfl

theorem outcomeAt_of_unread {f : Files.Fault} (h : d.read path = .error f) :
    outcomeAt revise d path = .error (.io path f.message) := by
  rw [outcomeAt, readSource, h]
  rfl

/-- An outcome depends on what is read. -/
theorem outcomeAt_congr {d' : Disk} (h : d'.read path = d.read path) :
    outcomeAt revise d' path = outcomeAt revise d path := by
  rw [outcomeAt, outcomeAt, readSource, readSource, h]

theorem outcome_visit (d : Disk) (path : Text) :
    (visit revise d path).1 = outcomeAt revise d path := by
  rw [visit, outcomeAt]
  cases (readSource d path).bind (outcomeOf revise) with
  | error e => rfl
  | ok result =>
      obtain ⟨outcome, written⟩ := result
      cases written <;> rfl

theorem disk_visit_of_unread {f : Files.Fault} (h : d.read path = .error f) :
    (visit revise d path).2 = d := by
  rw [visit, readSource, h]
  rfl

/-- A visit leaves the disk alone, or writes to the file it has read. -/
theorem disk_visit_of_read {t : Text} (h : d.read path = .ok t) :
    (visit revise d path).2 = d ∧ settled revise ⟨path, t⟩ = t ∨
      (visit revise d path).2 = d.write path (settled revise ⟨path, t⟩) := by
  have hsource : (readSource d path).bind (outcomeOf revise) = outcomeOf revise ⟨path, t⟩ := by
    rw [readSource_of_read h]
    rfl
  rw [visit, hsource, settled]
  cases outcomeOf revise ⟨path, t⟩ with
  | error e => exact .inl ⟨rfl, rfl⟩
  | ok result =>
      obtain ⟨outcome, written⟩ := result
      cases written with
      | none => exact .inl ⟨rfl, rfl⟩
      | some new => exact .inr rfl

theorem rewritten_visit (d : Disk) (path : Text) :
    d.Rewritten [path] (visit revise d path).2 := by
  cases hread : d.read path with
  | error f =>
      rw [disk_visit_of_unread revise hread]
      exact .refl d _
  | ok t =>
      rcases disk_visit_of_read revise hread with ⟨heq, -⟩ | heq
      · rw [heq]
        exact .refl d _
      · rw [heq]
        exact Disk.rewritten_write hread _

theorem settledItem_of_unread {f : Files.Fault} (h : d.read path = .error f) :
    settledItem revise path (d.item? path) = d.item? path := by
  unfold settledItem
  split
  · next t hitem =>
      rw [Disk.read_eq_ok_iff.mpr hitem] at h
      cases h
  · rfl

theorem item?_visit (d : Disk) (path : Text) :
    (visit revise d path).2.item? path = settledItem revise path (d.item? path) := by
  cases hread : d.read path with
  | error f => rw [disk_visit_of_unread revise hread, settledItem_of_unread revise hread]
  | ok t =>
      have hitem := Disk.read_eq_ok_iff.mp hread
      rcases disk_visit_of_read revise hread with ⟨heq, hsettled⟩ | heq
      · rw [heq, hitem, settledItem, hsettled]
      · rw [heq, hitem, Disk.item?_write_self hread, settledItem]

/-! ## A whole run -/

theorem outcomes_visitAll_cons (d : Disk) (path : Text) (paths : List Text) :
    (visitAll revise d (path :: paths)).1 =
      outcomeAt revise d path :: (visitAll revise (visit revise d path).2 paths).1 := by
  rw [← outcome_visit]
  rfl

theorem disk_visitAll_cons (d : Disk) (path : Text) (paths : List Text) :
    (visitAll revise d (path :: paths)).2 =
      (visitAll revise (visit revise d path).2 paths).2 :=
  rfl

theorem rewritten_visitAll (d : Disk) (paths : List Text) :
    d.Rewritten paths (visitAll revise d paths).2 := by
  induction paths generalizing d with
  | nil => exact .refl d _
  | cons path paths ih =>
      rw [disk_visitAll_cons]
      exact (rewritten_visit revise d path).trans (ih _)

section Apart

variable {paths : List Text} (hapart : paths.Pairwise d.Apart)

include hapart

/-- The visits of a run have the outcomes that they would have on the first disk. -/
theorem outcomes_visitAll :
    (visitAll revise d paths).1 = paths.map (outcomeAt revise d) := by
  induction paths generalizing d with
  | nil => rfl
  | cons path paths ih =>
      obtain ⟨hpath, hpaths⟩ := List.pairwise_cons.mp hapart
      have hvisit := rewritten_visit revise d path
      rw [outcomes_visitAll_cons, ih (hpaths.imp hvisit.apart), List.map_cons]
      refine congrArg _ (List.map_congr_left fun q hq => outcomeAt_congr revise ?_)
      exact hvisit.read_of_apart (by simpa using hpath q hq)

/-- A run leaves each file as its visit on the first disk would leave it. -/
theorem item?_visitAll (hmem : path ∈ paths) :
    (visitAll revise d paths).2.item? path = settledItem revise path (d.item? path) := by
  induction paths generalizing d with
  | nil => cases hmem
  | cons first paths ih =>
      obtain ⟨hfirst, hpaths⟩ := List.pairwise_cons.mp hapart
      have hvisit := rewritten_visit revise d first
      rw [disk_visitAll_cons]
      rcases List.mem_cons.mp hmem with rfl | hmem
      · refine ((rewritten_visitAll revise _ paths).item?_of_apart fun q hq => ?_).trans
          (item?_visit revise d path)
        exact hvisit.apart (hfirst q hq).symm
      · rw [ih (hpaths.imp hvisit.apart) hmem,
          hvisit.item?_of_apart (by simpa using hfirst path hmem)]

end Apart

end Run

/-! ## Runs in memory -/

/-- What happens to a source whose text becomes another. -/
def Outcome.between (s : Source) (t : Text) : Outcome :=
  if (Php.outline? s.text).isNone then .skipped
  else if t = s.text then .unchanged
  else .changed

namespace Summary

/-- The counts for sources whose texts become others: all sources, those with a different
text, and those that do not parse. -/
def between (sources : List Source) (texts : List Text) : Summary where
  scanned := sources.length
  changed := (sources.zip texts).countP fun (s, t) => t ≠ s.text
  skipped := sources.countP fun s => (Php.outline? s.text).isNone

theorem ofOutcomes_cons {s : Source} {t : Text} {sources : List Source} {texts : List Text}
    {outcomes : List Outcome} (hkept : Php.outline? s.text = none → t = s.text)
    (h : ofOutcomes outcomes = between sources texts) :
    ofOutcomes (.between s t :: outcomes) = between (s :: sources) (t :: texts) := by
  simp only [ofOutcomes, between, mk.injEq] at h ⊢
  obtain ⟨hscanned, hchanged, hskipped⟩ := h
  rw [List.length_cons, List.length_cons, List.count_cons, List.count_cons, List.zip_cons_cons,
    List.countP_cons, List.countP_cons, hscanned, hchanged, hskipped]
  refine ⟨rfl, ?_, ?_⟩
  · cases houtline : Php.outline? s.text with
    | none => simp [Outcome.between, houtline, hkept houtline]
    | some f => by_cases heq : t = s.text <;> simp [Outcome.between, houtline, heq]
  · cases houtline : Php.outline? s.text with
    | none => simp [Outcome.between, houtline]
    | some f => by_cases heq : t = s.text <;> simp [Outcome.between, houtline, heq]

end Summary

/-- What adding and removing have in common: a source that does not parse keeps its
text. -/
def KeepsUnparsed (revise : ParsedSource → Except Error Text) : Prop :=
  ∀ s : ParsedSource, s.outline = none → revise s = .ok s.text

theorem keepsUnparsed_addHints (graph : Graph) (options : Options) :
    KeepsUnparsed (ParsedSource.addHints graph options) := by
  intro s h
  rw [ParsedSource.addHints, h]

theorem keepsUnparsed_stripHints : KeepsUnparsed ParsedSource.stripHints := by
  intro s h
  rw [ParsedSource.stripHints, h]

section Memory

variable {revise : ParsedSource → Except Error Text} (hkeeps : KeepsUnparsed revise)

include hkeeps

omit hkeeps in
theorem outcomeOf_of_parsed {s : Source} {f : FileOutline} (h : Php.outline? s.text = some f) :
    outcomeOf revise s = (revise s.parse).map fun t =>
      if t = s.text then (.unchanged, none) else (.changed, some t) := by
  rw [outcomeOf, Source.parse, h]
  rfl

omit hkeeps in
theorem outcomeOf_of_unparsed {s : Source} (h : Php.outline? s.text = none) :
    outcomeOf revise s = .ok (.skipped, none) := by
  rw [outcomeOf, Source.parse, h]
  rfl

theorem outcome_outcomeOf (s : Source) :
    (outcomeOf revise s).map Prod.fst = (revise s.parse).map (Outcome.between s) := by
  cases houtline : Php.outline? s.text with
  | none =>
      rw [outcomeOf_of_unparsed houtline, hkeeps s.parse houtline]
      simp [Except.map, Outcome.between, houtline]
  | some f =>
      rw [outcomeOf_of_parsed houtline]
      cases revise s.parse with
      | error e => rfl
      | ok t => by_cases heq : t = s.text <;> simp [Except.map, Outcome.between, houtline, heq]

theorem settled_of_revise {s : Source} {t : Text} (h : revise s.parse = .ok t) :
    settled revise s = t := by
  cases houtline : Php.outline? s.text with
  | none =>
      rw [settled, outcomeOf_of_unparsed houtline]
      exact Except.ok.inj ((hkeeps s.parse houtline).symm.trans h)
  | some f =>
      rw [settled, outcomeOf_of_parsed houtline, h]
      by_cases heq : t = s.text <;> simp [Except.map, heq]

/-- A run leaves a file with the text that memory gives for it. -/
theorem read_visitAll {d : Disk} {paths : List Text} (hapart : paths.Pairwise d.Apart)
    {path t out : Text} (hmem : path ∈ paths) (hread : d.read path = .ok t)
    (hout : revise (Source.parse ⟨path, t⟩) = .ok out) :
    (visitAll revise d paths).2.read path = .ok out := by
  rw [Disk.read_eq_ok_iff, item?_visitAll revise hapart hmem, Disk.read_eq_ok_iff.mp hread,
    settledItem, settled_of_revise hkeeps hout]

/-- The outcomes of a run, counted, are the differences between the old and new texts. -/
theorem summary_outcomes (sources : List Source) :
    (sources.mapM fun s => (outcomeOf revise s).map Prod.fst).map Summary.ofOutcomes =
      (sources.mapM fun s => revise s.parse).map (Summary.between sources) := by
  induction sources with
  | nil => rfl
  | cons s sources ih =>
      rw [List.mapM_cons, List.mapM_cons, outcome_outcomeOf hkeeps]
      cases ht : revise s.parse with
      | error e => rfl
      | ok t =>
          have hkept : Php.outline? s.text = none → t = s.text := fun hnone =>
            Except.ok.inj (ht.symm.trans (hkeeps s.parse hnone))
          cases houtcomes : sources.mapM fun s => (outcomeOf revise s).map Prod.fst with
          | error e =>
              cases htexts : sources.mapM fun s => revise s.parse with
              | error e' =>
                  rw [houtcomes, htexts] at ih
                  cases ih
                  rfl
              | ok texts => rw [houtcomes, htexts] at ih; cases ih
          | ok outcomes =>
              cases htexts : sources.mapM fun s => revise s.parse with
              | error e' => rw [houtcomes, htexts] at ih; cases ih
              | ok texts =>
                  rw [houtcomes, htexts] at ih
                  exact congrArg Except.ok
                    (Summary.ofOutcomes_cons hkept (Except.ok.inj ih))

end Memory

/-! ## Refinement -/

/-- A run on a disk does to the files of some sources what a run in memory does to the
sources. -/
structure Refines (d : Disk) (sources : List Source) (texts : Except Error (List Text))
    (run : Except Error Summary × Disk) : Prop where
  /-- Both succeed or have the same error, and the counts are those of the new texts. -/
  result : run.1 = texts.map (Summary.between sources)
  /-- Each file has its new text. -/
  files : ∀ ts, texts = .ok ts → List.Forall₂ (fun s t => run.2.read s.path = .ok t) sources ts
  /-- Nothing else is touched. -/
  others : ∀ place, (∀ s ∈ sources, d.locate s.path ≠ .ok place) →
    run.2.top.item? place = d.top.item? place

section Refinement

variable {d : Disk} {sources : List Source} (hread : ∀ s ∈ sources, d.read s.path = .ok s.text)

include hread

theorem mapM_readSource : (sources.map Source.path).mapM (readSource d) = .ok sources := by
  induction sources with
  | nil => rfl
  | cons s sources ih =>
      obtain ⟨hs, hsources⟩ := List.forall_mem_cons.mp hread
      rw [List.map_cons, List.mapM_cons, readSource_of_read hs, ih hsources]
      rfl

variable (hapart : (sources.map Source.path).Pairwise d.Apart)

include hapart

theorem refines_reviseAll {revise : ParsedSource → Except Error Text}
    (hkeeps : KeepsUnparsed revise) :
    Refines d sources (sources.mapM fun s => revise s.parse)
      (reviseAll revise d (sources.map Source.path)) where
  result := by
    have houtcomes : (sources.map Source.path).map (outcomeAt revise d) =
        sources.map fun s => (outcomeOf revise s).map Prod.fst := by
      rw [List.map_map]
      exact List.map_congr_left fun s hs => outcomeAt_of_read revise (hread s hs)
    rw [← summary_outcomes hkeeps]
    show ((visitAll revise d _).1.mapM id).map _ = _
    rw [outcomes_visitAll revise hapart, houtcomes, List.mapM_map]
    rfl
  files := by
    intro texts htexts
    refine (forall₂_of_mapM htexts).imp ?_
    rintro s t ⟨hs, ht⟩
    exact read_visitAll hkeeps hapart (List.mem_map_of_mem hs) (hread s hs) ht
  others := by
    intro place hplace
    refine (rewritten_visitAll revise d _).item? place ?_
    simpa using hplace

/-- A run over files is the run in memory over their texts.  Let paths lead to files with
texts, no two of them to the same file.  Adding hints to the files succeeds exactly when
adding them to the texts does.  Each file then has the text that memory gives for it,
nothing else is touched, and the counts are those of all files, of those whose text is
another and of those that do not parse.  Removing hints is the same, file by file. -/
theorem disk_run_refines_memory (options : Options) :
    Refines d sources (add options sources) (addOn options d (sources.map Source.path)) ∧
      Refines d sources (sources.mapM remove) (removeOn d (sources.map Source.path)) := by
  constructor
  · rw [addOn, readGraph, mapM_readSource hread, add, List.mapM_map]
    exact refines_reviseAll hread hapart (keepsUnparsed_addHints _ options)
  · exact refines_reviseAll hread hapart keepsUnparsed_stripHints

end Refinement

/-- A source that documents a type, with a path through a directory. -/
def documentedSource : Source :=
  ⟨"src/a.php".toList, "<?php /** @return int */ function f() \x7b\x7d".toList⟩

/-- A source that does not parse, with a path that goes down and up. -/
def brokenSource : Source := ⟨"src/../b.php".toList, "<?php function".toList⟩

/-- A disk with both, and a file that holds no text. -/
def mixedDisk : Disk :=
  ⟨.file "b.php".toList (.text brokenSource.text) <|
    .directory "src".toList
      (.file "a.php".toList (.text documentedSource.text) <|
        .file "c.php".toList (.binary [255]) .empty)
    .empty, []⟩

/-- The theorem applies to both sources on that disk: adding hints changes one file and
skips one, and removing them changes none. -/
theorem disk_run_refines_memory_mixed :
    mixedDisk.read documentedSource.path = .ok documentedSource.text ∧
    mixedDisk.read brokenSource.path = .ok brokenSource.text ∧
    mixedDisk.Apart documentedSource.path brokenSource.path ∧
    (addOn (fun _ => true) mixedDisk [documentedSource.path, brokenSource.path]).1 =
      .ok ⟨2, 1, 1⟩ ∧
    (removeOn mixedDisk [documentedSource.path, brokenSource.path]).1 = .ok ⟨2, 0, 1⟩ := by
  have hread : ∀ s ∈ [documentedSource, brokenSource], mixedDisk.read s.path = .ok s.text := by
    decide
  have hapart : mixedDisk.Apart documentedSource.path brokenSource.path :=
    .of_ne (by decide)
  obtain ⟨hadd, hremove⟩ := disk_run_refines_memory hread (by simpa using hapart) fun _ => true
  refine ⟨hread _ (by simp), hread _ (by simp), hapart, hadd.result.trans ?_,
    hremove.result.trans ?_⟩
  · decide +kernel
  · decide +kernel

/-! ## Two paths to one file -/

/-- A file in which one anonymous class stands in a method of another. -/
def nestedClassText : Text :=
  "<?php new class\x7bfunction m($x)\x7b".toList ++
    "new class\x7b/** @param int $x */function m($x)\x7b\x7d\x7d;\x7d\x7d;".toList

/-- A disk with that file alone. -/
def nestedClassDisk : Disk := ⟨.file "a.php".toList (.text nestedClassText) .empty, []⟩

/-- The same file in a directory. -/
def aliasedDisk : Disk := ⟨.directory "d".toList nestedClassDisk.top .empty, []⟩

/-- The file of `aliasedDisk` by two paths. -/
def aliasedSources : List Source :=
  [⟨"d/a.php".toList, nestedClassText⟩, ⟨"./d/a.php".toList, nestedClassText⟩]

/-- It is not enough that the paths are different.  The second visit to the file finds the
outer class where the inner one was when the hierarchy was read, and gives its method the
hint of the other one. -/
theorem distinct_paths_not_refined :
    (aliasedSources.map Source.path).Nodup ∧
    (∀ s ∈ aliasedSources, aliasedDisk.read s.path = .ok s.text) ∧
    ¬ Refines aliasedDisk aliasedSources (add (fun _ => true) aliasedSources)
      (addOn (fun _ => true) aliasedDisk (aliasedSources.map Source.path)) := by
  refine ⟨by decide, by decide, fun h => ?_⟩
  have hmemory : add (fun _ => true) aliasedSources = .ok (List.replicate 2
      ("<?php declare(strict_types=1); new class\x7bfunction m($x)\x7b".toList ++
        "new class\x7b/** @param int $x */function m(int $x)\x7b\x7d\x7d;\x7d\x7d;".toList)) := by
    decide +kernel
  have hdisk : (addOn (fun _ => true) aliasedDisk (aliasedSources.map Source.path)).2.read
      "d/a.php".toList =
      .ok ("<?php declare(strict_types=1); new class\x7bfunction m(int $x)\x7b".toList ++
        "new class\x7b/** @param int $x */function m(int $x)\x7b\x7d\x7d;\x7d\x7d;".toList) := by
    decide +kernel
  have hfirst := (List.forall₂_cons.mp (h.files _ hmemory)).1
  exact absurd (hdisk.symm.trans hfirst) (by decide +kernel)

end Codebase

end NativeHints
