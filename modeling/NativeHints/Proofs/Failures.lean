import NativeHints.CommandLine.Run
import NativeHints.Proofs.Contract
import NativeHints.Proofs.Runs

/-!
# Failures

Adding hints reads all files before it writes to any.  If one of them cannot be read
the run ends there.  Otherwise no later step can fail: a file that could be read at
first can be read at every later visit, also at one that meets it rewritten
(`readable_visit`), and a source that parses can always be given its hints.  So a run
that fails has written nothing (`failed_add_keeps_disk`).

Removing hints has no such first phase.  It goes through all files and reports the first
failure afterwards.  The files behind one that cannot be read are rewritten like the
others (`remove_run_goes_on`).
-/

namespace NativeHints

open Files (Disk Item Fault)

namespace Files.Disk

/-- Paths that lead to the same location read the same. -/
theorem read_of_locate {d : Disk} {p q : Text} (h : d.locate p = d.locate q) :
    d.read p = d.read q := by
  rw [read_eq, read_eq, h]

end Files.Disk

namespace Codebase

/-! ## What cannot fail -/

/-- Hints can be added to every source. -/
theorem exists_addHints_parse (graph : Graph) (options : Options) (s : Source) :
    ∃ t, s.parse.addHints graph options = .ok t := by
  cases houtline : Php.outline? s.text with
  | none => exact ⟨s.text, keepsUnparsed_addHints graph options s.parse houtline⟩
  | some f =>
      obtain ⟨t, ht⟩ := exists_addHints ⟨graph, options, s.path⟩ (Php.sound_outline? houtline)
      refine ⟨t, ?_⟩
      rw [ParsedSource.addHints, Source.parse, houtline]
      exact ht

/-- Hints can be removed from every source. -/
theorem exists_remove (s : Source) : ∃ t, remove s = .ok t := by
  cases houtline : Php.outline? s.text with
  | none => exact ⟨s.text, keepsUnparsed_stripHints s.parse houtline⟩
  | some f =>
      have hsound := Php.sound_outline? houtline
      obtain ⟨t, ht⟩ :=
        exists_stripHints s.path hsound.decls hsound.start_lt_stop hsound.disjoint
      refine ⟨t, ?_⟩
      rw [remove, ParsedSource.stripHints, Source.parse, houtline]
      exact ht

section Run

variable {revise : ParsedSource → Except Error Text} (hkeeps : KeepsUnparsed revise)
  (htotal : ∀ s : Source, ∃ t, revise s.parse = .ok t) {d : Disk}

include hkeeps htotal

theorem exists_outcomeAt {path t : Text} (h : d.read path = .ok t) :
    ∃ outcome, outcomeAt revise d path = .ok outcome := by
  obtain ⟨new, hnew⟩ := htotal ⟨path, t⟩
  rw [outcomeAt_of_read revise h, outcome_outcomeOf hkeeps, hnew]
  exact ⟨_, rfl⟩

omit hkeeps htotal in
/-- What can be read can still be read after a visit, also if it is the file that was
visited. -/
theorem readable_visit (revise : ParsedSource → Except Error Text) (path : Text) {q t : Text}
    (h : d.read q = .ok t) : ∃ t', (visit revise d path).2.read q = .ok t' := by
  have hvisit := rewritten_visit revise d path
  by_cases hlocate : d.locate path = d.locate q
  · rw [Disk.read_of_locate (d := (visit revise d path).2) (q := path)
      (by rw [hvisit.locate, hvisit.locate, hlocate])]
    have hitem := Disk.read_eq_ok_iff.mp ((Disk.read_of_locate hlocate).trans h)
    refine ⟨settled revise ⟨path, t⟩, Disk.read_eq_ok_iff.mpr ?_⟩
    rw [item?_visit, hitem, settledItem]
  · refine ⟨t, (hvisit.read_of_apart ?_).trans h⟩
    simpa using Disk.Apart.of_ne hlocate

/-- A run over files that can be read succeeds, however often a file stands in the list. -/
theorem exists_outcomes {paths : List Text} (hread : ∀ p ∈ paths, ∃ t, d.read p = .ok t) :
    ∃ outcomes, (visitAll revise d paths).1.mapM id = .ok outcomes := by
  induction paths generalizing d with
  | nil => exact ⟨[], rfl⟩
  | cons path paths ih =>
      obtain ⟨⟨t, ht⟩, hpaths⟩ := List.forall_mem_cons.mp hread
      obtain ⟨outcome, houtcome⟩ := exists_outcomeAt hkeeps htotal ht
      obtain ⟨outcomes, houtcomes⟩ := ih fun q hq => by
        obtain ⟨u, hu⟩ := hpaths q hq
        exact readable_visit revise path hu
      refine ⟨outcome :: outcomes, ?_⟩
      rw [outcomes_visitAll_cons, houtcome, List.mapM_cons, houtcomes]
      rfl

end Run

/-! ## Adding -/

theorem read_of_readSource {d : Disk} {path : Text} {s : Source}
    (h : readSource d path = .ok s) : d.read path = .ok s.text := by
  unfold readSource at h
  split at h
  · next t ht => cases h; exact ht
  · cases h

/-- The first phase reads every file. -/
theorem exists_read_of_readGraph {d : Disk} {paths : List Text} {graph : Graph}
    (h : readGraph d paths = .ok graph) : ∀ p ∈ paths, ∃ t, d.read p = .ok t := by
  cases hsources : paths.mapM (readSource d) with
  | error e => rw [readGraph, hsources] at h; cases h
  | ok sources =>
      have hread : List.Forall₂ (fun p (s : Source) => d.read p = .ok s.text) paths sources :=
        (forall₂_of_mapM hsources).imp fun _ _ hs => read_of_readSource hs.2
      clear h hsources
      induction hread with
      | nil => simp
      | cons hfirst _ ih => exact List.forall_mem_cons.mpr ⟨⟨_, hfirst⟩, ih⟩

/-- Adding hints to files fails before anything is written. -/
theorem disk_addOn_of_error {options : Options} {d : Disk} {paths : List Text} {e : Error}
    (h : (addOn options d paths).1 = .error e) : (addOn options d paths).2 = d := by
  rw [addOn] at h ⊢
  cases hgraph : readGraph d paths with
  | error e' => rfl
  | ok graph =>
      rw [hgraph] at h
      obtain ⟨outcomes, houtcomes⟩ := exists_outcomes (keepsUnparsed_addHints graph options)
        (exists_addHints_parse graph options) (exists_read_of_readGraph hgraph)
      have hresult : (reviseAll (ParsedSource.addHints graph options) d paths).1 =
          .ok (Summary.ofOutcomes outcomes) := by
        show ((visitAll _ d paths).1.mapM id).map _ = _
        rw [houtcomes]
        rfl
      cases hresult.symm.trans h

end Codebase

namespace CommandLine

theorem Failure.during_eq_error {α : Type} {stage : Stage} {r : Except Error α} {f : Failure}
    (h : during stage r = .error f) : ∃ e, r = .error e := by
  cases r with
  | error e => exact ⟨e, rfl⟩
  | ok a => cases h

/-- A failing command to add hints changes nothing.  Whatever the reason is, the disk is the
one it was: a configuration that is missing, malformed or names a bad version, a bad pattern,
a missing root, or a file that cannot be read at any place of the list.  Roots may overlap,
so a file may be visited more than once. -/
theorem failed_add_keeps_disk (c : AddCommand) (d : Disk) {f : Failure}
    (h : (c.run d).1 = .error f) : (c.run d).2 = d := by
  rw [AddCommand.run] at h ⊢
  cases hprepare : c.prepare d with
  | error f' => rfl
  | ok prepared =>
      rw [hprepare] at h
      obtain ⟨e, he⟩ := Failure.during_eq_error h
      exact Codebase.disk_addOn_of_error he

/-- Roots that overlap, so that each file below `src` is found twice. -/
def overlappingAdd : AddCommand := ⟨["src".toList, ".".toList], none, none, [], .none⟩

/-- A file that holds no text, found twice and behind a file that would get hints, stops the
command before it writes. -/
theorem failed_add_keeps_disk_overlapping :
    (overlappingAdd.run Codebase.mixedDisk).1 =
      .error ⟨.adding, .io "src/c.php".toList Fault.notText.message⟩ ∧
    (overlappingAdd.run Codebase.mixedDisk).2 = Codebase.mixedDisk := by
  have h : (overlappingAdd.run Codebase.mixedDisk).1 =
      .error ⟨.adding, .io "src/c.php".toList Fault.notText.message⟩ := by decide +kernel
  exact ⟨h, failed_add_keeps_disk _ _ h⟩

end CommandLine

/-! ## Removing -/

namespace Codebase

theorem mapM_id_of_error {α ε : Type} {front : List (Except ε α)}
    (h : ∀ r ∈ front, ∃ a, r = .ok a) (e : ε) (back : List (Except ε α)) :
    (front ++ .error e :: back).mapM id = .error e := by
  induction front with
  | nil => rfl
  | cons r front ih =>
      obtain ⟨⟨a, rfl⟩, hfront⟩ := List.forall_mem_cons.mp h
      rw [List.cons_append, List.mapM_cons, ih hfront]
      rfl

section Remove

variable {d : Disk} {paths : List Text} (hapart : paths.Pairwise d.Apart) {p : Text}
  (hmem : p ∈ paths)

include hapart hmem

/-- A file that can be read has its hints removed, whatever happens to the others. -/
theorem read_removeOn {t : Text} (h : d.read p = .ok t) :
    ∃ out, remove ⟨p, t⟩ = .ok out ∧ (removeOn d paths).2.read p = .ok out := by
  obtain ⟨out, hout⟩ := exists_remove ⟨p, t⟩
  exact ⟨out, hout, read_visitAll keepsUnparsed_stripHints hapart hmem h hout⟩

theorem item?_removeOn_of_unread {f : Fault} (h : d.read p = .error f) :
    (removeOn d paths).2.item? p = d.item? p := by
  show (visitAll _ d paths).2.item? p = _
  rw [item?_visitAll _ hapart hmem, settledItem_of_unread _ h]

/-- A file stays as it is exactly if it cannot be read or has nothing to remove. -/
theorem item?_removeOn_eq_iff :
    (removeOn d paths).2.item? p = d.item? p ↔
      ∀ t, d.read p = .ok t → remove ⟨p, t⟩ = .ok t := by
  cases hread : d.read p with
  | error f => simpa using item?_removeOn_of_unread hapart hmem hread
  | ok t =>
      obtain ⟨out, hout, hafter⟩ := read_removeOn hapart hmem hread
      rw [Disk.read_eq_ok_iff.mp hafter, Disk.read_eq_ok_iff.mp hread]
      simp [hout]

end Remove

/-- Removing hints goes on behind a failure.  Let no two paths lead to the same file, and let
the first file that cannot be read be the one at a certain path.  The run reports it.  But
every file that can be read, in front of it or behind it, has then its hints removed.  So
the files behind it stay as they are exactly if none of them has anything to remove. -/
theorem remove_run_goes_on {d : Disk} {before after : List Text} {path : Text} {f : Fault}
    (hapart : (before ++ path :: after).Pairwise d.Apart)
    (hbefore : ∀ p ∈ before, ∃ t, d.read p = .ok t) (hpath : d.read path = .error f) :
    (removeOn d (before ++ path :: after)).1 = .error (.io path f.message) ∧
    (∀ p ∈ before ++ path :: after, ∀ t, d.read p = .ok t →
      ∃ out, remove ⟨p, t⟩ = .ok out ∧
        (removeOn d (before ++ path :: after)).2.read p = .ok out) ∧
    ((∀ p ∈ after, (removeOn d (before ++ path :: after)).2.item? p = d.item? p) ↔
      ∀ p ∈ after, ∀ t, d.read p = .ok t → remove ⟨p, t⟩ = .ok t) := by
  refine ⟨?_, fun p hp t ht => read_removeOn hapart hp ht, ?_⟩
  · have hfront : ∀ r ∈ before.map (outcomeAt ParsedSource.stripHints d), ∃ o, r = .ok o := by
      intro r hr
      obtain ⟨p, hp, rfl⟩ := List.mem_map.mp hr
      obtain ⟨t, ht⟩ := hbefore p hp
      exact exists_outcomeAt keepsUnparsed_stripHints exists_remove ht
    show ((visitAll _ d _).1.mapM id).map _ = _
    rw [outcomes_visitAll _ hapart, List.map_append, List.map_cons,
      outcomeAt_of_unread _ hpath, mapM_id_of_error hfront]
    rfl
  · refine forall₂_congr fun p hp => item?_removeOn_eq_iff hapart ?_
    simp [hp]

/-- Two files with a hint, and one between them that holds no text. -/
def interruptedDisk : Disk :=
  ⟨.file "a.php".toList (.text "<?php fn(int $a) => 1;".toList) <|
    .file "b.php".toList (.binary [255]) <|
    .file "c.php".toList (.text "<?php fn(int $c) => 1;".toList) .empty, []⟩

/-- The run reports the file between the two, and the one behind it has lost its hint. -/
theorem remove_run_goes_on_interrupted :
    interruptedDisk.read "b.php".toList = .error .notText ∧
    (removeOn interruptedDisk ["a.php".toList, "b.php".toList, "c.php".toList]).1 =
      .error (.io "b.php".toList Fault.notText.message) ∧
    ∃ out, remove ⟨"c.php".toList, "<?php fn(int $c) => 1;".toList⟩ = .ok out ∧
      (removeOn interruptedDisk ["a.php".toList, "b.php".toList, "c.php".toList]).2.read
        "c.php".toList = .ok out := by
  have hapart : (["a.php".toList] ++ "b.php".toList :: ["c.php".toList]).Pairwise
      interruptedDisk.Apart := by
    refine .imp Disk.Apart.of_ne ?_
    decide
  have hbefore : ∀ p ∈ ["a.php".toList], ∃ t, interruptedDisk.read p = .ok t := by
    intro p hp
    rw [List.mem_singleton.mp hp]
    exact ⟨_, rfl⟩
  have hpath : interruptedDisk.read "b.php".toList = .error .notText := rfl
  obtain ⟨hresult, hfiles, -⟩ := remove_run_goes_on hapart hbefore hpath
  exact ⟨hpath, hresult, hfiles "c.php".toList (by simp) _ rfl⟩

/-- The file behind the one that cannot be read is not as it was. -/
theorem remove_run_rewrites_behind_failure :
    (removeOn interruptedDisk ["a.php".toList, "b.php".toList, "c.php".toList]).1 =
      .error (.io "b.php".toList Fault.notText.message) ∧
    interruptedDisk.read "c.php".toList = .ok "<?php fn(int $c) => 1;".toList ∧
    (removeOn interruptedDisk ["a.php".toList, "b.php".toList, "c.php".toList]).2.read
      "c.php".toList = .ok "<?php fn($c) => 1;".toList := by
  decide +kernel

end Codebase

end NativeHints
