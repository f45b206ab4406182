import NativeHints.Proofs.Log
import NativeHints.Proofs.Replan
import NativeHints.Proofs.Sites
import NativeHints.Php.Reading

/-!
# Anonymous classes in the hierarchy

An anonymous class is recorded under a key made of its file and its position.  Keys are
looked up in lower case, and so is the path in them.  If no two paths are the same up to
case, anonymous classes of different files or positions have different keys.  What is
recorded for one then never shows in another, and if the names of all files are plain each
of them has exactly what it declares itself (`anonymous_classes_apart`).

Paths that differ in case only do share keys (`anonymous_classes_share_key`).
-/

namespace NativeHints

open NativeHints.Graph (lookupKey)

/-! ## Facts under other keys -/

/-- The facts that are not under a key. -/
def Facts.without (key : Text) (f : Facts) : Facts :=
  ⟨f.classes.filter fun e => lookupKey e.key ≠ key,
    f.edges.filter fun edge => lookupKey edge.1 ≠ key⟩

namespace Facts

variable {key other : Text}

theorem classesAt_without (h : key ≠ other) (f : Facts) :
    (f.without other).classesAt key = f.classesAt key := by
  simp only [classesAt, without, List.filter_filter]
  refine List.filter_congr fun e _ => ?_
  by_cases hkey : lookupKey e.key = key <;> simp [hkey, h]

theorem parentsAt_without (h : key ≠ other) (f : Facts) :
    (f.without other).parentsAt key = f.parentsAt key := by
  simp only [parentsAt, without, List.filter_filter]
  refine congrArg (List.map Prod.snd) (List.filter_congr fun edge _ => ?_)
  by_cases hkey : lookupKey edge.1 = key <;> simp [hkey, h]

end Facts

namespace Graph

variable {other : Text}

/-- What is under one key does not depend on the facts under another. -/
theorem find?_ofFacts_without {key : Text} (h : key ≠ other) (fs : List Facts) :
    (ofFacts (fs.map (Facts.without other))).classes.find? key = (ofFacts fs).classes.find? key ∧
      (ofFacts (fs.map (Facts.without other))).parents.find? key =
        (ofFacts fs).parents.find? key := by
  simp only [find?_classes_ofFacts, find?_parents_ofFacts, List.flatMap_map,
    Facts.classesAt_without h, Facts.parentsAt_without h, and_self]

/-- The hierarchy of files without the facts under a key. -/
def ofOutlinesWithout (key : Text) (files : List (Text × Outline)) : Graph :=
  ofFacts (files.map fun file => (file.2.facts file.1).without key)

theorem find?_ofOutlinesWithout {key : Text} (h : key ≠ other) (files : List (Text × Outline)) :
    (ofOutlinesWithout other files).classes.find? key = (ofOutlines files).classes.find? key ∧
      (ofOutlinesWithout other files).parents.find? key = (ofOutlines files).parents.find? key := by
  have hfacts := find?_ofFacts_without h (files.map fun file => file.2.facts file.1)
  rwa [List.map_map] at hfacts

end Graph

/-- One list alone makes up the whole, if no two of the lists have members. -/
theorem flatMap_eq_of_mem {α β : Type} {h : α → List β} {l : List α} {a : α} (ha : a ∈ l)
    (hmember : h a ≠ []) (hone : l.Pairwise fun a b => h a = [] ∨ h b = []) :
    l.flatMap h = h a := by
  obtain ⟨front, back, rfl⟩ := List.append_of_mem ha
  obtain ⟨-, hback, hfront⟩ := List.pairwise_append.mp hone
  have hfront' : front.flatMap h = [] := by
    rw [List.flatMap_eq_nil_iff]
    intro b hb
    exact (hfront b hb a (List.mem_cons_self ..)).resolve_right hmember
  have hback' : back.flatMap h = [] := by
    rw [List.flatMap_eq_nil_iff]
    intro b hb
    exact ((List.pairwise_cons.mp hback).1 b hb).resolve_left hmember
  rw [List.flatMap_append, List.flatMap_cons, hfront', hback', List.nil_append, List.append_nil]

/-! ## Plain class-likes -/

namespace Outline

/-- The class-likes of a plain outline are plain, and so are the names in effect at them. -/
theorem plain_classSites {o : Outline} (ho : o.Plain) {s : Scope} (hs : s.Plain) {c : ClassSite}
    (hc : c ∈ o.classSites s) : c.head.Plain ∧ c.scope.Plain ∧ c.members.Plain := by
  induction o generalizing s with
  | empty => cases hc
  | namespaceLine name rest ih => exact ih ho.2 (Scope.plain_enter s ho.1) hc
  | namespaceBlock name body rest ihbody ihrest =>
      rcases List.mem_append.mp hc with hc | hc
      · exact ihbody ho.2.1 (Scope.plain_enter s ho.1) hc
      · exact ihrest ho.2.2 (Scope.plain_enter _ fun n hn => by cases hn) hc
  | imports clauses rest ih => exact ih ho.2 (Scope.plain_importAll hs ho.1) hc
  | classLike head members rest ihmembers ihrest =>
      rcases List.mem_append.mp hc with hc | hc
      · exact ihmembers ho.2.1 hs hc
      · rcases List.mem_cons.mp hc with rfl | hc
        · exact ⟨ho.1, hs, ho.2.1⟩
        · exact ihrest ho.2.2 (plain_scopeAfter ho.2.1 hs) hc
  | functionLike head body rest ihbody ihrest =>
      rcases List.mem_append.mp hc with hc | hc
      · exact ihbody ho.1 hs hc
      · exact ihrest ho.2 (plain_scopeAfter ho.1 hs) hc
  | property decl rest ih => exact ih ho hs hc
  | traitUse names rest ih => exact ih ho.2 hs hc

theorem plain_usedTraits {o : Outline} (ho : o.Plain) {s : Scope} (hs : s.Plain) {t : Text}
    (ht : t ∈ o.usedTraits s) : t.Plain := by
  induction o generalizing s with
  | empty => cases ht
  | namespaceLine name rest ih => exact ih ho.2 (Scope.plain_enter s ho.1) ht
  | namespaceBlock name body rest ihbody ihrest =>
      rcases List.mem_append.mp ht with ht | ht
      · exact ihbody ho.2.1 (Scope.plain_enter s ho.1) ht
      · exact ihrest ho.2.2 (Scope.plain_enter _ fun n hn => by cases hn) ht
  | imports clauses rest ih => exact ih ho.2 (Scope.plain_importAll hs ho.1) ht
  | classLike head members rest _ ihrest => exact ihrest ho.2.2 (plain_scopeAfter ho.2.1 hs) ht
  | functionLike head body rest ihbody ihrest =>
      rcases List.mem_append.mp ht with ht | ht
      · exact ihbody ho.1 hs ht
      · exact ihrest ho.2 (plain_scopeAfter ho.1 hs) ht
  | property decl rest ih => exact ih ho hs ht
  | traitUse names rest ih =>
      rcases List.mem_append.mp ht with ht | ht
      · obtain ⟨n, hn, rfl⟩ := List.mem_map.mp ht
        exact Scope.plain_resolve hs (ho.1 n hn)
      · exact ih ho.2 hs ht

/-- No two anonymous classes of a file begin at the same position. -/
def AnonymousApart (o : Outline) : Prop :=
  (o.classSites .start).Pairwise fun c d =>
    c.head.name = none → d.head.name = none → c.head.start ≠ d.head.start

end Outline

/-- A plain name is not looked up as an anonymous class. -/
theorem Graph.lookupKey_ne_anonymousName {name : Text} (h : name.Plain) (path : Text)
    (start : Nat) : lookupKey name ≠ lookupKey (anonymousName path start) := by
  intro hkey
  have hplain := plain_lookupKey_iff.mpr h
  rw [hkey, plain_lookupKey_iff] at hplain
  exact not_plain_anonymousName _ _ hplain

/-! ## What is under the key of an anonymous class -/

section Anonymous

variable {o : Outline} (ho : o.Plain)

include ho

/-- Only an anonymous class at the same position of the same file, up to the case of its path,
has the key of an anonymous class. -/
theorem ClassSite.anonymous_of_key {path other : Text} {start : Nat} {c : ClassSite}
    (hc : c ∈ o.classSites .start)
    (h : lookupKey (c.key path) = lookupKey (anonymousName other start)) :
    c.head.name = none ∧ path.lower = other.lower ∧ c.head.start = start := by
  obtain ⟨hhead, hscope, -⟩ := Outline.plain_classSites ho Scope.plain_start hc
  cases hname : c.head.name with
  | some name =>
      rw [key, ClassHead.key_of_name hname] at h
      exact absurd h (Graph.lookupKey_ne_anonymousName
        (Scope.plain_qualify hscope (hhead.1 name hname)) _ _)
  | none =>
      rw [key, ClassHead.key_of_anonymous hname, Graph.lookupKey_anonymousName_eq_iff] at h
      exact ⟨rfl, h⟩

/-- No trait is used under the key of an anonymous class. -/
theorem ClassSite.edges_filter (path other : Text) (start : Nat) {c : ClassSite}
    (hc : c ∈ o.classSites .start) :
    ((c.edges path).filter fun edge => lookupKey edge.1 = lookupKey (anonymousName other start)) =
      if lookupKey (c.key path) = lookupKey (anonymousName other start)
        then [(c.key path, c.parents)] else [] := by
  obtain ⟨-, hscope, hmembers⟩ := Outline.plain_classSites ho Scope.plain_start hc
  have htraits : ((c.usedTraits.map fun t => (t, c.parents)).filter fun edge =>
      lookupKey edge.1 = lookupKey (anonymousName other start)) = [] := by
    rw [List.filter_eq_nil_iff]
    intro edge hedge
    obtain ⟨t, ht, rfl⟩ := List.mem_map.mp hedge
    simpa using Graph.lookupKey_ne_anonymousName
      (Outline.plain_usedTraits hmembers hscope ht) other start
  rw [edges, List.filter_cons, htraits]
  simp

omit ho in
/-- The class-likes of a file under a key. -/
def Outline.sitesAt (path key : Text) (o : Outline) : List ClassSite :=
  (o.classSites .start).filter fun c => lookupKey (c.key path) = key

omit ho in
theorem Outline.classesAt_facts (o : Outline) (path key : Text) :
    (o.facts path).classesAt key = (o.sitesAt path key).map (ClassSite.entry path) := by
  rw [Facts.classesAt, classes_facts, List.filter_map, sitesAt]
  simp only [Function.comp_def, ClassSite.key_entry]

omit ho in
theorem Outline.sitesAt_eq_flatMap (o : Outline) (path key : Text) : o.sitesAt path key =
    (o.classSites .start).flatMap fun c => [c].filter fun c => lookupKey (c.key path) = key := by
  rw [sitesAt, ← List.filter_flatMap, List.flatMap_singleton']

theorem Outline.parentsAt_facts_perm (path other : Text) (start : Nat) :
    ((o.facts path).parentsAt (lookupKey (anonymousName other start))).Perm
      ((o.sitesAt path (lookupKey (anonymousName other start))).map ClassSite.parents) := by
  refine (((o.edges_facts path).filter _).map _).trans (.of_eq ?_)
  rw [List.filter_flatMap, List.map_flatMap, sitesAt_eq_flatMap, List.map_flatMap]
  refine List.flatMap_congr fun c hc => ?_
  rw [ClassSite.edges_filter ho path other start hc, List.filter_singleton]
  by_cases hkey : lookupKey (c.key path) = lookupKey (anonymousName other start) <;> simp [hkey]

/-- A file has no class-like under the key of an anonymous class of another file. -/
theorem Outline.sitesAt_of_path {path other : Text} (hpath : path.lower ≠ other.lower)
    (start : Nat) :
    o.sitesAt path (lookupKey (anonymousName other start)) = [] := by
  rw [sitesAt, List.filter_eq_nil_iff]
  intro c hc hkey
  exact hpath (ClassSite.anonymous_of_key ho hc (of_decide_eq_true hkey)).2.1

/-- An anonymous class is the only class-like under its key. -/
theorem Outline.sitesAt_anonymous (hapart : o.AnonymousApart) (path : Text) {c : ClassSite}
    (hc : c ∈ o.classSites .start) (hname : c.head.name = none) :
    o.sitesAt path (lookupKey (c.key path)) = [c] := by
  have hkey : c.key path = anonymousName path c.head.start := ClassHead.key_of_anonymous hname _ _
  have hstart : ∀ d ∈ o.classSites .start, lookupKey (d.key path) = lookupKey (c.key path) →
      d.head.name = none ∧ d.head.start = c.head.start := by
    intro d hd hsame
    rw [hkey] at hsame
    obtain ⟨hdname, -, hdstart⟩ := ClassSite.anonymous_of_key ho hd hsame
    exact ⟨hdname, hdstart⟩
  have hone : (o.classSites .start).Pairwise fun d e =>
      ([d].filter fun d => lookupKey (d.key path) = lookupKey (c.key path)) = [] ∨
        ([e].filter fun e => lookupKey (e.key path) = lookupKey (c.key path)) = [] := by
    refine hapart.imp_of_mem fun {d e} hd he hde => ?_
    by_contra! hboth
    obtain ⟨hdkey, hekey⟩ := hboth
    obtain ⟨hdname, hdstart⟩ := hstart d hd (by simpa using hdkey)
    obtain ⟨hename, hestart⟩ := hstart e he (by simpa using hekey)
    exact hde hdname hename (hdstart.trans hestart.symm)
  have hself : ([c].filter fun c' => lookupKey (c'.key path) = lookupKey (c.key path)) = [c] := by
    simp
  rw [sitesAt_eq_flatMap, flatMap_eq_of_mem hc (by simp) hone, hself]

/-- No facts of a file are under the key of an anonymous class of another file. -/
theorem Outline.factsAt_of_path {path other : Text} (hpath : path.lower ≠ other.lower)
    (start : Nat) :
    (o.facts path).classesAt (lookupKey (anonymousName other start)) = [] ∧
      (o.facts path).parentsAt (lookupKey (anonymousName other start)) = [] := by
  have hsites := sitesAt_of_path ho hpath start
  constructor
  · rw [classesAt_facts, hsites, List.map_nil]
  · have hparents := parentsAt_facts_perm ho path other start
    rw [hsites, List.map_nil] at hparents
    exact hparents.eq_nil

/-- The facts of a file under the key of one of its anonymous classes are those of the class. -/
theorem Outline.factsAt_anonymous (hapart : o.AnonymousApart) (path : Text) {c : ClassSite}
    (hc : c ∈ o.classSites .start) (hname : c.head.name = none) :
    (o.facts path).classesAt (lookupKey (c.key path)) = [c.entry path] ∧
      (o.facts path).parentsAt (lookupKey (c.key path)) = [c.parents] := by
  have hsites := sitesAt_anonymous ho hapart path hc hname
  constructor
  · rw [classesAt_facts, hsites, List.map_singleton]
  · rw [show c.key path = anonymousName path c.head.start from
      ClassHead.key_of_anonymous hname _ _] at hsites ⊢
    have hparents := parentsAt_facts_perm ho path path c.head.start
    rw [hsites, List.map_singleton] at hparents
    exact hparents.eq_singleton

end Anonymous

/-- In the hierarchy of plain files, an anonymous class has what it declares itself. -/
theorem Graph.ofOutlines_anonymous {files : List (Text × Outline)}
    (hpaths : (files.map fun file => file.1.lower).Nodup)
    (hfiles : ∀ file ∈ files, file.2.Plain ∧ file.2.AnonymousApart) {file : Text × Outline}
    (hfile : file ∈ files) {c : ClassSite} (hc : c ∈ file.2.classSites .start)
    (hname : c.head.name = none) :
    (ofOutlines files).class? (c.key file.1) = some (c.entry file.1) ∧
      (ofOutlines files).parentsOf (c.key file.1) = c.parents.foldl addName [] := by
  obtain ⟨hplain, hapart⟩ := hfiles file hfile
  obtain ⟨hclasses, hparents⟩ := Outline.factsAt_anonymous hplain hapart file.1 hc hname
  have hempty : files.Pairwise fun f f' =>
      ((f.2.facts f.1).classesAt (lookupKey (c.key file.1)) = [] ∧
        (f.2.facts f.1).parentsAt (lookupKey (c.key file.1)) = []) ∨
      (f'.2.facts f'.1).classesAt (lookupKey (c.key file.1)) = [] ∧
        (f'.2.facts f'.1).parentsAt (lookupKey (c.key file.1)) = [] := by
    rw [show c.key file.1 = anonymousName file.1 c.head.start from
      ClassHead.key_of_anonymous hname _ _]
    refine (List.pairwise_map.mp hpaths).imp_of_mem fun {f f'} hf hf' hne => ?_
    by_cases hpath : f.1.lower = file.1.lower
    · have hpath' : f'.1.lower ≠ file.1.lower := fun h => hne (hpath.trans h.symm)
      exact .inr (Outline.factsAt_of_path (hfiles f' hf').1 hpath' _)
    · exact .inl (Outline.factsAt_of_path (hfiles f hf).1 hpath _)
  constructor
  · rw [class?, ofOutlines, find?_classes_ofFacts, List.flatMap_map, flatMap_eq_of_mem hfile
      (by simp [hclasses]) (hempty.imp fun h => h.imp And.left And.left)]
    rw [hclasses]
    rfl
  · rw [ofOutlines, parentsOf_ofFacts, List.flatMap_map, flatMap_eq_of_mem hfile
      (by simp [hparents]) (hempty.imp fun h => h.imp And.right And.right)]
    rw [hparents, List.flatten_singleton]

/-- Two anonymous classes share a lookup key exactly if the paths of their files are the same up
to case and they begin at the same position.  If they do not, then with everything under the key
of one taken out the other has the entry and the parents it had.  If moreover no two paths are
the same up to case, the files are plain and no two anonymous classes of a file begin at the
same position, each has the entry made from its own members and the parents it declares. -/
theorem anonymous_classes_apart (files : List (Text × Outline)) :
    (∀ file ∈ files, ∀ file' ∈ files, ∀ c ∈ file.2.classSites .start,
      ∀ c' ∈ file'.2.classSites .start, c.head.name = none → c'.head.name = none →
      (lookupKey (c.key file.1) = lookupKey (c'.key file'.1) ↔
        file.1.lower = file'.1.lower ∧ c.head.start = c'.head.start) ∧
      (file.1.lower ≠ file'.1.lower ∨ c.head.start ≠ c'.head.start →
        (Graph.ofOutlinesWithout (lookupKey (c'.key file'.1)) files).class? (c.key file.1) =
          (Graph.ofOutlines files).class? (c.key file.1) ∧
        (Graph.ofOutlinesWithout (lookupKey (c'.key file'.1)) files).isKnown (c.key file.1) =
          (Graph.ofOutlines files).isKnown (c.key file.1) ∧
        (Graph.ofOutlinesWithout (lookupKey (c'.key file'.1)) files).parentsOf (c.key file.1) =
          (Graph.ofOutlines files).parentsOf (c.key file.1))) ∧
    ((files.map fun file => file.1.lower).Nodup →
      (∀ file ∈ files, file.2.Plain ∧ file.2.AnonymousApart) →
      ∀ file ∈ files, ∀ c ∈ file.2.classSites .start, c.head.name = none →
        (Graph.ofOutlines files).class? (c.key file.1) = some (c.entry file.1) ∧
        (Graph.ofOutlines files).parentsOf (c.key file.1) =
          c.parents.foldl Graph.addName []) := by
  refine ⟨?_, fun hpaths hfiles file hfile c hc =>
    Graph.ofOutlines_anonymous hpaths hfiles hfile hc⟩
  intro file hfile file' hfile' c hc c' hc' hname hname'
  have hkeys : lookupKey (c.key file.1) = lookupKey (c'.key file'.1) ↔
      file.1.lower = file'.1.lower ∧ c.head.start = c'.head.start := by
    rw [ClassSite.key, ClassSite.key, ClassHead.key_of_anonymous hname,
      ClassHead.key_of_anonymous hname', Graph.lookupKey_anonymousName_eq_iff]
  refine ⟨hkeys, fun hdiffer => ?_⟩
  have hne : lookupKey (c.key file.1) ≠ lookupKey (c'.key file'.1) := by
    rw [Ne, hkeys, not_and_or]
    exact hdiffer
  obtain ⟨hclasses, hparents⟩ := Graph.find?_ofOutlinesWithout hne files
  exact ⟨hclasses, congrArg Option.isSome hparents, congrArg (Option.getD · []) hparents⟩

/-- An anonymous class in a method of another. -/
def nestedAnonymous : Outline :=
  .classLike ⟨.anonymous, none, 10, [], []⟩
    (.functionLike
      ⟨.method, some "m".toList, 34, some "/** @return int */".toList, [], some 46, none⟩
      (.classLike ⟨.anonymous, none, 51, ["P".toList], []⟩ .empty .empty) .empty) .empty

/-- The class in the method. -/
def innerAnonymous : ClassSite :=
  ⟨⟨.anonymous, none, 51, ["P".toList], []⟩, .start, .empty⟩

/-- Two files with the same text. -/
def equalFiles : List (Text × Outline) :=
  [("a.php".toList, nestedAnonymous), ("b.php".toList, nestedAnonymous)]

/-- The inner class has another key in each of the two files, and under that of the first it
has its own entry and parents. -/
theorem anonymous_classes_apart_nested :
    (equalFiles.map fun file => file.1.lower).Nodup ∧
    innerAnonymous ∈ nestedAnonymous.classSites .start ∧
    lookupKey (innerAnonymous.key "a.php".toList) ≠ lookupKey (innerAnonymous.key "b.php".toList) ∧
    (Graph.ofOutlines equalFiles).class? (innerAnonymous.key "a.php".toList) =
      some (innerAnonymous.entry "a.php".toList) ∧
    (Graph.ofOutlines equalFiles).parentsOf (innerAnonymous.key "a.php".toList) = ["P".toList] := by
  have hpaths : (equalFiles.map fun file => file.1.lower).Nodup := by decide
  have hsite : innerAnonymous ∈ nestedAnonymous.classSites .start := List.mem_cons_self ..
  have hfiles : ∀ file ∈ equalFiles, file.2.Plain ∧ file.2.AnonymousApart := by
    have hplain : nestedAnonymous.Plain := by decide
    have hapart : nestedAnonymous.AnonymousApart := by
      simp [Outline.AnonymousApart, nestedAnonymous, Outline.classSites]
    intro file hfile
    rcases List.mem_pair.mp hfile with rfl | rfl <;> exact ⟨hplain, hapart⟩
  obtain ⟨hpairs, hown⟩ := anonymous_classes_apart equalFiles
  obtain ⟨hkeys, -⟩ := hpairs ("a.php".toList, nestedAnonymous) (by simp [equalFiles])
    ("b.php".toList, nestedAnonymous) (by simp [equalFiles]) innerAnonymous hsite innerAnonymous
    hsite rfl rfl
  have hne : lookupKey (innerAnonymous.key "a.php".toList) ≠
      lookupKey (innerAnonymous.key "b.php".toList) :=
    fun h => absurd (hkeys.mp h).1 (by decide)
  obtain ⟨hclass, hparents⟩ := hown hpaths hfiles ("a.php".toList, nestedAnonymous)
    (by simp [equalFiles]) innerAnonymous hsite rfl
  exact ⟨hpaths, hsite, hne, hclass, hparents⟩

/-- An anonymous class without members. -/
def bareAnonymous : ClassSite := ⟨⟨.anonymous, none, 10, [], []⟩, .start, .empty⟩

/-- Two files whose paths differ in case record their anonymous classes under one key, and the
later one takes the place of the earlier. -/
theorem anonymous_classes_share_key :
    (Php.outline? "<?php new class\x7b\x7d;".toList).map FileOutline.decls =
      some (.classLike bareAnonymous.head .empty .empty) ∧
    lookupKey (bareAnonymous.key "a.php".toList) = lookupKey (bareAnonymous.key "A.php".toList) ∧
    (Graph.ofOutlines [("a.php".toList, .classLike bareAnonymous.head .empty .empty),
        ("A.php".toList, .classLike bareAnonymous.head .empty .empty)]).class?
      (bareAnonymous.key "a.php".toList) = some (bareAnonymous.entry "A.php".toList) := by
  decide +kernel

end NativeHints
