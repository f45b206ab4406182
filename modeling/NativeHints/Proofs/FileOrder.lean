import Mathlib.Data.Fin.VecNotation
import Mathlib.Data.List.FinRange
import NativeHints.Proofs.Failures
import NativeHints.Proofs.Log

/-!
# The order of files

Files meet only in the hierarchy.  If no two of them record anything under the same key,
then each key has its facts from one file, and these come in the same order wherever the
file stands.  So the hierarchy is the same for every order of the files
(`Graph.ofFacts_perm`), and each source is given the same hints.

A source that does not parse records nothing.  It makes no difference to the others where
it stands, or that it is there.
-/

namespace NativeHints

/-! ## Facts under different keys -/

/-- Two files record no entry and no parent list under the same key. -/
structure Facts.Apart (f f' : Facts) : Prop where
  classes : ∀ e ∈ f.classes, ∀ e' ∈ f'.classes, Graph.lookupKey e.key ≠ Graph.lookupKey e'.key
  edges : ∀ edge ∈ f.edges, ∀ edge' ∈ f'.edges,
    Graph.lookupKey edge.1 ≠ Graph.lookupKey edge'.1

instance (f f' : Facts) : Decidable (f.Apart f') :=
  decidable_of_iff
    ((∀ e ∈ f.classes, ∀ e' ∈ f'.classes, Graph.lookupKey e.key ≠ Graph.lookupKey e'.key) ∧
      ∀ edge ∈ f.edges, ∀ edge' ∈ f'.edges, Graph.lookupKey edge.1 ≠ Graph.lookupKey edge'.1)
    ⟨fun h => ⟨h.1, h.2⟩, fun h => ⟨h.classes, h.edges⟩⟩

namespace Facts.Apart

variable {f f' : Facts}

theorem symm (h : f.Apart f') : f'.Apart f where
  classes e he e' he' := (h.classes e' he' e he).symm
  edges edge hedge edge' hedge' := (h.edges edge' hedge' edge hedge).symm

theorem classesAt_eq_nil (h : f.Apart f') (key : Text) :
    f.classesAt key = [] ∨ f'.classesAt key = [] := by
  simp only [classesAt, List.filter_eq_nil_iff, decide_eq_true_eq]
  by_contra! hboth
  obtain ⟨⟨e, he, hkey⟩, e', he', hkey'⟩ := hboth
  exact h.classes e he e' he' (hkey.trans hkey'.symm)

theorem parentsAt_eq_nil (h : f.Apart f') (key : Text) :
    f.parentsAt key = [] ∨ f'.parentsAt key = [] := by
  simp only [parentsAt, List.map_eq_nil_iff, List.filter_eq_nil_iff, decide_eq_true_eq]
  by_contra! hboth
  obtain ⟨⟨edge, hedge, hkey⟩, edge', hedge', hkey'⟩ := hboth
  exact h.edges edge hedge edge' hedge' (hkey.trans hkey'.symm)

end Facts.Apart

/-- Lists that are all empty but for one give the same in every order. -/
theorem flatMap_eq_of_perm {α β : Type} {h : α → List β} {l l' : List α} (hperm : l.Perm l')
    (hone : l.Pairwise fun a b => h a = [] ∨ h b = []) : l.flatMap h = l'.flatMap h := by
  induction hperm with
  | nil => rfl
  | cons a _ ih => rw [List.flatMap_cons, List.flatMap_cons, ih (List.pairwise_cons.mp hone).2]
  | swap a b l =>
      obtain ⟨hb, -⟩ := List.pairwise_cons.mp hone
      rcases hb a (List.mem_cons_self ..) with hempty | hempty <;> simp [hempty]
  | trans hfirst _ ihfirst ihsecond =>
      rw [ihfirst hone, ihsecond ((hfirst.pairwise_iff fun h => h.symm).mp hone)]

/-- The hierarchy does not depend on the order of files that share no key. -/
theorem Graph.ofFacts_perm {fs fs' : List Facts} (hperm : fs.Perm fs')
    (hapart : fs.Pairwise Facts.Apart) : ofFacts fs = ofFacts fs' := by
  refine ofFacts_congr (fun key => ?_) fun key => ?_
  · rw [flatMap_eq_of_perm hperm (hapart.imp fun h => h.classesAt_eq_nil key)]
  · rw [flatMap_eq_of_perm hperm (hapart.imp fun h => h.parentsAt_eq_nil key)]

/-! ## Code bases -/

/-- Two sources record nothing under the same key. -/
def Source.Apart (s s' : Source) : Prop := ∀ f ∈ s.facts?, ∀ f' ∈ s'.facts?, f.Apart f'

instance (s s' : Source) : Decidable (s.Apart s') :=
  inferInstanceAs (Decidable (∀ f ∈ s.facts?, ∀ f' ∈ s'.facts?, f.Apart f'))

theorem Source.Apart.symm {s s' : Source} (h : s.Apart s') : s'.Apart s :=
  fun f hf f' hf' => (h f' hf' f hf).symm

namespace Codebase

theorem graphOf_map_parse (sources : List Source) :
    graphOf (sources.map Source.parse) = Graph.ofFacts (sources.filterMap Source.facts?) := by
  rw [graphOf, List.filterMap_map]
  rfl

theorem graphOf_perm {sources sources' : List Source} (hperm : sources.Perm sources')
    (hapart : sources.Pairwise Source.Apart) :
    graphOf (sources.map Source.parse) = graphOf (sources'.map Source.parse) := by
  rw [graphOf_map_parse, graphOf_map_parse]
  exact Graph.ofFacts_perm (hperm.filterMap _) (List.pairwise_filterMap.mpr hapart)

/-- A source that does not parse adds nothing to the hierarchy. -/
theorem graphOf_unparsed {before after : List Source} {broken : Source}
    (h : Php.outline? broken.text = none) :
    graphOf ((before ++ broken :: after).map Source.parse) =
      graphOf ((before ++ after).map Source.parse) := by
  have hnone : broken.facts? = none := by rw [Source.facts?, h]; rfl
  rw [graphOf_map_parse, graphOf_map_parse, List.filterMap_append, List.filterMap_append,
    List.filterMap_cons_none hnone]

/-- With one hierarchy, each source is given hints on its own. -/
theorem exists_addHints_each (graph : Graph) (options : Options) :
    ∃ hinted : Source → Text, (∀ s : Source, s.parse.addHints graph options = .ok (hinted s)) ∧
      ∀ sources : List Source,
        (sources.map Source.parse).mapM (ParsedSource.addHints graph options) =
          .ok (sources.map hinted) := by
  choose hinted h using exists_addHints_parse graph options
  refine ⟨hinted, h, fun sources => ?_⟩
  induction sources with
  | nil => rfl
  | cons s sources ih => rw [List.map_cons, List.mapM_cons, h, ih]; rfl

/-- The order of files and files that do not parse do not matter.  If no two sources record
anything under the same key, then with the sources in another order the results are the same
ones in that order.  And a source that does not parse may be put in anywhere: it stays as it
is and the results of all others are the same. -/
theorem add_files_independent (options : Options) :
    (∀ {n : Nat} (sources : Fin n → Source) (σ : Equiv.Perm (Fin n)),
      (∀ i j, i ≠ j → (sources i).Apart (sources j)) →
      ∃ texts : Fin n → Text, add options (List.ofFn sources) = .ok (List.ofFn texts) ∧
        add options (List.ofFn (sources ∘ σ)) = .ok (List.ofFn (texts ∘ σ))) ∧
    ∀ (before after : List Source) (broken : Source), Php.outline? broken.text = none →
      ∃ texts texts' : List Text, texts.length = before.length ∧ texts'.length = after.length ∧
        add options (before ++ after) = .ok (texts ++ texts') ∧
        add options (before ++ broken :: after) = .ok (texts ++ broken.text :: texts') := by
  constructor
  · intro n sources σ hapart
    have hpairwise : (List.ofFn sources).Pairwise Source.Apart :=
      List.pairwise_ofFn.mpr fun i j hij => hapart i j hij.ne
    have hgraph := graphOf_perm (Equiv.Perm.ofFn_comp_perm σ sources).symm hpairwise
    obtain ⟨hinted, -, heach⟩ :=
      exists_addHints_each (graphOf ((List.ofFn sources).map Source.parse)) options
    refine ⟨hinted ∘ sources, ?_, ?_⟩
    · rw [add, heach, List.map_ofFn]
    · rw [add, ← hgraph, heach, List.map_ofFn]
      rfl
  · intro before after broken hbroken
    obtain ⟨hinted, hone, heach⟩ :=
      exists_addHints_each (graphOf ((before ++ after).map Source.parse)) options
    have hsame : hinted broken = broken.text :=
      Except.ok.inj ((hone broken).symm.trans (keepsUnparsed_addHints _ options _ hbroken))
    refine ⟨before.map hinted, after.map hinted, List.length_map .., List.length_map .., ?_, ?_⟩
    · rw [add, heach, List.map_append]
    · rw [add, graphOf_unparsed hbroken, heach, List.map_append, List.map_cons, hsame]

/-- An interface with a documented method. -/
def interfaceSource : Source :=
  ⟨"i.php".toList, "<?php interface I\x7b/** @return int */function m();\x7d".toList⟩

/-- A class that has its type from the interface. -/
def implementingSource : Source :=
  ⟨"c.php".toList, "<?php class C implements I\x7bfunction m()\x7b\x7d\x7d".toList⟩

/-- The class comes before the interface, and between them a file that does not parse. -/
theorem add_files_independent_interface :
    interfaceSource.Apart implementingSource ∧ Php.outline? brokenSource.text = none ∧
    add (fun _ => false) [implementingSource, interfaceSource] =
      .ok ["<?php class C implements I\x7bfunction m() : int\x7b\x7d\x7d".toList,
        "<?php interface I\x7b/** @return int */function m() : int;\x7d".toList] ∧
    add (fun _ => false) [implementingSource, brokenSource, interfaceSource] =
      .ok ["<?php class C implements I\x7bfunction m() : int\x7b\x7d\x7d".toList,
        brokenSource.text,
        "<?php interface I\x7b/** @return int */function m() : int;\x7d".toList] := by
  have hapart : interfaceSource.Apart implementingSource := by decide +kernel
  have hbroken : Php.outline? brokenSource.text = none := by decide +kernel
  have hadd : add (fun _ => false) [interfaceSource, implementingSource] =
      .ok ["<?php interface I\x7b/** @return int */function m() : int;\x7d".toList,
        "<?php class C implements I\x7bfunction m() : int\x7b\x7d\x7d".toList] := by
    decide +kernel
  obtain ⟨horder, hinsert⟩ := add_files_independent fun _ => false
  have hpairs : ∀ i j : Fin 2, i ≠ j → (![interfaceSource, implementingSource] i).Apart
      (![interfaceSource, implementingSource] j) := by
    simp only [Fin.forall_fin_two]
    exact ⟨⟨fun h => absurd rfl h, fun _ => hapart⟩, fun _ => hapart.symm, fun h => absurd rfl h⟩
  obtain ⟨texts, hfirst, hswapped⟩ := horder _ (Equiv.swap 0 1) hpairs
  have htexts : List.ofFn texts = _ := Except.ok.inj (hfirst.symm.trans hadd)
  obtain ⟨hzero, hone, -⟩ : texts 0 = _ ∧ texts 1 = _ ∧ True := by simpa using htexts
  have hswap : add (fun _ => false) [implementingSource, interfaceSource] =
      .ok [texts 1, texts 0] := by simpa using hswapped
  rw [hzero, hone] at hswap
  obtain ⟨front, back, hfront, hback, hboth, hmiddle⟩ :=
    hinsert [implementingSource] [interfaceSource] brokenSource hbroken
  obtain ⟨first, rfl⟩ := List.length_eq_one_iff.mp hfront
  obtain ⟨last, rfl⟩ := List.length_eq_one_iff.mp hback
  have hlists : [first, last] = _ := Except.ok.inj (hboth.symm.trans hswap)
  obtain ⟨rfl, rfl, -⟩ : first = _ ∧ last = _ ∧ True := by simpa using hlists
  exact ⟨hapart, hbroken, hswap, hmiddle⟩

end Codebase

end NativeHints
