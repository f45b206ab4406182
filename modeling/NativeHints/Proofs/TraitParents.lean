import NativeHints.Proofs.Log
import NativeHints.Proofs.Sites
import NativeHints.Php.Reading

/-!
# The parents of traits

A trait has to agree with the parents of the classes that use it.  Each class-like that uses
a trait hands its parents on to it, wherever the two are declared.  It hands on the parents
it declares itself, and no others: a trait declares none, so what it was handed by its own
users stops there.

`Graph.among_parentsOf_ofOutlines_iff` says where the parents of a name come from.  A trait
has all parents of a class-like that uses it exactly if those that the class-like got from
others reach the trait on another way (`trait_parents_of_user`).
-/

namespace NativeHints

/-- A class-like gives its parents to a name: it is declared under that name, or uses it as a
trait. -/
def ClassSite.GivesTo (path : Text) (c : ClassSite) (name : Text) : Prop :=
  Graph.lookupKey (c.key path) = Graph.lookupKey name ∨
    ∃ t ∈ c.usedTraits, Graph.lookupKey t = Graph.lookupKey name

theorem ClassSite.givesTo_iff {path name : Text} {c : ClassSite} :
    c.GivesTo path name ↔
      ∃ edge ∈ c.edges path, Graph.lookupKey edge.1 = Graph.lookupKey name := by
  simp [GivesTo, edges]

/-- All parent lists from a class-like are the same. -/
theorem ClassSite.parents_of_mem_edges {path : Text} {c : ClassSite} {edge : Text × List Text}
    (h : edge ∈ c.edges path) : edge.2 = c.parents := by
  rcases List.mem_cons.mp h with rfl | h
  · rfl
  · obtain ⟨t, -, rfl⟩ := List.mem_map.mp h
    rfl

namespace Graph

/-- The parents of a name are those that the class-likes declared under it and those that use
it as a trait declare. -/
theorem among_parentsOf_ofOutlines_iff {files : List (Text × Outline)} {name parent : Text} :
    parent.Among ((ofOutlines files).parentsOf name) ↔
      ∃ file ∈ files, ∃ c ∈ file.2.classSites .start,
        c.GivesTo file.1 name ∧ parent.Among c.parents := by
  rw [ofOutlines, among_parentsOf_ofFacts_iff]
  constructor
  · rintro ⟨f, hf, edge, hedge, hkey, hparent⟩
    obtain ⟨file, hfile, rfl⟩ := List.mem_map.mp hf
    obtain ⟨c, hc, hedge⟩ := List.mem_flatMap.mp ((file.2.edges_facts file.1).mem_iff.mp hedge)
    rw [ClassSite.parents_of_mem_edges hedge] at hparent
    exact ⟨file, hfile, c, hc, ClassSite.givesTo_iff.mpr ⟨edge, hedge, hkey⟩, hparent⟩
  · rintro ⟨file, hfile, c, hc, hgives, hparent⟩
    obtain ⟨edge, hedge, hkey⟩ := ClassSite.givesTo_iff.mp hgives
    rw [← ClassSite.parents_of_mem_edges hedge] at hparent
    have hfacts := (file.2.edges_facts file.1).mem_iff.mpr (List.mem_flatMap.mpr ⟨c, hc, hedge⟩)
    exact ⟨_, List.mem_map_of_mem hfile, edge, hfacts, hkey, hparent⟩

end Graph

/-- A trait gets the parents that a class-like using it declares, in whatever files and order
the two are declared.  It has all parents of the class-like exactly if each parent declared
under the key of the class-like, or by another that uses it as a trait, is declared under the
name of the trait or by a user of the trait too. -/
theorem trait_parents_of_user {files : List (Text × Outline)} {path : Text} {o : Outline}
    (hfile : (path, o) ∈ files) {c : ClassSite} (hc : c ∈ o.classSites .start) {t : Text}
    (ht : t ∈ c.usedTraits) :
    (∀ p ∈ c.parents, p.Among ((Graph.ofOutlines files).parentsOf t)) ∧
    ((∀ p ∈ (Graph.ofOutlines files).parentsOf (c.key path),
        p.Among ((Graph.ofOutlines files).parentsOf t)) ↔
      ∀ file ∈ files, ∀ d ∈ file.2.classSites .start, d.GivesTo file.1 (c.key path) →
        ∀ p ∈ d.parents, ∃ file' ∈ files, ∃ u ∈ file'.2.classSites .start,
          u.GivesTo file'.1 t ∧ p.Among u.parents) := by
  constructor
  · intro p hp
    rw [Graph.among_parentsOf_ofOutlines_iff]
    exact ⟨(path, o), hfile, c, hc, .inr ⟨t, ht, rfl⟩, .of_mem hp⟩
  · rw [Text.forall_mem_among_iff]
    simp only [Graph.among_parentsOf_ofOutlines_iff]
    constructor
    · intro h file hfile d hd hgives p hp
      exact h p ⟨file, hfile, d, hd, hgives, .of_mem hp⟩
    · rintro h p ⟨file, hfile, d, hd, hgives, n, hn, hsame⟩
      obtain ⟨file', hfile', u, hu, hgives', hn'⟩ := h file hfile d hd hgives n hn
      exact ⟨file', hfile', u, hu, hgives', hn'.of_same hsame⟩

/-- A trait. -/
def traitFile : Text × Outline :=
  ("t.php".toList, .classLike ⟨.trait, some "T".toList, 6, [], []⟩ .empty .empty)

/-- An enumeration that uses the trait, by a name in other letters. -/
def traitUserFile : Text × Outline :=
  ("e.php".toList, .classLike ⟨.enumeration, some "E".toList, 6, [], ["I".toList]⟩
    (.traitUse ["t".toList] .empty) .empty)

/-- The enumeration of the file. -/
def traitUser : ClassSite :=
  ⟨⟨.enumeration, some "E".toList, 6, [], ["I".toList]⟩, .start, .traitUse ["t".toList] .empty⟩

/-- The trait takes over the interface of the enumeration that uses it. -/
theorem trait_parents_of_user_enumeration :
    traitUser ∈ traitUserFile.2.classSites .start ∧ "t".toList ∈ traitUser.usedTraits ∧
    Text.Among "I".toList
      ((Graph.ofOutlines [traitFile, traitUserFile]).parentsOf "T".toList) := by
  have hsite : traitUser ∈ traitUserFile.2.classSites .start := List.mem_singleton.mpr rfl
  have huse : "t".toList ∈ traitUser.usedTraits := List.mem_singleton.mpr rfl
  have hfile : (traitUserFile.1, traitUserFile.2) ∈ [traitFile, traitUserFile] := by simp
  have hkey : Graph.lookupKey "T".toList = Graph.lookupKey "t".toList := by decide
  obtain ⟨hdeclared, -⟩ := trait_parents_of_user hfile hsite huse
  rw [Graph.parentsOf_of_key _ hkey]
  exact ⟨hsite, huse, hdeclared "I".toList (List.mem_singleton.mpr rfl)⟩

/-- A class with an interface uses a trait, and that trait uses another. -/
def nestedTraits : Outline :=
  .classLike ⟨.ordinary, some "C".toList, 6, [], ["I".toList]⟩
      (.traitUse ["U".toList] .empty) <|
    .classLike ⟨.trait, some "U".toList, 35, [], []⟩ (.traitUse ["T".toList] .empty) <|
    .classLike ⟨.trait, some "T".toList, 51, [], []⟩ .empty .empty

/-- The outer trait. -/
def outerTrait : ClassSite :=
  ⟨⟨.trait, some "U".toList, 35, [], []⟩, .start, .traitUse ["T".toList] .empty⟩

/-- The inner trait does not get the interface that the outer one has got. -/
theorem inner_trait_misses_parents :
    (Php.outline?
        "<?php class C implements I\x7buse U;\x7d trait U\x7buse T;\x7d trait T\x7b\x7d".toList).map
      FileOutline.decls = some nestedTraits ∧
    outerTrait ∈ nestedTraits.classSites .start ∧ "T".toList ∈ outerTrait.usedTraits ∧
    (Graph.ofOutlines [("a.php".toList, nestedTraits)]).parentsOf (outerTrait.key "a.php".toList) =
      ["I".toList] ∧
    (Graph.ofOutlines [("a.php".toList, nestedTraits)]).parentsOf "T".toList = [] := by
  refine ⟨by decide +kernel, ?_, List.mem_singleton.mpr rfl, by decide, by decide⟩
  exact .tail _ (.head _)

end NativeHints
