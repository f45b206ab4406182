import Mathlib.Data.List.Induction
import NativeHints.Proofs.Tables
import NativeHints.Proofs.Search

/-!
# The hierarchy as a log

A hierarchy is built from facts, one after the other.  Each fact stands under the lookup
key of a name: an entry under that of its class, a parent list under that of the class it
belongs to.  What the hierarchy holds under a key depends only on the facts under that key,
in their order.  Of the entries it is the last (`find?_classes_ofFacts`).  Of the parent
lists it is all of them joined, each name where it first comes up to case
(`find?_parents_ofFacts`).

The tables are in order, so two logs that hold the same under every key build the same
hierarchy (`ofFacts_congr`).  A log read twice builds what it builds when read once
(`ofFacts_append_self`).
-/

namespace NativeHints

/-! ## Names up to case -/

/-- A name stands in a list, up to case. -/
def Text.Among (name : Text) (names : List Text) : Prop := ∃ n ∈ names, n.Same name

instance (name : Text) (names : List Text) : Decidable (name.Among names) :=
  inferInstanceAs (Decidable (∃ n ∈ names, n.Same name))

namespace Text

variable {name other : Text} {names names' : List Text}

theorem Among.of_mem (h : name ∈ names) : name.Among names := ⟨name, h, .refl name⟩

theorem Among.of_same (h : name.Among names) (hsame : name.Same other) : other.Among names := by
  obtain ⟨n, hn, hname⟩ := h
  exact ⟨n, hn, hname.trans hsame⟩

theorem forall_mem_among_iff :
    (∀ name ∈ names, Among name names') ↔ ∀ name : Text, name.Among names → name.Among names' := by
  constructor
  · rintro h name ⟨n, hn, hsame⟩
    exact (h n hn).of_same hsame
  · intro h name hname
    exact h name (.of_mem hname)

end Text

namespace Graph

open Text (Among)

variable {names more : List Text} {name : Text}

theorem addName_of_among (h : name.Among names) : addName names name = names := by
  obtain ⟨n, hn, hsame⟩ := h
  rw [addName, if_pos (List.any_eq_true.mpr ⟨n, hn, decide_eq_true hsame⟩)]

theorem addName_of_not_among (h : ¬ name.Among names) : addName names name = names ++ [name] := by
  rw [addName, if_neg]
  intro hany
  obtain ⟨n, hn, hsame⟩ := List.any_eq_true.mp hany
  exact h ⟨n, hn, of_decide_eq_true hsame⟩

theorem among_addName_iff {other : Text} :
    other.Among (addName names name) ↔ other.Among names ∨ name.Same other := by
  by_cases h : name.Among names
  · rw [addName_of_among h]
    exact ⟨.inl, fun hother => hother.elim id h.of_same⟩
  · rw [addName_of_not_among h]
    simp [Among, or_and_right, exists_or]

/-- Joining two lists of names loses none of them, up to case. -/
theorem among_foldl_addName_iff :
    name.Among (more.foldl addName names) ↔ name.Among names ∨ name.Among more := by
  induction more generalizing names with
  | nil => simp [Among]
  | cons first more ih =>
      rw [List.foldl_cons, ih, among_addName_iff, or_assoc]
      simp [Among]

/-- Nothing is added by names that are there. -/
theorem foldl_addName_of_among (h : ∀ name ∈ more, name.Among names) :
    more.foldl addName names = names := by
  induction more with
  | nil => rfl
  | cons first more ih =>
      rw [List.foldl_cons, addName_of_among (h first (List.mem_cons_self ..))]
      exact ih fun name hname => h name (List.mem_cons_of_mem _ hname)

end Graph

/-! ## The facts under a key -/

namespace Facts

/-- The entries under a key. -/
def classesAt (key : Text) (f : Facts) : List ClassEntry :=
  f.classes.filter fun e => Graph.lookupKey e.key = key

/-- The parent lists under a key. -/
def parentsAt (key : Text) (f : Facts) : List (List Text) :=
  (f.edges.filter fun edge => Graph.lookupKey edge.1 = key).map Prod.snd

end Facts

namespace Graph

/-- The names recorded for a class, if any were, joined with those of one more parent list. -/
def joinParents (known : Option (List Text)) (parents : List Text) : Option (List Text) :=
  some (parents.foldl addName (known.getD []))

theorem find?_addClasses (key : Text) (es : List ClassEntry) (g : Graph) :
    (es.foldl addClass g).classes.find? key =
      ((es.filter fun e => lookupKey e.key = key).getLast?).or (g.classes.find? key) := by
  have hput : (es.foldl addClass g).classes = (es.map fun e => (lookupKey e.key, e)).foldl
      (fun t entry => t.put entry.1 entry.2) g.classes := by
    rw [List.foldl_map]
    exact (List.foldl_hom Graph.classes fun _ _ => rfl).symm
  rw [hput, Table.find?_putAll, List.filter_map, List.getLast?_map, Option.map_map]
  exact congrArg (Option.or · _) Option.map_id'

theorem find?_addEdges (key : Text) (edges : List (Text × List Text)) (g : Graph) :
    (edges.foldl (fun g edge => g.addParents edge.1 edge.2) g).parents.find? key =
      ((edges.filter fun edge => lookupKey edge.1 = key).map Prod.snd).foldl joinParents
        (g.parents.find? key) := by
  induction edges generalizing g with
  | nil => rfl
  | cons edge edges ih =>
      rw [List.foldl_cons, ih, addParents, Table.find?_put, List.filter_cons]
      by_cases h : lookupKey edge.1 = key
      · rw [if_pos h.symm, if_pos (decide_eq_true h), parentsOf, h]
        rfl
      · rw [if_neg (Ne.symm h), if_neg (by simpa using h)]

theorem parents_addClasses (es : List ClassEntry) (g : Graph) :
    (es.foldl addClass g).parents = g.parents := by
  induction es generalizing g with
  | nil => rfl
  | cons e es ih => exact ih _

theorem classes_addEdges (edges : List (Text × List Text)) (g : Graph) :
    (edges.foldl (fun g edge => g.addParents edge.1 edge.2) g).classes = g.classes := by
  induction edges generalizing g with
  | nil => rfl
  | cons edge edges ih => exact ih _

theorem find?_classes_addFacts (key : Text) (g : Graph) (f : Facts) :
    (g.addFacts f).classes.find? key = (f.classesAt key).getLast?.or (g.classes.find? key) := by
  rw [addFacts, classes_addEdges, find?_addClasses]
  rfl

theorem find?_parents_addFacts (key : Text) (g : Graph) (f : Facts) :
    (g.addFacts f).parents.find? key =
      (f.parentsAt key).foldl joinParents (g.parents.find? key) := by
  rw [addFacts, find?_addEdges, parents_addClasses]
  rfl

/-- Under every key stands the last entry. -/
theorem find?_classes_ofFacts (key : Text) (fs : List Facts) :
    (ofFacts fs).classes.find? key = (fs.flatMap (Facts.classesAt key)).getLast? := by
  induction fs using List.reverseRecOn with
  | nil => rfl
  | append_singleton fs f ih =>
      rw [ofFacts, List.foldl_append, List.foldl_cons, List.foldl_nil, find?_classes_addFacts,
        ← ofFacts, ih, List.flatMap_append, List.flatMap_singleton, List.getLast?_append]

/-- Under every key stand all parent lists, joined. -/
theorem find?_parents_ofFacts (key : Text) (fs : List Facts) :
    (ofFacts fs).parents.find? key = (fs.flatMap (Facts.parentsAt key)).foldl joinParents none := by
  induction fs using List.reverseRecOn with
  | nil => rfl
  | append_singleton fs f ih =>
      rw [ofFacts, List.foldl_append, List.foldl_cons, List.foldl_nil, find?_parents_addFacts,
        ← ofFacts, ih, List.flatMap_append, List.flatMap_singleton, List.foldl_append]

/-- The tables of a hierarchy are in order. -/
def InOrder (g : Graph) : Prop := g.classes.Sorted ∧ g.parents.Sorted

theorem InOrder.addFacts {g : Graph} (h : g.InOrder) (f : Facts) : (g.addFacts f).InOrder := by
  refine List.foldlRecOn f.edges _ ?_ ?_
  · refine List.foldlRecOn f.classes _ h fun g hg e _ => ?_
    exact ⟨Table.sorted_put hg.1 _ _, hg.2⟩
  · intro g hg edge _
    exact ⟨hg.1, Table.sorted_put hg.2 _ _⟩

theorem inOrder_ofFacts (fs : List Facts) : (ofFacts fs).InOrder :=
  List.foldlRecOn fs _ ⟨.nil, .nil⟩ fun _ hg f _ => hg.addFacts f

/-- A hierarchy is determined by what it holds under each key. -/
theorem ofFacts_congr {fs fs' : List Facts}
    (hclasses : ∀ key, (fs.flatMap (Facts.classesAt key)).getLast? =
      (fs'.flatMap (Facts.classesAt key)).getLast?)
    (hparents : ∀ key, (fs.flatMap (Facts.parentsAt key)).foldl joinParents none =
      (fs'.flatMap (Facts.parentsAt key)).foldl joinParents none) :
    ofFacts fs = ofFacts fs' := by
  have hc : (ofFacts fs).classes = (ofFacts fs').classes := by
    refine (inOrder_ofFacts fs).1.ext (inOrder_ofFacts fs').1 fun key => ?_
    rw [find?_classes_ofFacts, find?_classes_ofFacts, hclasses]
  have hp : (ofFacts fs).parents = (ofFacts fs').parents := by
    refine (inOrder_ofFacts fs).2.ext (inOrder_ofFacts fs').2 fun key => ?_
    rw [find?_parents_ofFacts, find?_parents_ofFacts, hparents]
  calc ofFacts fs = ⟨(ofFacts fs).classes, (ofFacts fs).parents⟩ := rfl
    _ = ofFacts fs' := by rw [hc, hp]

/-! ## Parents, and a log read twice -/

theorem foldl_joinParents (known : Option (List Text)) (lists : List (List Text)) :
    (lists.foldl joinParents known).getD [] = lists.flatten.foldl addName (known.getD []) := by
  induction lists generalizing known with
  | nil => rfl
  | cons first lists ih => rw [List.foldl_cons, ih, List.flatten_cons, List.foldl_append]; rfl

theorem parentsOf_ofFacts (fs : List Facts) (name : Text) :
    (ofFacts fs).parentsOf name =
      (fs.flatMap (Facts.parentsAt (lookupKey name))).flatten.foldl addName [] := by
  rw [parentsOf, find?_parents_ofFacts, foldl_joinParents]
  rfl

theorem foldl_joinParents_eq_none_iff {known : Option (List Text)} {lists : List (List Text)} :
    lists.foldl joinParents known = none ↔ known = none ∧ lists = [] := by
  induction lists generalizing known with
  | nil => simp
  | cons first lists ih => simp [ih, joinParents]

/-- A class is known once there is a parent list for it. -/
theorem isKnown_ofFacts_iff {fs : List Facts} {name : Text} :
    (ofFacts fs).isKnown name = true ↔
      ∃ f ∈ fs, ∃ edge ∈ f.edges, lookupKey edge.1 = lookupKey name := by
  rw [isKnown, find?_parents_ofFacts, Option.isSome_iff_ne_none, Ne,
    foldl_joinParents_eq_none_iff]
  simp [Facts.parentsAt]

/-- The parents of a class are the names of all lists recorded for it. -/
theorem among_parentsOf_ofFacts_iff {fs : List Facts} {name parent : Text} :
    parent.Among ((ofFacts fs).parentsOf name) ↔
      ∃ f ∈ fs, ∃ edge ∈ f.edges, lookupKey edge.1 = lookupKey name ∧ parent.Among edge.2 := by
  rw [parentsOf_ofFacts, among_foldl_addName_iff]
  constructor
  · rintro (⟨n, hn, -⟩ | ⟨n, hn, hsame⟩)
    · cases hn
    · obtain ⟨list, hlist, hn⟩ := List.mem_flatten.mp hn
      obtain ⟨f, hf, hlist⟩ := List.mem_flatMap.mp hlist
      obtain ⟨edge, hedge, rfl⟩ := List.mem_map.mp hlist
      obtain ⟨hedge, hkey⟩ := List.mem_filter.mp hedge
      exact ⟨f, hf, edge, hedge, of_decide_eq_true hkey, n, hn, hsame⟩
  · rintro ⟨f, hf, edge, hedge, hkey, n, hn, hsame⟩
    have hlist : edge.2 ∈ f.parentsAt (lookupKey name) :=
      List.mem_map_of_mem (List.mem_filter.mpr ⟨hedge, decide_eq_true hkey⟩)
    exact .inr ⟨n, List.mem_flatten.mpr ⟨_, List.mem_flatMap.mpr ⟨f, hf, hlist⟩, hn⟩, hsame⟩

/-- Lists whose names are all there change nothing. -/
theorem foldl_joinParents_of_among {names : List Text} {lists : List (List Text)}
    (h : ∀ name ∈ lists.flatten, name.Among names) :
    lists.foldl joinParents (some names) = some names := by
  induction lists with
  | nil => rfl
  | cons first lists ih =>
      rw [List.foldl_cons, joinParents, Option.getD_some,
        foldl_addName_of_among fun name hname => h name (by simp [hname])]
      exact ih fun name hname => h name (by simp_all)

/-- Lists that were joined before change nothing. -/
theorem foldl_joinParents_append_again (lists more : List (List Text)) :
    (lists ++ more ++ more).foldl joinParents none = (lists ++ more).foldl joinParents none := by
  rw [List.foldl_append]
  cases hjoined : (lists ++ more).foldl joinParents none with
  | none =>
      obtain ⟨-, rfl⟩ := List.append_eq_nil_iff.mp (foldl_joinParents_eq_none_iff.mp hjoined).2
      rfl
  | some names =>
      apply foldl_joinParents_of_among
      intro name hname
      have hnames := foldl_joinParents none (lists ++ more)
      rw [hjoined, Option.getD_some] at hnames
      rw [hnames, among_foldl_addName_iff]
      exact .inr (.of_mem (by simp [hname]))

/-- A log whose end is read twice builds what it builds when it is read once. -/
theorem ofFacts_append_again (fs more : List Facts) :
    ofFacts (fs ++ more ++ more) = ofFacts (fs ++ more) := by
  refine ofFacts_congr (fun key => ?_) fun key => ?_
  · simp only [List.flatMap_append, List.getLast?_append, ← Option.or_assoc, Option.or_self]
  · simp only [List.flatMap_append, foldl_joinParents_append_again]

/-- A log read twice builds what it builds when read once. -/
theorem ofFacts_append_self (fs : List Facts) : ofFacts (fs ++ fs) = ofFacts fs :=
  ofFacts_append_again [] fs

end Graph

end NativeHints
