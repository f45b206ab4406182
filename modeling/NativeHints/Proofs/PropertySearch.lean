import NativeHints.Proofs.Due
import NativeHints.Proofs.Features
import NativeHints.Proofs.Origins

/-!
# The search for property types

The effective type of a property is what some class documents for it: the class
itself, or one above, and then it is named by what it means there
(`Graph.property?_origin`).

On a *chain*, where every class has at most one parent and there are no cycles,
the nearest class above that documents the property decides
(`Graph.typeAbove?_of_parent`).  For the child of a class, that is the class
itself if it documents the property.  For the class it is one further up.  So
the two have the same type unless the class documents another one than what
stands above it.
-/

namespace NativeHints

open Relation (ReflTransGen TransGen)

namespace Graph

variable {g : Graph} {property : Text}

/-! ## Origins -/

/-- One class lists another among its parents, be it known or not. -/
def ListsParent (g : Graph) (name parent : Text) : Prop := parent ∈ g.parentsOf name

/-- The step: what is found among parents is documented by one of them or found above it. -/
theorem origin_of_searchParents {above : List Text → Text → Option HintType × List Text}
    {parents seen : List Text} {t : HintType}
    (h : (g.searchParents property above seen parents).1 = some t) :
    ∃ p ∈ parents, (∃ u, g.ownProperty? p property = some u ∧ t = u.asResolved) ∨
      ∃ seen', (above seen' p).1 = some t := by
  induction parents generalizing seen with
  | nil => cases h
  | cons parent rest ih =>
      have hlater : ∀ {seen'}, (g.searchParents property above seen' rest).1 = some t →
          ∃ p ∈ parent :: rest, (∃ u, g.ownProperty? p property = some u ∧ t = u.asResolved) ∨
            ∃ seen', (above seen' p).1 = some t := by
        intro seen' hrest
        obtain ⟨p, hp, hfound⟩ := ih hrest
        exact ⟨p, List.mem_cons_of_mem _ hp, hfound⟩
      rw [searchParents] at h
      split at h
      · exact hlater h
      · cases hown : g.ownProperty? parent property with
        | some u =>
            simp only [hown, Option.some.injEq] at h
            exact ⟨parent, List.mem_cons_self .., .inl ⟨u, hown, h.symm⟩⟩
        | none =>
            simp only [hown] at h
            cases habove : above (lookupKey parent :: seen) parent with
            | mk found seen' =>
                cases found with
                | none =>
                    simp only [habove] at h
                    exact hlater h
                | some t' =>
                    simp only [habove] at h
                    refine ⟨parent, List.mem_cons_self .., .inr ⟨lookupKey parent :: seen, ?_⟩⟩
                    rw [habove]
                    exact h

/-- The run: what is found above a class is documented by one of its ancestors. -/
theorem origin_of_searchProperty {n : Nat} {seen : List Text} {name : Text} {t : HintType}
    (h : (g.searchProperty property n seen name).1 = some t) :
    ∃ ancestor u, TransGen g.ListsParent name ancestor ∧
      g.ownProperty? ancestor property = some u ∧ t = u.asResolved := by
  induction n generalizing seen name with
  | zero => cases h
  | succ n ih =>
      rw [searchProperty] at h
      obtain ⟨p, hp, ⟨u, hown, ht⟩ | ⟨seen', habove⟩⟩ := origin_of_searchParents h
      · exact ⟨p, u, .single hp, hown, ht⟩
      · obtain ⟨ancestor, u, hpath, hown, ht⟩ := ih habove
        exact ⟨ancestor, u, .head hp hpath, hown, ht⟩

/-- The type that the search finds above a class. -/
def typeAbove? (g : Graph) (name property : Text) : Option HintType :=
  (g.searchProperty property (g.parents.length + 1) [lookupKey name] name).1

theorem property?_eq (name property : Text) :
    g.property? name property = (g.typeAbove? name property).or (g.ownProperty? name property) :=
  rfl

/-- An effective type is documented by the class, or by an ancestor and handed down. -/
theorem property?_origin {name : Text} {t : HintType} (h : g.property? name property = some t) :
    g.ownProperty? name property = some t ∨
      ∃ ancestor u, TransGen g.ListsParent name ancestor ∧
        g.ownProperty? ancestor property = some u ∧ t = u.asResolved := by
  rw [property?_eq] at h
  rcases Option.or_eq_some_iff.mp h with habove | ⟨-, hown⟩
  · exact .inr (origin_of_searchProperty habove)
  · exact .inl hown

/-- What is found above a class is named by what it means. -/
theorem asResolved_of_typeAbove? {name : Text} {t : HintType}
    (h : g.typeAbove? name property = some t) : t.asResolved = t := by
  obtain ⟨-, u, -, -, rfl⟩ := origin_of_searchProperty h
  rfl

/-! ## Names enter through their keys -/

section Keys

variable {a b : Text} (h : lookupKey a = lookupKey b)

include h

theorem ownProperty?_of_key (property : Text) :
    g.ownProperty? a property = g.ownProperty? b property := by
  simp only [ownProperty?, class?, h]

theorem property?_of_key (property : Text) : g.property? a property = g.property? b property := by
  simp only [property?, searchProperty, parentsOf_of_key g h, ownProperty?_of_key h, h]

end Keys

/-! ## Chains -/

/-- Every class has at most one parent. -/
def IsChain (g : Graph) : Prop := ∀ name, (g.parentsOf name).length ≤ 1

theorem IsChain.parentsOf_eq (hchain : g.IsChain) {name parent : Text}
    (hp : parent ∈ g.parentsOf name) : g.parentsOf name = [parent] := by
  have hlength := hchain name
  cases hparents : g.parentsOf name with
  | nil => rw [hparents] at hp; cases hp
  | cons first rest =>
      rw [hparents] at hp hlength
      obtain rfl : rest = [] := by simpa using hlength
      rw [List.mem_singleton.mp hp]

/-- A graph whose parent lists have at most one member is a chain. -/
theorem isChain_of_lists (h : ∀ e ∈ g.parents, e.2.length ≤ 1) : g.IsChain := by
  intro name
  simp only [parentsOf]
  cases hf : g.parents.find? (lookupKey name) with
  | none => simp
  | some ps => simpa using h _ (Table.mem_of_find? hf)

/-- None of the classes seen lies above the given one. -/
def ClearAbove (g : Graph) (seen : List Text) (name : Text) : Prop :=
  ∀ a, lookupKey a ∈ seen → ¬ TransGen g.HasParent name a

theorem ClearAbove.start (hg : g.Acyclic) (name : Text) : g.ClearAbove [lookupKey name] name := by
  intro a ha hpath
  exact hg name (ancestor_of_key hpath (List.mem_singleton.mp ha))

theorem ClearAbove.not_mem {seen : List Text} {name parent : Text} (h : g.ClearAbove seen name)
    (hp : parent ∈ g.parentsOf name) : lookupKey parent ∉ seen :=
  fun hmem => h parent hmem (.single ⟨parent, hp, rfl⟩)

theorem ClearAbove.up (hg : g.Acyclic) {seen : List Text} {name parent : Text}
    (h : g.ClearAbove seen name) (hp : parent ∈ g.parentsOf name) :
    g.ClearAbove (lookupKey parent :: seen) parent := by
  intro a ha hpath
  rcases List.mem_cons.mp ha with hself | hseen
  · exact hg parent (ancestor_of_key hpath hself)
  · exact h a hseen (.head ⟨parent, hp, rfl⟩ hpath)

/-- One step up a chain. -/
theorem searchProperty_single {seen : List Text} {name parent : Text}
    (hparents : g.parentsOf name = [parent]) (hseen : lookupKey parent ∉ seen) (n : Nat) :
    (g.searchProperty property (n + 1) seen name).1 =
      ((g.ownProperty? parent property).map HintType.asResolved).or
        (g.searchProperty property n (lookupKey parent :: seen) parent).1 := by
  have hnot : seen.contains (lookupKey parent) = false := by simpa using hseen
  simp only [searchProperty, hparents, searchParents, hnot, Bool.false_eq_true, if_false]
  cases hown : g.ownProperty? parent property with
  | some u => rfl
  | none =>
      cases hfound : g.searchProperty property n (lookupKey parent :: seen) parent with
      | mk found seen' => cases found <;> rfl

theorem searchProperty_of_no_parents {name : Text} (hparents : g.parentsOf name = []) (n : Nat)
    (seen : List Text) : (g.searchProperty property n seen name).1 = none := by
  cases n with
  | zero => rfl
  | succ n => simp only [searchProperty, hparents, searchParents]

/-- On a chain neither the steps nor the classes seen show, as long as there are enough steps
and no class seen lies above. -/
theorem searchProperty_chain (hg : g.Acyclic) (hchain : g.IsChain) {n m : Nat}
    {seen seen' : List Text} {name : Text} (hn : (g.ancestorKeys name).card < n)
    (hm : (g.ancestorKeys name).card < m) (hseen : g.ClearAbove seen name)
    (hseen' : g.ClearAbove seen' name) :
    (g.searchProperty property n seen name).1 = (g.searchProperty property m seen' name).1 := by
  induction n generalizing m seen seen' name with
  | zero => omega
  | succ n ih =>
      obtain ⟨m, rfl⟩ : ∃ k, m = k + 1 := ⟨m - 1, by omega⟩
      cases hparents : g.parentsOf name with
      | nil => rw [searchProperty_of_no_parents hparents, searchProperty_of_no_parents hparents]
      | cons parent rest =>
          have hp : parent ∈ g.parentsOf name := by simp [hparents]
          have hsingle := hchain.parentsOf_eq hp
          rw [searchProperty_single hsingle (hseen.not_mem hp),
            searchProperty_single hsingle (hseen'.not_mem hp)]
          congr 1
          cases hk : g.isKnown parent with
          | true =>
              have hless := hg.card_ancestorKeys_lt hp hk
              exact ih (by omega) (by omega) (hseen.up hg hp) (hseen'.up hg hp)
          | false =>
              have htop := parentsOf_of_unknown hk
              rw [searchProperty_of_no_parents htop, searchProperty_of_no_parents htop]

theorem card_ancestorKeys_le (g : Graph) (name : Text) :
    (g.ancestorKeys name).card ≤ g.parents.length := by
  calc (g.ancestorKeys name).card
      ≤ g.knownKeys.toFinset.card := Finset.card_le_card fun key hkey => by
        simpa using (mem_ancestorKeys.mp hkey).1
    _ ≤ g.knownKeys.length := List.toFinset_card_le _
    _ = g.parents.length := by simp [knownKeys]

/-- On a chain the nearest class above that documents a property decides. -/
theorem typeAbove?_of_parent (hg : g.Acyclic) (hchain : g.IsChain) {name parent : Text}
    (hp : parent ∈ g.parentsOf name) :
    g.typeAbove? name property =
      ((g.ownProperty? parent property).map HintType.asResolved).or
        (g.typeAbove? parent property) := by
  have hclear := ClearAbove.start hg name
  have hle := card_ancestorKeys_le g name
  have hle' := card_ancestorKeys_le g parent
  -- with one step to spare, what is left above the parent is a search of full length
  have hspare : g.typeAbove? name property =
      (g.searchProperty property (g.parents.length + 1 + 1) [lookupKey name] name).1 :=
    searchProperty_chain hg hchain (by omega) (by omega) hclear hclear
  rw [hspare, searchProperty_single (hchain.parentsOf_eq hp) (hclear.not_mem hp)]
  congr 1
  exact searchProperty_chain hg hchain (by omega) (by omega) (hclear.up hg hp)
    (ClearAbove.start hg parent)

/-- On a chain a class has the type that its parent documents, or else the effective type of
its parent, named by what it means. -/
theorem property?_of_parent (hg : g.Acyclic) (hchain : g.IsChain) {name parent : Text}
    (hp : parent ∈ g.parentsOf name) {t : HintType} (ht : g.property? parent property = some t) :
    g.property? name property = some ((g.ownProperty? parent property).getD t).asResolved := by
  rw [property?_eq, typeAbove?_of_parent hg hchain hp]
  cases hown : g.ownProperty? parent property with
  | some u => rfl
  | none =>
      rw [property?_eq, hown, Option.or_none] at ht
      simp [ht, asResolved_of_typeAbove? ht]

end Graph

/-! ## Emitted property hints -/

namespace Insertion

/-- A property declaration without a hint, with the classes around it, declares a certain
property of a class. -/
structure IsPropertyOf (p : Property) (classes : List Text) (name property : Text) : Prop where
  /-- It has no hint. -/
  unhinted : p.hint = none
  /-- It declares the property and no other. -/
  alone : ∃ e, p.elements = [e] ∧ e.name = property
  /-- The class is the innermost one. -/
  inside : ∃ around outer, classes = around :: outer ∧
    Graph.lookupKey around = Graph.lookupKey name

/-- The type of a hint. -/
def type? : Insertion → Option HintType
  | strictTypes _ => none
  | parameter _ t _ | result _ t _ | property _ t _ => some t

/-- The property gets the effective type, if the features allow it. -/
theorem types_ofProperty {c : Context} {p : Property} {classes : List Text} {name property : Text}
    (h : IsPropertyOf p classes name property) (s : Scope) :
    (ofProperty c s classes p).filterMap type? =
      ((c.graph.property? name property).bind (propertyType? c.options true)).toList := by
  obtain ⟨e, helements, rfl⟩ := h.alone
  obtain ⟨around, outer, rfl, hkey⟩ := h.inside
  rw [ofProperty_of_single c s around outer helements, h.unhinted, Graph.property?_of_key hkey]
  simp only [due]
  cases (c.graph.property? name e.name).bind (propertyType? c.options true) <;> rfl

/-- The features do not tell a type from the one it means. -/
theorem propertyType?_asResolved (options : Options) (t : HintType) :
    propertyType? options true t.asResolved =
      (propertyType? options true t).map HintType.asResolved := by
  have hsupported : isSupported options true t.asResolved = isSupported options true t := by
    simp only [isSupported_eq, Bool.or_true]
    rfl
  have hcallable : t.asResolved.is "callable".toList = t.is "callable".toList := rfl
  simp only [propertyType?, hsupported, hcallable]
  split <;> rfl

end Insertion

/-! ## Property types down a chain -/

/-- Property types come from the nearest class above that documents them.  On a chain, let a
parent have an effective type for a property.  Then the child has the type that the parent
documents itself, or else that effective type, in each case named by what it means.  So it
has the effective type of the parent exactly if the parent documents no other, and then
under all features a property without a hint gets in the child the type that it gets in
the parent. -/
theorem property_type_from_parent {g : Graph} (hg : g.Acyclic) (hchain : g.IsChain)
    {name parent property : Text} (hparent : parent ∈ g.parentsOf name) {t : HintType}
    (ht : g.property? parent property = some t) :
    g.property? name property = some ((g.ownProperty? parent property).getD t).asResolved ∧
    (g.property? name property = some t.asResolved ↔
      ∀ u, g.ownProperty? parent property = some u → u.asResolved = t.asResolved) ∧
    ((∀ u, g.ownProperty? parent property = some u → u.asResolved = t.asResolved) →
      ∀ (options : Options) (path path' : Text) (scope scope' : Scope)
        (classes classes' : List Text) (p p' : Property),
        Insertion.IsPropertyOf p classes parent property →
        Insertion.IsPropertyOf p' classes' name property →
        (Insertion.ofProperty ⟨g, options, path'⟩ scope' classes' p').filterMap Insertion.type? =
          ((Insertion.ofProperty ⟨g, options, path⟩ scope classes p).filterMap
            Insertion.type?).map HintType.asResolved) := by
  have hchild := Graph.property?_of_parent hg hchain hparent ht
  have hsame : g.property? name property = some t.asResolved ↔
      ∀ u, g.ownProperty? parent property = some u → u.asResolved = t.asResolved := by
    rw [hchild]
    cases g.ownProperty? parent property <;> simp
  refine ⟨hchild, hsame, ?_⟩
  intro hagrees options path path' scope scope' classes classes' p p' hp hp'
  rw [Insertion.types_ofProperty hp, Insertion.types_ofProperty hp', hsame.mpr hagrees, ht]
  simp only [Option.bind_some, Insertion.propertyType?_asResolved]
  cases Insertion.propertyType? options true t <;> rfl

/-- `Leaf` extends `Mid`, which extends `Root`.  `Root` documents the properties `x` and `y`, and
`Mid` documents another type for `x`. -/
def threeLevels : Graph :=
  ⟨[("leaf".toList, ⟨"Leaf".toList, some "Mid".toList, [], []⟩),
    ("mid".toList, ⟨"Mid".toList, some "Root".toList, [],
      [("x".toList, .named "string".toList false)]⟩),
    ("root".toList, ⟨"Root".toList, none, [],
      [("x".toList, .named "int".toList false),
        ("y".toList, ⟨"self".toList, "Root".toList, true⟩)]⟩)],
    [("leaf".toList, ["Mid".toList]), ("mid".toList, ["Root".toList]), ("root".toList, [])]⟩

theorem threeLevels_acyclic : threeLevels.Acyclic :=
  Graph.acyclic_of_rank
    (fun k => if k = "leaf".toList then 0 else if k = "mid".toList then 1 else 2) (by decide)

theorem threeLevels_isChain : threeLevels.IsChain := Graph.isChain_of_lists (by decide)

/-- A declaration of the property `y` alone. -/
def yProperty : Property := ⟨none, none, [⟨"y".toList, 30⟩]⟩

/-- The type of `y` comes down from `Root` to `Mid` and on to `Leaf`. -/
theorem property_type_from_parent_y :
    threeLevels.property? "Leaf".toList "y".toList = some (.named "Root".toList true) ∧
      (Insertion.ofProperty ⟨threeLevels, fun _ => true, []⟩ .start ["Leaf".toList]
        yProperty).filterMap Insertion.type? = [.named "Root".toList true] := by
  have hmid : threeLevels.property? "Mid".toList "y".toList = some (.named "Root".toList true) := by
    decide
  have hown : ∀ u, threeLevels.ownProperty? "Mid".toList "y".toList = some u →
      u.asResolved = HintType.asResolved (.named "Root".toList true) := by
    intro u hu
    cases (by decide : threeLevels.ownProperty? "Mid".toList "y".toList = none).symm.trans hu
  obtain ⟨-, hsame, hemits⟩ := property_type_from_parent threeLevels_acyclic threeLevels_isChain
    (by decide : "Mid".toList ∈ threeLevels.parentsOf "Leaf".toList) hmid
  refine ⟨hsame.mpr hown, ?_⟩
  rw [hemits hown (fun _ => true) [] [] .start .start ["Mid".toList] _ yProperty _
    ⟨rfl, ⟨_, rfl, rfl⟩, _, _, rfl, rfl⟩ ⟨rfl, ⟨_, rfl, rfl⟩, _, _, rfl, rfl⟩]
  decide

/-- The type of `x` does not come down: `Mid` has that of `Root`, and `Leaf` that of `Mid`. -/
theorem property_types_vary_down_chain :
    threeLevels.Acyclic ∧ threeLevels.IsChain ∧
      "Mid".toList ∈ threeLevels.parentsOf "Leaf".toList ∧
      threeLevels.isKnown "Mid".toList = true ∧
      threeLevels.property? "Mid".toList "x".toList = some (.named "int".toList false) ∧
      threeLevels.property? "Leaf".toList "x".toList = some (.named "string".toList false) ∧
      threeLevels.property? "Leaf".toList "x".toList ≠
        some (HintType.asResolved (.named "int".toList false)) := by
  exact ⟨threeLevels_acyclic, threeLevels_isChain, by decide, by decide, by decide, by decide,
    by decide⟩

end NativeHints
