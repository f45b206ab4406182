import NativeHints.Proofs.PropertySearch
import NativeHints.Proofs.Reaching

/-!
# Where the search for property types gets

The search for a property type marks every class that it meets and never looks at
one twice, whichever branch met it first.  Here parents may form cycles, and still
nothing is missed.

`Graph.Looks` is the search without a bound on its steps, as a relation.  Each call
marks one more class before it looks at the parents of it.  So the calls lie inside
each other at most as deep as there are known classes (`looks_searchProperty`).

*What is found.*  The calls that are open when a type is found form a way up, and none
of the classes on it documents the property (`Looks.origin`).

*What is missed.*  A search that finds nothing leaves marks that are closed under
parents, but for the classes marked before it (`Looks.closed`).  A branch may turn back
at a mark of another branch: the class behind it has been dealt with there.  At the
start only the class itself is marked, and its parents are gone through.  So in the end
all classes above it are marked.
-/

namespace NativeHints

open Relation (ReflTransGen TransGen)

namespace Graph

variable {g : Graph} {property : Text}

/-! ## The search without a bound -/

/-- What the search finds among parents and the marks it leaves, given the marks it begins with
and with its calls at most so deep inside each other. -/
inductive Looks (g : Graph) (property : Text) :
    List Text → List Text → Option HintType → List Text → Nat → Prop where
  /-- No parent is left. -/
  | done {seen : List Text} {depth : Nat} : Looks g property seen [] none seen depth
  /-- The parent is marked already. -/
  | skipped {seen seen' rest : List Text} {parent : Text} {r : Option HintType} {depth : Nat} :
      lookupKey parent ∈ seen → Looks g property seen rest r seen' depth →
      Looks g property seen (parent :: rest) r seen' depth
  /-- The parent documents the property. -/
  | found {seen rest : List Text} {parent : Text} {t : HintType} {depth : Nat} :
      lookupKey parent ∉ seen → g.ownProperty? parent property = some t →
      Looks g property seen (parent :: rest) (some t.asResolved) (lookupKey parent :: seen) depth
  /-- A class above the parent documents it. -/
  | above {seen seen' rest : List Text} {parent : Text} {t : HintType} {depth : Nat} :
      lookupKey parent ∉ seen → g.ownProperty? parent property = none →
      Looks g property (lookupKey parent :: seen) (g.parentsOf parent) (some t) seen' depth →
      Looks g property seen (parent :: rest) (some t) seen' (depth + 1)
  /-- Neither the parent nor what is new above it documents it. -/
  | passed {seen seen' seen'' rest : List Text} {parent : Text} {r : Option HintType}
      {depth : Nat} :
      lookupKey parent ∉ seen → g.ownProperty? parent property = none →
      Looks g property (lookupKey parent :: seen) (g.parentsOf parent) none seen' depth →
      Looks g property seen' rest r seen'' (depth + 1) →
      Looks g property seen (parent :: rest) r seen'' (depth + 1)

namespace Looks

variable {seen seen' parents : List Text} {r : Option HintType} {depth : Nat}

/-- Marks stay. -/
theorem subset (h : g.Looks property seen parents r seen' depth) : seen ⊆ seen' := by
  induction h with
  | done => exact List.Subset.refl _
  | skipped _ _ ih => exact ih
  | found _ _ => exact List.subset_cons_self ..
  | above _ _ _ ih => exact List.Subset.trans (List.subset_cons_self ..) ih
  | passed _ _ _ _ ihabove ihrest =>
      exact List.Subset.trans (List.subset_cons_self ..) (List.Subset.trans ihabove ihrest)

/-- A search has one outcome. -/
theorem unique (h : g.Looks property seen parents r seen' depth) {r' : Option HintType}
    {seen'' : List Text} {depth' : Nat} (h' : g.Looks property seen parents r' seen'' depth') :
    r = r' ∧ seen' = seen'' := by
  induction h generalizing r' seen'' depth' with
  | done => cases h' with
    | done => exact ⟨rfl, rfl⟩
  | skipped hseen _ ih => cases h' with
    | skipped _ hrest => exact ih hrest
    | found hnot _ => exact absurd hseen hnot
    | above hnot _ _ => exact absurd hseen hnot
    | passed hnot _ _ _ => exact absurd hseen hnot
  | found hnot hown => cases h' with
    | skipped hseen _ => exact absurd hseen hnot
    | found _ hown' =>
        cases hown.symm.trans hown'
        exact ⟨rfl, rfl⟩
    | above _ hown' _ => cases hown.symm.trans hown'
    | passed _ hown' _ _ => cases hown.symm.trans hown'
  | above hnot hown _ ih => cases h' with
    | skipped hseen _ => exact absurd hseen hnot
    | found _ hown' => cases hown.symm.trans hown'
    | above _ _ habove => exact ih habove
    | passed _ _ habove _ => cases (ih habove).1
  | passed hnot hown _ _ ihabove ihrest => cases h' with
    | skipped hseen _ => exact absurd hseen hnot
    | found _ hown' => cases hown.symm.trans hown'
    | above _ _ habove => cases (ihabove habove).1
    | passed _ _ habove hrest =>
        obtain rfl := (ihabove habove).2
        exact ihrest hrest

end Looks

/-! ## Enough steps -/

/-- The number of known classes that are not marked. -/
def unseenCount (g : Graph) (seen : List Text) : Nat :=
  (g.knownKeys.dedup.filter fun key => key ∉ seen).length

theorem unseenCount_le_knownCount (g : Graph) (seen : List Text) :
    g.unseenCount seen ≤ g.knownCount :=
  List.length_filter_le ..

theorem unseenCount_mono {seen seen' : List Text} (h : seen ⊆ seen') :
    g.unseenCount seen' ≤ g.unseenCount seen := by
  refine (List.monotone_filter_right _ fun key hkey => ?_).length_le
  simp only [decide_eq_true_eq] at hkey ⊢
  exact fun hmem => hkey (h hmem)

/-- Marking a known class leaves fewer. -/
theorem unseenCount_cons_lt {seen : List Text} {name : Text} (hk : g.isKnown name = true)
    (hnot : lookupKey name ∉ seen) :
    g.unseenCount (lookupKey name :: seen) < g.unseenCount seen := by
  have hmem : lookupKey name ∈ g.knownKeys.dedup.filter fun key => key ∉ seen :=
    List.mem_filter.mpr ⟨List.mem_dedup.mpr (isKnown_iff.mp hk), decide_eq_true hnot⟩
  have hfilter : (g.knownKeys.dedup.filter fun key => key ∉ lookupKey name :: seen) =
      (g.knownKeys.dedup.filter fun key => key ∉ seen).filter fun key => key ≠ lookupKey name := by
    rw [List.filter_filter]
    congr 1
    funext key
    simp [not_or]
  rw [unseenCount, unseenCount, hfilter]
  exact List.length_filter_lt_length_iff_exists.mpr ⟨_, hmem, by simp⟩

/-- The step: going through parents is the search without a bound, if the calls above those that
are not marked are. -/
theorem looks_searchParents {above : List Text → Text → Option HintType × List Text}
    {depth : Nat} {seen : List Text}
    (habove : ∀ {marked : List Text} {p : Text}, seen ⊆ marked → lookupKey p ∉ marked →
      g.Looks property (lookupKey p :: marked) (g.parentsOf p)
        (above (lookupKey p :: marked) p).1 (above (lookupKey p :: marked) p).2 depth)
    {marked : List Text} (hmarked : seen ⊆ marked) (parents : List Text) :
    g.Looks property marked parents (g.searchParents property above marked parents).1
      (g.searchParents property above marked parents).2 (depth + 1) := by
  induction parents generalizing marked with
  | nil => exact .done
  | cons parent rest ih =>
      rw [searchParents]
      by_cases hseen : lookupKey parent ∈ marked
      · rw [if_pos (List.contains_iff_mem.mpr hseen)]
        exact .skipped hseen (ih hmarked)
      · rw [if_neg (by simpa using hseen)]
        cases hown : g.ownProperty? parent property with
        | some t => exact .found hseen hown
        | none =>
            have hcall := habove hmarked hseen
            cases hfound : above (lookupKey parent :: marked) parent with
            | mk found after =>
                rw [hfound] at hcall
                cases found with
                | some t => exact .above hseen hown hcall
                | none =>
                    have hafter : seen ⊆ after := fun key hkey =>
                      hcall.subset (List.mem_cons_of_mem _ (hmarked hkey))
                    exact .passed hseen hown hcall (ih hafter)

theorem searchProperty_of_unknown {name : Text} (hk : g.isKnown name = false) (n : Nat)
    (seen : List Text) : g.searchProperty property n seen name = (none, seen) := by
  cases n with
  | zero => rfl
  | succ n => rw [searchProperty, parentsOf_of_unknown hk, searchParents]

/-- The run: whatever number of steps `searchProperty` is given, it is the search without a
bound if the known classes that are not marked are fewer than the steps. -/
theorem looks_searchProperty {depth n : Nat} (hn : depth ≤ n) {seen : List Text}
    (hdepth : g.unseenCount seen < depth) (name : Text) :
    g.Looks property seen (g.parentsOf name) (g.searchProperty property n seen name).1
      (g.searchProperty property n seen name).2 depth := by
  induction depth generalizing n seen name with
  | zero => omega
  | succ depth ih =>
      obtain ⟨n, rfl⟩ : ∃ k, n = k + 1 := ⟨n - 1, by omega⟩
      refine looks_searchParents (fun {marked p} hmarked hnot => ?_) (List.Subset.refl seen) _
      cases hk : g.isKnown p with
      | true =>
          have hless := unseenCount_cons_lt hk hnot
          have hmono := unseenCount_mono (g := g) hmarked
          exact ih (by omega) (by omega) p
      | false =>
          rw [searchProperty_of_unknown hk, parentsOf_of_unknown hk]
          exact .done

/-- What the search for the type of a property answers, with its calls at most so deep inside each
other: what it finds above the class, which alone is marked, and else what the class documents. -/
def AnswersProperty (g : Graph) (property name : Text) (r : Option HintType) (depth : Nat) :
    Prop :=
  ∃ found seen, g.Looks property [lookupKey name] (g.parentsOf name) found seen depth ∧
    r = found.or (g.ownProperty? name property)

theorem looks_typeAbove? (g : Graph) (name property : Text) :
    ∃ seen, g.Looks property [lookupKey name] (g.parentsOf name) (g.typeAbove? name property) seen
      g.knownCount := by
  cases hk : g.isKnown name with
  | true =>
      have hless := unseenCount_cons_lt hk (List.not_mem_nil (a := lookupKey name))
      have hall := unseenCount_le_knownCount g []
      have hcount := knownCount_le g
      exact ⟨_, looks_searchProperty (by omega) (by omega) name⟩
  | false =>
      rw [typeAbove?, searchProperty_of_unknown hk, parentsOf_of_unknown hk]
      exact ⟨_, .done⟩

/-! ## What is found -/

/-- A parent of a class is passed over: it does not document the property. -/
def PassesOver (g : Graph) (property name parent : Text) : Prop :=
  parent ∈ g.parentsOf name ∧ g.ownProperty? parent property = none

/-- A class stands above another one, and no class in between documents the property. -/
def NextAbove (g : Graph) (property name above : Text) : Prop :=
  ∃ last, ReflTransGen (g.PassesOver property) name last ∧ above ∈ g.parentsOf last

theorem NextAbove.listsParent {name above : Text} (h : g.NextAbove property name above) :
    TransGen g.ListsParent name above := by
  obtain ⟨last, hway, habove⟩ := h
  have hway' : ReflTransGen g.ListsParent name last :=
    hway.lift id fun _ _ hstep => hstep.1
  exact .tail' hway' habove

/-- A type that is found is documented by a class without a mark, and no class in between
documents the property. -/
theorem Looks.origin {seen seen' parents : List Text} {r : Option HintType} {depth : Nat}
    (h : g.Looks property seen parents r seen' depth) {t : HintType} (hr : r = some t)
    {name : Text} (hparents : parents ⊆ g.parentsOf name) :
    ∃ above u, g.NextAbove property name above ∧ lookupKey above ∉ seen ∧
      g.ownProperty? above property = some u ∧ t = u.asResolved := by
  induction h generalizing name with
  | done => cases hr
  | skipped _ _ ih => exact ih hr (List.cons_subset.mp hparents).2
  | @found seen rest parent u depth hnot hown =>
      cases hr
      exact ⟨parent, u, ⟨name, .refl, hparents (List.mem_cons_self ..)⟩, hnot, hown, rfl⟩
  | @above seen seen' rest parent u depth hnot hown _ ih =>
      -- the way from the parent becomes one from the class, with the parent in between
      obtain ⟨above, v, ⟨last, hway, habove⟩, hnew, hdoc⟩ := ih hr (List.Subset.refl _)
      have hstep : g.PassesOver property name parent := ⟨hparents (List.mem_cons_self ..), hown⟩
      exact ⟨above, v, ⟨last, .head hstep hway, habove⟩, fun hmem =>
        hnew (List.mem_cons_of_mem _ hmem), hdoc⟩
  | passed hnot hown habove _ _ ihrest =>
      obtain ⟨above, v, hway, hnew, hdoc⟩ := ihrest hr (List.cons_subset.mp hparents).2
      exact ⟨above, v, hway, fun hmem => hnew (habove.subset (List.mem_cons_of_mem _ hmem)), hdoc⟩

/-! ## What is missed -/

/-- A search that finds nothing marks the parents that it goes through.  Each class with a new
mark does not document the property, and its parents are marked. -/
theorem Looks.closed {seen seen' parents : List Text} {r : Option HintType} {depth : Nat}
    (h : g.Looks property seen parents r seen' depth) (hr : r = none) :
    (∀ p ∈ parents, lookupKey p ∈ seen') ∧
      ∀ a, lookupKey a ∈ seen' → lookupKey a ∈ seen ∨
        g.ownProperty? a property = none ∧ ∀ p ∈ g.parentsOf a, lookupKey p ∈ seen' := by
  induction h with
  | done => exact ⟨fun p hp => absurd hp List.not_mem_nil, fun a ha => .inl ha⟩
  | @skipped seen seen' rest parent r depth hseen hrest ih =>
      obtain ⟨hparents, hclosed⟩ := ih hr
      refine ⟨fun p hp => ?_, hclosed⟩
      rcases List.mem_cons.mp hp with rfl | hp
      · exact hrest.subset hseen
      · exact hparents p hp
  | found _ _ => cases hr
  | above _ _ _ _ => cases hr
  | @passed seen seen' seen'' rest parent r depth hnot hown habove hrest ihabove ihrest =>
      obtain ⟨hgrand, hclosed⟩ := ihabove rfl
      obtain ⟨hparents, hclosed'⟩ := ihrest hr
      refine ⟨fun p hp => ?_, fun a ha => ?_⟩
      · rcases List.mem_cons.mp hp with rfl | hp
        · exact hrest.subset (habove.subset (List.mem_cons_self ..))
        · exact hparents p hp
      · rcases hclosed' a ha with ha | hnew
        · -- marked above the parent, so by the call there or as the parent itself
          rcases hclosed a ha with ha | ⟨hown', hup⟩
          · rcases List.mem_cons.mp ha with hkey | hseen
            · refine .inr ⟨(ownProperty?_of_key hkey property).trans hown, fun p hp => ?_⟩
              rw [parentsOf_of_key g hkey] at hp
              exact hrest.subset (hgrand p hp)
            · exact .inl hseen
          · exact .inr ⟨hown', fun p hp => hrest.subset (hup p hp)⟩
        · exact .inr hnew

/-- When nothing is found above a class, all classes above it are marked in the end.  So no other
one documents the property. -/
theorem ownProperty?_of_typeAbove?_none {name : Text} (h : g.typeAbove? name property = none)
    {above : Text} (hway : ReflTransGen g.ListsParent name above)
    (hother : lookupKey above ≠ lookupKey name) : g.ownProperty? above property = none := by
  obtain ⟨seen, hlooks⟩ := looks_typeAbove? g name property
  obtain ⟨hparents, hclosed⟩ := hlooks.closed h
  have hmarked : lookupKey above ∈ seen := by
    clear hother
    induction hway with
    | refl => exact hlooks.subset (List.mem_singleton.mpr rfl)
    | @tail a p _ hp ih =>
        rcases hclosed a ih with hself | ⟨-, hup⟩
        · apply hparents p
          rw [← parentsOf_of_key g (List.mem_singleton.mp hself)]
          exact hp
        · exact hup p hp
  rcases hclosed above hmarked with hself | ⟨hown, -⟩
  · exact absurd (List.mem_singleton.mp hself) hother
  · exact hown

/-- What is found above a class is documented by another one, the next above it on some way. -/
theorem exists_nextAbove_of_typeAbove? {name : Text} {t : HintType}
    (h : g.typeAbove? name property = some t) :
    ∃ above u, g.NextAbove property name above ∧ lookupKey above ≠ lookupKey name ∧
      g.ownProperty? above property = some u ∧ t = u.asResolved := by
  obtain ⟨seen, hlooks⟩ := looks_typeAbove? g name property
  obtain ⟨above, u, hway, hnew, hdoc⟩ := hlooks.origin h (List.Subset.refl _)
  exact ⟨above, u, hway, fun hkey => hnew (List.mem_singleton.mpr hkey), hdoc⟩

/-- Another class above the given one documents the property. -/
def DocumentedAbove (g : Graph) (property name : Text) : Prop :=
  ∃ above, TransGen g.ListsParent name above ∧ lookupKey above ≠ lookupKey name ∧
    (g.ownProperty? above property).isSome = true

theorem typeAbove?_eq_none_iff {name : Text} :
    g.typeAbove? name property = none ↔ ¬ g.DocumentedAbove property name := by
  constructor
  · rintro h ⟨above, hway, hother, hdoc⟩
    rw [ownProperty?_of_typeAbove?_none h hway.to_reflTransGen hother] at hdoc
    cases hdoc
  · intro h
    by_contra hne
    obtain ⟨t, ht⟩ := Option.ne_none_iff_exists'.mp hne
    obtain ⟨above, u, hway, hother, hdoc, -⟩ := exists_nextAbove_of_typeAbove? ht
    exact h ⟨above, hway.listsParent, hother, by simp [hdoc]⟩

theorem property?_eq_none_iff {name : Text} :
    g.property? name property = none ↔
      ∀ d, ReflTransGen g.ListsParent name d → g.ownProperty? d property = none := by
  rw [property?_eq, Option.or_eq_none_iff]
  constructor
  · rintro ⟨habove, hown⟩ d hway
    by_cases hkey : lookupKey d = lookupKey name
    · rw [ownProperty?_of_key hkey, hown]
    · exact ownProperty?_of_typeAbove?_none habove hway hkey
  · intro h
    refine ⟨typeAbove?_eq_none_iff.mpr ?_, h name .refl⟩
    rintro ⟨above, hway, -, hdoc⟩
    simp [h above hway.to_reflTransGen] at hdoc

/-- The search for the type of a property ends on every hierarchy, with its calls nested no deeper
than there are known classes, and it misses nothing.  It finds no type exactly if neither
the class nor any class above documents the property.  If another class above documents it,
the type is that of such a class, named by what it means, and no class in between documents the
property.  Otherwise it is the type that the class documents itself. -/
theorem property_search_complete (g : Graph) (name property : Text) :
    g.AnswersProperty property name (g.property? name property) g.knownCount ∧
    (∀ r depth, g.AnswersProperty property name r depth → r = g.property? name property) ∧
    (g.property? name property = none ↔
      ∀ d, ReflTransGen g.ListsParent name d → g.ownProperty? d property = none) ∧
    (g.DocumentedAbove property name ∧
        (∃ above u, g.NextAbove property name above ∧ lookupKey above ≠ lookupKey name ∧
          g.ownProperty? above property = some u ∧
          g.property? name property = some u.asResolved) ∨
      ¬ g.DocumentedAbove property name ∧
        g.property? name property = g.ownProperty? name property) := by
  obtain ⟨seen, hlooks⟩ := looks_typeAbove? g name property
  refine ⟨⟨_, seen, hlooks, property?_eq name property⟩, ?_, property?_eq_none_iff, ?_⟩
  · rintro r depth ⟨found, seen', hlooks', rfl⟩
    rw [property?_eq, (hlooks.unique hlooks').1]
  · cases htype : g.typeAbove? name property with
    | none =>
        refine .inr ⟨typeAbove?_eq_none_iff.mp htype, ?_⟩
        rw [property?_eq, htype, Option.none_or]
    | some t =>
        obtain ⟨above, u, hway, hother, hdoc, rfl⟩ := exists_nextAbove_of_typeAbove? htype
        refine .inl ⟨⟨above, hway.listsParent, hother, by simp [hdoc]⟩, above, u, hway, hother,
          hdoc, ?_⟩
        rw [property?_eq, htype, Option.some_or]

end Graph

end NativeHints
