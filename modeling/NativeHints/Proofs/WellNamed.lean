import NativeHints.Proofs.PlainNames
import NativeHints.Proofs.PropertySearch
import NativeHints.Proofs.Spelling
import NativeHints.Proofs.Spots

/-!
# Well-named code

The names that a file writes outside of doc comments are *well formed* if they are
paths of segments, and those of classes and aliases single segments.  In such files
every name that ends up in a scope or in the hierarchy is a path as well
(`Text.Qualified`), whatever the doc comments say.  There is one exception: `self` in
an anonymous class means the made-up name of that class.

That name does not spread.  It is only ever meant, while `self` is what is written.
And no class lists an anonymous one among its parents, so it is not handed down.
Hence the name to write of every effective type is a path
(`Graph.WellNamed.over_signature?`, `Graph.WellNamed.qualified_property?`).
-/

namespace NativeHints

open Relation (TransGen)

/-! ## Qualified names -/

namespace Text

/-- All segments between backslashes are segments of a name. -/
def Qualified (t : Text) : Prop := ∀ part ∈ splitOn '\\' t, Doc.isSegment part = true

instance (t : Text) : Decidable t.Qualified :=
  inferInstanceAs (Decidable (∀ part ∈ splitOn '\\' t, Doc.isSegment part = true))

theorem qualified_segmentwise : Segmentwise Qualified := by
  refine ⟨by simp [Qualified, splitOn_append, or_imp, forall_and], fun {t} h => ?_⟩
  have hmark : '\\' ∉ t := fun hmem => absurd (Doc.isNamePart_of_mem h hmem) (by decide)
  simpa [Qualified, splitOn_of_not_mem hmark] using h

theorem Qualified.of {P : Text → Prop} (hP : Segmentwise P) {t : Text} (h : t.Qualified) : P t :=
  hP.of_segments h

end Text

open Text (Qualified qualified_segmentwise)

/-! ## Written names -/

/-- A name that is written outside of doc comments. -/
inductive WrittenName where
  /-- One that may have several segments, behind a backslash perhaps. -/
  | path (name : Text)
  /-- One that has to be a single segment. -/
  | single (name : Text)
deriving DecidableEq, Repr

/-- Whether a written name is well formed. -/
def WrittenName.isValid : WrittenName → Bool
  | path name => Doc.isName name
  | single name => Doc.isSegment name

/-- The names of an import clause. -/
def Import.names (i : Import) : List WrittenName := [.path i.name, .single i.shortName]

/-- The names in front of the members of a class-like. -/
def ClassHead.names (c : ClassHead) : List WrittenName :=
  c.name.toList.map .single ++ (c.bases ++ c.interfaces).map .path

/-- All names that an outline writes outside of doc comments. -/
def Outline.names : Outline → List WrittenName
  | .empty => []
  | .namespaceLine name rest => name.toList.map .path ++ rest.names
  | .namespaceBlock name body rest => name.toList.map .path ++ body.names ++ rest.names
  | .imports clauses rest => clauses.flatMap Import.names ++ rest.names
  | .classLike head members rest => head.names ++ members.names ++ rest.names
  | .functionLike _ body rest => body.names ++ rest.names
  | .property _ rest => rest.names
  | .traitUse names rest => names.map .path ++ rest.names

/-- All names that an outline writes are well formed. -/
def Outline.WellNamed (o : Outline) : Prop := ∀ n ∈ o.names, n.isValid = true

instance (o : Outline) : Decidable o.WellNamed :=
  inferInstanceAs (Decidable (∀ n ∈ o.names, n.isValid = true))

/-! ## Scopes -/

/-- The names in effect are paths, and the aliases single segments. -/
structure Scope.WellNamed (s : Scope) : Prop where
  names : s.Over Qualified
  aliases : ∀ a ∈ s.aliases, Doc.isSegment a.name = true

namespace Scope

theorem wellNamed_start : WellNamed .start := ⟨over_start, by simp [start]⟩

theorem wellNamed_enter (s : Scope) {name : Option Text}
    (h : ∀ n ∈ name.toList.map WrittenName.path, n.isValid = true) : (s.enter name).WellNamed := by
  refine ⟨over_enter s fun n hn => ?_, by simp [enter]⟩
  have hvalid : Doc.isName n = true := h (.path n) (by simpa using hn)
  exact qualified_segmentwise.dropLeading_rooted (qualified_segmentwise.rooted_of_isName hvalid)

theorem wellNamed_withImport {s : Scope} (hs : s.WellNamed) {i : Import}
    (hi : ∀ n ∈ i.names, n.isValid = true) : (s.withImport i).WellNamed := by
  have hname : Doc.isName i.name = true := hi (.path i.name) (by simp [Import.names])
  have halias : Doc.isSegment i.shortName = true :=
    hi (.single i.shortName) (by simp [Import.names])
  refine ⟨over_withImport hs.names ?_, ?_⟩
  · exact qualified_segmentwise.dropLeading_rooted (qualified_segmentwise.rooted_of_isName hname)
  · rw [withImport.eq_def]
    split
    · intro a ha
      rcases List.mem_append.mp ha with ha | ha
      · exact hs.aliases a (List.mem_filter.mp ha).1
      · rw [List.mem_singleton.mp ha]
        exact halias
    · exact hs.aliases

theorem wellNamed_importAll {s : Scope} (hs : s.WellNamed) {is : List Import}
    (his : ∀ n ∈ is.flatMap Import.names, n.isValid = true) : (s.importAll is).WellNamed := by
  induction is generalizing s with
  | nil => exact hs
  | cons i is ih =>
      rw [List.flatMap_cons, List.forall_mem_append] at his
      exact ih (wellNamed_withImport hs his.1) his.2

end Scope

/-! ## Class-likes -/

namespace ClassHead

variable {c : ClassHead} (hc : ∀ n ∈ c.names, n.isValid = true)

include hc

theorem isSegment_of_name {name : Text} (h : c.name = some name) : Doc.isSegment name = true :=
  hc (.single name) (by simp [names, h])

theorem rooted_of_mem {name : Text} (h : name ∈ c.bases ∨ name ∈ c.interfaces) :
    Text.Rooted Qualified name := by
  have hvalid : Doc.isName name = true := hc (.path name) (by simpa [names] using h)
  exact qualified_segmentwise.rooted_of_isName hvalid

/-- The key of a class-like is a path unless the class-like is anonymous. -/
theorem qualified_key {s : Scope} (hs : s.WellNamed) {path : Text}
    (hplain : (c.key path s).Plain) : (c.key path s).Qualified := by
  cases hname : c.name with
  | some name =>
      rw [key_of_name hname]
      exact Scope.over_qualify qualified_segmentwise hs.names
        (qualified_segmentwise.segment (isSegment_of_name hc hname))
  | none =>
      rw [key_of_anonymous hname] at hplain
      exact absurd hplain (not_plain_anonymousName path c.start)

end ClassHead

/-! ## Entries -/

/-- A type that is documented in a class: the name to write is a path, and what it means
is one too unless the class is anonymous. -/
structure HintType.WellNamedIn (key : Text) (t : HintType) : Prop where
  declared : t.declared.Qualified
  resolved : key.Plain → t.resolved.Qualified

/-- An entry of well-named code. -/
structure ClassEntry.WellNamed (e : ClassEntry) : Prop where
  key : e.key.Plain → e.key.Qualified
  parent : ∀ p ∈ e.parent, Qualified p
  methods : ∀ {name s}, e.method? name = some s → s.Over (HintType.WellNamedIn e.key)
  properties : ∀ {name t}, e.property? name = some t → HintType.WellNamedIn e.key t

namespace ClassEntry

variable {e : ClassEntry}

theorem WellNamed.withMethod (he : e.WellNamed) (name : Text) {s : Signature}
    (hs : s.Over (HintType.WellNamedIn e.key)) : (e.withMethod name s).WellNamed := by
  refine ⟨he.key, he.parent, fun {name' s'} h => ?_, he.properties⟩
  rw [method?, ClassEntry.withMethod, Table.find?_put] at h
  split at h
  · cases h
    exact hs
  · exact he.methods h

theorem WellNamed.withProperty (he : e.WellNamed) (name : Text) {t : HintType}
    (ht : t.WellNamedIn e.key) : (e.withProperty name t).WellNamed := by
  refine ⟨he.key, he.parent, he.methods, fun {name' t'} h => ?_⟩
  rw [property?, ClassEntry.withProperty, Table.find?_put] at h
  split at h
  · cases h
    exact ht
  · exact he.properties h

end ClassEntry

/-! ## Collecting -/

/-- The facts of well-named code. -/
structure Facts.WellNamed (facts : Facts) : Prop where
  classes : ∀ e ∈ facts.classes, e.WellNamed
  edges : ∀ edge ∈ facts.edges, ∀ p ∈ edge.2, Qualified p

namespace Collect

/-- The class that is being read is well named. -/
structure Frame.WellNamed (f : Frame) : Prop where
  entry : f.entry.WellNamed
  parents : ∀ p ∈ f.parents, Qualified p

/-- A state on the way through well-named code. -/
structure State.WellNamed (st : State) : Prop where
  scope : st.scope.WellNamed
  frame : ∀ f ∈ st.frame, f.WellNamed
  facts : st.facts.WellNamed

theorem wellNamed_openFrame (path : Text) {s : Scope} (hs : s.WellNamed) {c : ClassHead}
    (hc : ∀ n ∈ c.names, n.isValid = true) : (openFrame path s c).WellNamed where
  entry := by
    refine ⟨ClassHead.qualified_key hc hs, ?_, (fun h => by cases h), fun h => by cases h⟩
    exact ClassHead.over_parent qualified_segmentwise hs.names fun name h =>
      ClassHead.rooted_of_mem hc (.inl h)
  parents := ClassHead.over_parents qualified_segmentwise hs.names
    (fun name h => ClassHead.rooted_of_mem hc (.inl h))
    fun name h => ClassHead.rooted_of_mem hc (.inr h)

variable {f : Frame} (hf : f.WellNamed) {s : Scope} (hs : s.WellNamed)

include hf hs

/-- A type that is read in the class. -/
theorem wellNamedIn_of_readType? (written : Text) (t : HintType)
    (h : Doc.readType? s (some f.enclosing) written = some t) : t.WellNamedIn f.entry.key where
  declared := Doc.over_declared qualified_segmentwise hs.names h
  resolved := by
    intro hplain
    refine Doc.over_resolved qualified_segmentwise hs.names (fun c hc => ?_) h
    cases hc
    exact ⟨hf.entry.key hplain, hf.entry.parent⟩

theorem wellNamed_withMethod (m : FunctionHead) : (f.withMethod s m).WellNamed := by
  rw [Frame.withMethod]
  split
  · split
    · exact hf
    · have hread := Doc.over_signature (wellNamedIn_of_readType? hf hs)
      exact ⟨hf.entry.withMethod _ (hread _ _), hf.parents⟩
  · exact hf

theorem wellNamed_withProperty (p : Property) : (f.withProperty s p).WellNamed := by
  rw [Frame.withProperty]
  split
  · split
    · next t ht =>
        have hread := Doc.over_propertyType? (wellNamedIn_of_readType? hf hs) ht
        exact ⟨hf.entry.withProperty _ hread, hf.parents⟩
    · exact hf
  · exact hf

omit hf hs

/-- A class that was read becomes a fact. -/
theorem wellNamed_close {facts : Facts} (hfacts : facts.WellNamed) {frame : Option Frame}
    (hframe : ∀ f ∈ frame, f.WellNamed) : (frame.elim facts (addFrame facts)).WellNamed := by
  cases frame with
  | none => exact hfacts
  | some f =>
      have hf := hframe f rfl
      refine ⟨List.forall_mem_append.mpr ⟨hfacts.classes, ?_⟩,
        List.forall_mem_append.mpr ⟨hfacts.edges, ?_⟩⟩
      · simpa using hf.entry
      · simpa using hf.parents

theorem wellNamed_addTraitUses {facts : Facts} (hfacts : facts.WellNamed) (s : Scope)
    {frame : Option Frame} (hframe : ∀ f ∈ frame, f.WellNamed) (names : List Text) :
    (addTraitUses facts s frame names).WellNamed := by
  cases frame with
  | none => exact hfacts
  | some f =>
      refine ⟨hfacts.classes, List.forall_mem_append.mpr ⟨hfacts.edges, fun edge hedge => ?_⟩⟩
      obtain ⟨name, -, rfl⟩ := List.mem_map.mp hedge
      exact (hframe f rfl).parents

/-- The run: collecting keeps everything well named. -/
theorem wellNamed_collect (path : Text) {o : Outline} (ho : o.WellNamed) {st : State}
    (h : st.WellNamed) : (collect path o st).WellNamed := by
  induction o generalizing st with
  | empty => exact h
  | namespaceLine name rest ih =>
      obtain ⟨hname, hrest⟩ := List.forall_mem_append.mp ho
      exact ih hrest ⟨Scope.wellNamed_enter st.scope hname, h.frame, h.facts⟩
  | namespaceBlock name body rest ihbody ihrest =>
      obtain ⟨hfront, hrest⟩ := List.forall_mem_append.mp ho
      obtain ⟨hname, hbody⟩ := List.forall_mem_append.mp hfront
      have hinner : (collect path body ⟨st.scope.enter name, st.frame, st.facts⟩).WellNamed :=
        ihbody hbody ⟨Scope.wellNamed_enter st.scope hname, h.frame, h.facts⟩
      exact ihrest hrest ⟨Scope.wellNamed_enter st.scope (by simp), hinner.frame, hinner.facts⟩
  | imports clauses rest ih =>
      obtain ⟨hclauses, hrest⟩ := List.forall_mem_append.mp ho
      exact ih hrest ⟨Scope.wellNamed_importAll h.scope hclauses, h.frame, h.facts⟩
  | classLike head members rest ihmembers ihrest =>
      obtain ⟨hfront, hrest⟩ := List.forall_mem_append.mp ho
      obtain ⟨hhead, hmembers⟩ := List.forall_mem_append.mp hfront
      have hopen : ∀ f ∈ some (openFrame path st.scope head), f.WellNamed := by
        intro f hf
        cases hf
        exact wellNamed_openFrame path h.scope hhead
      have hinner : (collect path members
          ⟨st.scope, some (openFrame path st.scope head), st.facts⟩).WellNamed :=
        ihmembers hmembers ⟨h.scope, hopen, h.facts⟩
      exact ihrest hrest ⟨hinner.scope, h.frame, wellNamed_close hinner.facts hinner.frame⟩
  | functionLike head body rest ihbody ihrest =>
      obtain ⟨hbody, hrest⟩ := List.forall_mem_append.mp ho
      refine ihrest hrest (ihbody hbody ⟨h.scope, fun f hf => ?_, h.facts⟩)
      obtain ⟨f', hf', rfl⟩ := Option.map_eq_some_iff.mp hf
      exact wellNamed_withMethod (h.frame f' hf') h.scope head
  | property decl rest ih =>
      refine ih ho ⟨h.scope, fun f hf => ?_, h.facts⟩
      obtain ⟨f', hf', rfl⟩ := Option.map_eq_some_iff.mp hf
      exact wellNamed_withProperty (h.frame f' hf') h.scope decl
  | traitUse names rest ih =>
      obtain ⟨-, hrest⟩ := List.forall_mem_append.mp ho
      exact ih hrest ⟨h.scope, h.frame, wellNamed_addTraitUses h.facts _ h.frame names⟩

end Collect

namespace Outline

theorem WellNamed.facts {o : Outline} (ho : o.WellNamed) (path : Text) :
    (o.facts path).WellNamed := by
  have hstart : Collect.State.WellNamed ⟨.start, none, ⟨[], []⟩⟩ :=
    ⟨Scope.wellNamed_start, by simp, by simp, by simp⟩
  exact (Collect.wellNamed_collect path ho hstart).facts

theorem WellNamed.scopeAfter {o : Outline} (ho : o.WellNamed) {s : Scope} (hs : s.WellNamed) :
    (o.scopeAfter s).WellNamed := by
  have hstart : Collect.State.WellNamed ⟨s, none, ⟨[], []⟩⟩ := ⟨hs, by simp, by simp, by simp⟩
  have hend := (Collect.wellNamed_collect [] ho hstart).scope
  rwa [Collect.scope_collect] at hend

/-- The names in effect at every declaration. -/
theorem WellNamed.visit {o : Outline} (ho : o.WellNamed) {s : Scope} (hs : s.WellNamed)
    {around : List (ClassHead × Scope)} {v : Visit} (hv : v ∈ o.visits s around) :
    v.scope.WellNamed := by
  induction o generalizing s around with
  | empty => cases hv
  | namespaceLine name rest ih =>
      obtain ⟨hname, hrest⟩ := List.forall_mem_append.mp ho
      exact ih hrest (Scope.wellNamed_enter s hname) hv
  | namespaceBlock name body rest ihbody ihrest =>
      obtain ⟨hfront, hrest⟩ := List.forall_mem_append.mp ho
      obtain ⟨hname, hbody⟩ := List.forall_mem_append.mp hfront
      rcases List.mem_append.mp hv with hv | hv
      · exact ihbody hbody (Scope.wellNamed_enter s hname) hv
      · exact ihrest hrest (Scope.wellNamed_enter _ (by simp)) hv
  | imports clauses rest ih =>
      obtain ⟨hclauses, hrest⟩ := List.forall_mem_append.mp ho
      exact ih hrest (Scope.wellNamed_importAll hs hclauses) hv
  | classLike head members rest ihmembers ihrest =>
      obtain ⟨hfront, hrest⟩ := List.forall_mem_append.mp ho
      obtain ⟨-, hmembers⟩ := List.forall_mem_append.mp hfront
      rcases List.mem_append.mp hv with hv | hv
      · exact ihmembers hmembers hs hv
      · exact ihrest hrest (WellNamed.scopeAfter hmembers hs) hv
  | functionLike head body rest ihbody ihrest =>
      obtain ⟨hbody, hrest⟩ := List.forall_mem_append.mp ho
      rcases List.mem_cons.mp hv with rfl | hv
      · exact hs
      · rcases List.mem_append.mp hv with hv | hv
        · exact ihbody hbody hs hv
        · exact ihrest hrest (WellNamed.scopeAfter hbody hs) hv
  | property decl rest ih =>
      rcases List.mem_cons.mp hv with rfl | hv
      · exact hs
      · exact ih ho hs hv
  | traitUse names rest ih =>
      obtain ⟨-, hrest⟩ := List.forall_mem_append.mp ho
      exact ih hrest hs hv

end Outline

/-! ## The hierarchy -/

namespace Graph

/-- The hierarchy of well-named code. -/
structure WellNamed (g : Graph) : Prop where
  key : ∀ {name e}, g.class? name = some e → lookupKey e.key = lookupKey name
  classes : ∀ {name e}, g.class? name = some e → e.WellNamed
  parents : ∀ {name p}, p ∈ g.parentsOf name → p.Qualified

variable {g : Graph}

theorem WellNamed.addClass (hg : g.WellNamed) {e : ClassEntry} (he : e.WellNamed) :
    (g.addClass e).WellNamed := by
  have hcases : ∀ {name e'}, (g.addClass e).class? name = some e' →
      (lookupKey name = lookupKey e.key ∧ e' = e) ∨ g.class? name = some e' := by
    intro name e' h
    rw [class?, Graph.addClass, Table.find?_put] at h
    split at h
    · next hkey => cases h; exact .inl ⟨hkey, rfl⟩
    · exact .inr h
  refine ⟨fun h => ?_, fun h => ?_, hg.parents⟩
  · rcases hcases h with ⟨hkey, rfl⟩ | h
    · exact hkey.symm
    · exact hg.key h
  · rcases hcases h with ⟨-, rfl⟩ | h
    · exact he
    · exact hg.classes h

theorem WellNamed.addParents (hg : g.WellNamed) {child : Text} {parents : List Text}
    (hparents : ∀ p ∈ parents, Qualified p) : (g.addParents child parents).WellNamed := by
  refine ⟨hg.key, hg.classes, fun {name p} hp => ?_⟩
  rw [parentsOf, Graph.addParents, Table.find?_put] at hp
  split at hp
  · rcases mem_foldl_addName hp with hp | hp
    · exact hg.parents hp
    · exact hparents p hp
  · exact hg.parents hp

theorem WellNamed.addFacts (hg : g.WellNamed) {facts : Facts} (hfacts : facts.WellNamed) :
    (g.addFacts facts).WellNamed := by
  have hclasses : (facts.classes.foldl Graph.addClass g).WellNamed :=
    List.foldlRecOn _ _ hg fun _ hg e he => hg.addClass (hfacts.classes e he)
  exact List.foldlRecOn _ _ hclasses fun _ hg edge hedge =>
    hg.addParents (hfacts.edges edge hedge)

/-- The hierarchy of well-named files. -/
theorem wellNamed_ofOutlines {files : List (Text × Outline)}
    (hfiles : ∀ file ∈ files, file.2.WellNamed) : (ofOutlines files).WellNamed := by
  have hempty : empty.WellNamed := 
    ⟨(fun h => by cases h), (fun h => by cases h), fun h => by cases h⟩
  refine List.foldlRecOn _ _ hempty fun _ hg facts hfacts => ?_
  obtain ⟨file, hfile, rfl⟩ := List.mem_map.mp hfacts
  exact hg.addFacts ((hfiles file hfile).facts file.1)

/-! ## Effective types -/

/-- A class above another has a path for a name, and so has no made-up one. -/
theorem WellNamed.plain_ancestor (hg : g.WellNamed) {name ancestor : Text}
    (h : TransGen g.ListsParent name ancestor) : ancestor.Plain := by
  have hqualified : ancestor.Qualified := by
    cases h with
    | single h => exact hg.parents h
    | tail _ h => exact hg.parents h
  exact hqualified.of Text.plain_segmentwise

theorem WellNamed.plain_key (hg : g.WellNamed) {name : Text} (hname : name.Plain) {e : ClassEntry}
    (he : g.class? name = some e) : e.key.Plain := by
  rw [← plain_lookupKey_iff, hg.key he]
  exact plain_lookupKey_iff.mpr hname

/-- What a class documents for a method. -/
theorem WellNamed.over_ownSignature? (hg : g.WellNamed) {name method : Text} {s : Signature}
    (h : g.ownSignature? name method = some s) :
    s.Over fun t => t.declared.Qualified ∧ (name.Plain → t.resolved.Qualified) := by
  obtain ⟨e, he, hmethod⟩ := Option.bind_eq_some_iff.mp h
  have hs := (hg.classes he).methods hmethod
  rw [Signature.over_iff_slot] at hs ⊢
  intro i t ht
  have ht' := hs i t ht
  exact ⟨ht'.declared, fun hname => ht'.resolved (hg.plain_key hname he)⟩

/-- What a class documents for a property. -/
theorem WellNamed.qualified_ownProperty? (hg : g.WellNamed) {name property : Text} {t : HintType}
    (h : g.ownProperty? name property = some t) :
    t.declared.Qualified ∧ (name.Plain → t.resolved.Qualified) := by
  obtain ⟨e, he, hproperty⟩ := Option.bind_eq_some_iff.mp h
  have ht := (hg.classes he).properties hproperty
  exact ⟨ht.declared, fun hname => ht.resolved (hg.plain_key hname he)⟩

/-- The names to write of an effective signature are paths. -/
theorem WellNamed.over_signature? (hg : g.WellNamed) {name method : Text} {s : Signature}
    (h : g.signature? name method = some s) : s.Over fun t => t.declared.Qualified := by
  rw [Signature.over_iff_slot]
  intro i t ht
  cases origin_of_searchSignature h ht with
  | own hown hslot =>
      exact (Signature.over_iff_slot.mp (hg.over_ownSignature? hown) i t hslot).1
  | @above s' u habove hslot heq =>
      rw [heq]
      show u.resolved.Qualified
      cases habove with
      | documented hpath hown =>
          have hplain := hg.plain_ancestor (hpath.lift id fun _ _ h => h.1)
          exact (Signature.over_iff_slot.mp (hg.over_ownSignature? hown) i u hslot).2 hplain
      | builtin _ _ _ _ hown =>
          have hall : s'.Over fun u => u.resolved.Qualified := Builtin.over_own? (by decide) hown
          exact Signature.over_iff_slot.mp hall i u hslot

/-- The name to write of an effective property type is a path. -/
theorem WellNamed.qualified_property? (hg : g.WellNamed) {name property : Text} {t : HintType}
    (h : g.property? name property = some t) : t.declared.Qualified := by
  rcases property?_origin h with hown | ⟨ancestor, u, hpath, hown, rfl⟩
  · exact (hg.qualified_ownProperty? hown).1
  · exact (hg.qualified_ownProperty? hown).2 (hg.plain_ancestor hpath)

end Graph

end NativeHints
