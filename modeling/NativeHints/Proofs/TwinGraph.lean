import NativeHints.Proofs.Tables
import NativeHints.Proofs.Twins
import NativeHints.Proofs.Search

/-!
# The hierarchy of annotated files

The hierarchy of a code base before insertions and the one after them give twins
alike entries and the same parents, and they know the same number of classes
(`GraphTwin`).  The parents of a class are always plain.  So a search goes through
plain names only, except for the class it begins at, and there it meets the same
entries in both hierarchies.  Hence twins have alike effective types
(`signature?_twin`, `property?_twin`).
-/

namespace NativeHints

open HintType (BothAlike)

/-! ## Building the hierarchy -/

/-- The hierarchies of a code base before insertions and after them. -/
structure GraphTwin (changes : Changes) (g g' : Graph) : Prop where
  classes : ∀ {a a' : Text}, Twin changes a a' →
    Option.Rel (EntryTwin changes) (g.class? a) (g'.class? a')
  keys : ∀ key, ∀ e ∈ g.classes.find? key, Graph.lookupKey e.key = key
  parents : ∀ {a a' : Text}, Twin changes a a' →
    g.parents.find? (Graph.lookupKey a) = g'.parents.find? (Graph.lookupKey a')
  plainParents : ∀ key, ∀ ps ∈ g.parents.find? key, ∀ p ∈ ps, Text.Plain p
  sorted : g.parents.Sorted
  sorted' : g'.parents.Sorted
  length : g.parents.length = g'.parents.length

namespace GraphTwin

variable {changes : Changes} {g g' : Graph}

theorem empty : GraphTwin changes .empty .empty := by
  refine ⟨fun _ => .none, fun key e he => ?_, fun _ => rfl, fun key ps hps => ?_, .nil, .nil, rfl⟩
  · cases he
  · cases hps

theorem addClass (hdistinct : changes.Distinct) (h : GraphTwin changes g g') {e e' : ClassEntry}
    (he : EntryTwin changes e e') : GraphTwin changes (g.addClass e) (g'.addClass e') := by
  refine ⟨fun {a a'} ha => ?_, fun key f hf => ?_, h.parents, h.plainParents, h.sorted, h.sorted',
    h.length⟩
  · have hkeys := ha.lookupKey_eq_iff hdistinct he.key
    simp only [Graph.class?, Graph.addClass, Table.find?_put, hkeys]
    split
    · exact .some he
    · exact h.classes ha
  · simp only [Graph.addClass, Table.find?_put] at hf
    split at hf
    · next hkey => cases hf; exact hkey.symm
    · exact h.keys key f hf

theorem parentsOf_eq (h : GraphTwin changes g g') {a a' : Text} (ha : Twin changes a a') :
    g.parentsOf a = g'.parentsOf a' := by
  rw [Graph.parentsOf, Graph.parentsOf, h.parents ha]

theorem isKnown_eq (h : GraphTwin changes g g') {a a' : Text} (ha : Twin changes a a') :
    g.isKnown a = g'.isKnown a' := by
  rw [Graph.isKnown, Graph.isKnown, h.parents ha]

theorem plain_parentsOf (h : GraphTwin changes g g') (name : Text) :
    ∀ p ∈ g.parentsOf name, Text.Plain p := by
  rw [Graph.parentsOf]
  cases hps : g.parents.find? (Graph.lookupKey name) with
  | none => intro p hp; cases hp
  | some ps => exact h.plainParents _ ps hps

theorem addParents (hdistinct : changes.Distinct) (h : GraphTwin changes g g')
    {edge edge' : Text × List Text} (hedge : EdgeTwin changes edge edge') :
    GraphTwin changes (g.addParents edge.1 edge.2) (g'.addParents edge'.1 edge'.2) := by
  have hlist : edge.2.foldl Graph.addName (g.parentsOf edge.1) =
      edge'.2.foldl Graph.addName (g'.parentsOf edge'.1) := by
    rw [hedge.parents, h.parentsOf_eq hedge.name]
  refine ⟨h.classes, h.keys, fun {a a'} ha => ?_, fun key ps hps => ?_,
    Table.sorted_put h.sorted _ _, Table.sorted_put h.sorted' _ _, ?_⟩
  · have hkeys := ha.lookupKey_eq_iff hdistinct hedge.name
    simp only [Graph.addParents, Table.find?_put, hkeys, hlist]
    split
    · rfl
    · exact h.parents ha
  · simp only [Graph.addParents, Table.find?_put] at hps
    split at hps
    · cases hps
      intro p hp
      rcases Graph.mem_foldl_addName hp with hp | hp
      · exact h.plain_parentsOf _ p hp
      · exact hedge.plainParents p hp
    · exact h.plainParents key ps hps
  · simp only [Graph.addParents, Table.length_put h.sorted, Table.length_put h.sorted',
      h.parents hedge.name, h.length]

theorem foldl {α : Type} {R : α → α → Prop} {f : Graph → α → Graph}
    (hstep : ∀ g g' a a', GraphTwin changes g g' → R a a' → GraphTwin changes (f g a) (f g' a'))
    {l l' : List α} (hl : List.Forall₂ R l l') (h : GraphTwin changes g g') :
    GraphTwin changes (l.foldl f g) (l'.foldl f g') := by
  induction hl generalizing g g' with
  | nil => exact h
  | cons ha _ ih => exact ih (hstep _ _ _ _ h ha)

theorem addFacts (hdistinct : changes.Distinct) (h : GraphTwin changes g g') {facts facts' : Facts}
    (hfacts : FactsTwin changes facts facts') :
    GraphTwin changes (g.addFacts facts) (g'.addFacts facts') := by
  have hclasses : GraphTwin changes (facts.classes.foldl Graph.addClass g)
      (facts'.classes.foldl Graph.addClass g') := by
    refine foldl ?_ hfacts.classes h
    intro g g' e e' hg he
    exact hg.addClass hdistinct he
  refine foldl ?_ hfacts.edges hclasses
  intro g g' edge edge' hg hedge
  exact hg.addParents hdistinct hedge

end GraphTwin

/-- The hierarchy of files and that of the files with insertions made in them. -/
theorem Graph.ofOutlines_twin {changes : Changes} (hdistinct : changes.Distinct)
    {files files' : List (Text × Outline)}
    (h : List.Forall₂ (fun f f' => ∃ is, (f.1, is) ∈ changes ∧ f.2.Plain ∧
      f' = (f.1, f.2.annotated is)) files files') :
    GraphTwin changes (ofOutlines files) (ofOutlines files') := by
  have hfacts : List.Forall₂ (FactsTwin changes) (files.map fun file => file.2.facts file.1)
      (files'.map fun file => file.2.facts file.1) := by
    refine List.forall₂_map_left_iff.mpr (List.forall₂_map_right_iff.mpr (h.imp ?_))
    rintro ⟨path, o⟩ f' ⟨is, hfile, ho, rfl⟩
    exact Outline.facts_twin hfile ho
  refine GraphTwin.foldl ?_ hfacts .empty
  intro g g' facts facts' hg hfacts
  exact hg.addFacts hdistinct hfacts

/-! ## Searching -/

theorem Graph.plain_combine {own inherited : Option Signature}
    (hown : ∀ s ∈ own, Signature.Plain s) (hinherited : ∀ s ∈ inherited, Signature.Plain s) :
    ∀ s ∈ combine own inherited, Signature.Plain s := by
  cases own with
  | none => exact hinherited
  | some s =>
      cases inherited with
      | none => exact hown
      | some s' =>
          intro t ht
          cases ht
          exact Signature.plain_merge (hown s rfl) (hinherited s' rfl)

theorem Graph.combine_alike {own own' inherited : Option Signature}
    (h : Option.Rel Signature.Alike own own') (hplain : ∀ s ∈ inherited, Signature.Plain s) :
    Option.Rel Signature.Alike (combine own inherited) (combine own' inherited) := by
  cases inherited with
  | none =>
      cases h with
      | none => exact .none
      | some h => exact .some h
  | some s =>
      cases h with
      | none => exact .some (.refl s)
      | some h => exact .some (Signature.merge_alike h (hplain s rfl))

/-- Two lists of keys have the same plain members. -/
def SamePlain (keys keys' : List Text) : Prop :=
  ∀ key : Text, key.Plain → (key ∈ keys ↔ key ∈ keys')

theorem SamePlain.cons {keys keys' : List Text} (hkeys : SamePlain keys keys') (key : Text) :
    SamePlain (key :: keys) (key :: keys') := by
  intro k hk
  rw [List.mem_cons, List.mem_cons, hkeys k hk]

theorem SamePlain.contains {keys keys' : List Text} (hkeys : SamePlain keys keys') {key : Text}
    (hkey : key.Plain) : keys.contains key = keys'.contains key := by
  rw [Bool.eq_iff_iff, List.contains_iff_mem, List.contains_iff_mem]
  exact hkeys key hkey

theorem Twin.samePlain {changes : Changes} {a a' : Text} (ha : Twin changes a a') :
    SamePlain [Graph.lookupKey a] [Graph.lookupKey a'] := by
  intro key hkey
  rw [List.mem_singleton, List.mem_singleton]
  cases ha with
  | plain => exact Iff.rfl
  | @anonymous path is hfile start =>
      have hapart : ∀ n, key ≠ Graph.lookupKey (anonymousName path n) := by
        rintro n rfl
        exact not_plain_anonymousName _ _ (Graph.plain_lookupKey_iff.mp hkey)
      exact ⟨fun h => absurd h (hapart _), fun h => absurd h (hapart _)⟩

namespace GraphTwin

variable {changes : Changes} {g g' : Graph} (h : GraphTwin changes g g')

include h

theorem ownSignature?_alike {a a' : Text} (ha : Twin changes a a') (method : Text) :
    Option.Rel Signature.Alike (g.ownSignature? a method) (g'.ownSignature? a' method) :=
  rel_bind (h.classes ha) fun _ _ he => he.methods method.lower

theorem ownProperty?_alike {a a' : Text} (ha : Twin changes a a') (property : Text) :
    BothAlike (g.ownProperty? a property) (g'.ownProperty? a' property) :=
  rel_bind (h.classes ha) fun _ _ he => he.properties property

/-- The entry found under a plain name has plain types. -/
theorem plain_class {name : Text} (hname : name.Plain) {e : ClassEntry}
    (he : g.class? name = some e) : (∀ method, ∀ s ∈ e.method? method, Signature.Plain s) ∧
      ∀ property, ∀ t ∈ e.property? property, HintType.Plain t := by
  have hkey : e.key.Plain := by
    rw [← Graph.plain_lookupKey_iff, h.keys _ e he, Graph.plain_lookupKey_iff]
    exact hname
  obtain ⟨e', -, hclass⟩ := exists_of_rel_some (he ▸ h.classes (.plain hname))
  exact ⟨fun method => hclass.plainMethods hkey method.lower, hclass.plainProperties hkey⟩

theorem plain_ownSignature? {name : Text} (hname : name.Plain) (method : Text) :
    ∀ s ∈ g.ownSignature? name method, Signature.Plain s := by
  intro s hs
  obtain ⟨e, he, hs⟩ := Option.bind_eq_some_iff.mp hs
  exact (h.plain_class hname he).1 method s hs

theorem plain_ownProperty? {name : Text} (hname : name.Plain) (property : Text) :
    ∀ t ∈ g.ownProperty? name property, HintType.Plain t := by
  intro t ht
  obtain ⟨e, he, ht⟩ := Option.bind_eq_some_iff.mp ht
  exact (h.plain_class hname he).2 property t ht

theorem ownSignature?_eq {name : Text} (hname : name.Plain) (method : Text) :
    g.ownSignature? name method = g'.ownSignature? name method :=
  eq_of_rel (h.ownSignature?_alike (.plain hname) method) fun s hs {_} hown =>
    hown.eq (h.plain_ownSignature? hname method s hs)

theorem ownProperty?_eq {name : Text} (hname : name.Plain) (property : Text) :
    g.ownProperty? name property = g'.ownProperty? name property :=
  eq_of_rel (h.ownProperty?_alike (.plain hname) property) fun t ht {_} hown =>
    hown.eq (h.plain_ownProperty? hname property t ht)

/-! ### Signatures -/

/-- What a class inherits is plain, if all that is found above plain names is. -/
theorem plain_inherited (method name : Text) {above : Text → Option Signature}
    (habove : ∀ p : Text, p.Plain → ∀ s ∈ above p, Signature.Plain s) :
    ∀ s ∈ (g.parentsOf name).findSome? (g.handedDown method above), Signature.Plain s := by
  intro s hs
  obtain ⟨parent, hparent, hs⟩ := List.exists_of_findSome?_eq_some hs
  unfold Graph.handedDown at hs
  split at hs
  · obtain ⟨s', hs', rfl⟩ := Option.map_eq_some_iff.mp hs
    exact Signature.plain_asResolved (habove parent (h.plain_parentsOf name parent hparent) s' hs')
  · exact Builtin.plain_search _ hs

theorem plain_searchSignature (method : Text) (n : Nat) (visiting : List Text) {name : Text}
    (hname : name.Plain) : ∀ s ∈ g.searchSignature method n visiting name, Signature.Plain s := by
  induction n generalizing visiting name with
  | zero => intro s hs; cases hs
  | succ n ih =>
      have hown := h.plain_ownSignature? hname method
      have habove : ∀ p : Text, p.Plain →
          ∀ s ∈ g.searchSignature method n (Graph.lookupKey name :: visiting) p,
            Signature.Plain s := fun p hp => ih _ hp
      rw [Graph.searchSignature_succ, Graph.signatureStep]
      split
      · intro s hs; cases hs
      · split
        · exact hown
        · exact Graph.plain_combine hown (h.plain_inherited method name habove)

/-- Twins inherit the same, if the same is found above plain names. -/
theorem inherited_eq (method : Text) {a a' : Text} (ha : Twin changes a a')
    {above above' : Text → Option Signature} (habove : ∀ p : Text, p.Plain → above p = above' p) :
    (g.parentsOf a).findSome? (g.handedDown method above) =
      (g'.parentsOf a').findSome? (g'.handedDown method above') := by
  rw [← h.parentsOf_eq ha]
  apply findSome?_congr
  intro parent hparent
  have hplain := h.plain_parentsOf a parent hparent
  rw [Graph.handedDown, Graph.handedDown, h.isKnown_eq (.plain hplain), habove parent hplain]

/-- From a plain name the search finds the same in both hierarchies. -/
theorem searchSignature_eq {method : Text} (n : Nat) {visiting visiting' : List Text}
    (hvisiting : SamePlain visiting visiting') {name : Text} (hname : name.Plain) :
    g.searchSignature method n visiting name = g'.searchSignature method n visiting' name := by
  induction n generalizing visiting visiting' name with
  | zero => rfl
  | succ n ih =>
      have habove : ∀ p : Text, p.Plain →
          g.searchSignature method n (Graph.lookupKey name :: visiting) p =
            g'.searchSignature method n (Graph.lookupKey name :: visiting') p :=
        fun p hp => ih (hvisiting.cons _) hp
      have hinherited := h.inherited_eq method (.plain hname) habove
      rw [Graph.searchSignature_succ, Graph.searchSignature_succ, Graph.signatureStep,
        Graph.signatureStep, h.isKnown_eq (.plain hname), h.ownSignature?_eq hname, hinherited,
        hvisiting.contains (Graph.plain_lookupKey_iff.mpr hname)]

/-- Twins have alike effective signatures. -/
theorem signature?_twin {a a' : Text} (ha : Twin changes a a') (method : Text) :
    Option.Rel Signature.Alike (g.signature? a method) (g'.signature? a' method) := by
  have habove : ∀ p : Text, p.Plain →
      g.searchSignature method g.parents.length [Graph.lookupKey a] p =
        g'.searchSignature method g.parents.length [Graph.lookupKey a'] p :=
    fun p hp => h.searchSignature_eq _ ha.samePlain hp
  have hplain := h.plain_inherited method a fun p hp =>
    h.plain_searchSignature method g.parents.length [Graph.lookupKey a] hp
  have hstep : Option.Rel Signature.Alike
      (g.signatureStep method (g.searchSignature method g.parents.length [Graph.lookupKey a]) a)
      (g'.signatureStep method
        (g'.searchSignature method g.parents.length [Graph.lookupKey a']) a') := by
    rw [Graph.signatureStep, Graph.signatureStep, ← h.inherited_eq method ha habove]
    split
    · exact h.ownSignature?_alike ha method
    · exact Graph.combine_alike (h.ownSignature?_alike ha method) hplain
  rw [Graph.signature?, Graph.signature?, ← h.length, Graph.searchSignature_succ,
    Graph.searchSignature_succ, h.isKnown_eq ha]
  cases g'.isKnown a' with
  | false => exact .none
  | true => exact hstep

/-! ### Properties -/

/-- Two searches found the same and saw the same plain classes. -/
structure SameFind (r r' : Option HintType × List Text) : Prop where
  type : r.1 = r'.1
  seen : SamePlain r.2 r'.2

/-- Going through plain parents, the search finds the same in both hierarchies if it does so
above each of them. -/
theorem searchParents_eq (property : Text)
    {above above' : List Text → Text → Option HintType × List Text}
    (habove : ∀ {seen seen' : List Text} {p : Text}, SamePlain seen seen' → p.Plain →
      SameFind (above seen p) (above' seen' p))
    {seen seen' : List Text} (hseen : SamePlain seen seen') {parents : List Text}
    (hparents : ∀ p ∈ parents, Text.Plain p) :
    SameFind (g.searchParents property above seen parents)
      (g'.searchParents property above' seen' parents) := by
  induction parents generalizing seen seen' with
  | nil => exact ⟨rfl, hseen⟩
  | cons parent rest ih =>
      have hparent := hparents parent (List.mem_cons_self ..)
      have hrest : ∀ p ∈ rest, Text.Plain p := fun p hp => hparents p (List.mem_cons_of_mem _ hp)
      have hcons := hseen.cons (Graph.lookupKey parent)
      rw [Graph.searchParents, Graph.searchParents,
        hseen.contains (Graph.plain_lookupKey_iff.mpr hparent), h.ownProperty?_eq hparent]
      split
      · exact ih hseen hrest
      · split
        · exact ⟨rfl, hcons⟩
        · have hfind := habove hcons hparent
          generalize above (Graph.lookupKey parent :: seen) parent = found at hfind ⊢
          generalize above' (Graph.lookupKey parent :: seen') parent = found' at hfind ⊢
          obtain ⟨type, after⟩ := found
          obtain ⟨type', after'⟩ := found'
          obtain ⟨rfl, hafter⟩ := hfind
          cases type with
          | some type => exact ⟨rfl, hafter⟩
          | none => exact ih hafter hrest

/-- Twins find the same above them. -/
theorem searchProperty_eq (property : Text) (n : Nat) {seen seen' : List Text}
    (hseen : SamePlain seen seen') {a a' : Text} (ha : Twin changes a a') :
    SameFind (g.searchProperty property n seen a) (g'.searchProperty property n seen' a') := by
  induction n generalizing seen seen' a a' with
  | zero => exact ⟨rfl, hseen⟩
  | succ n ih =>
      rw [Graph.searchProperty, Graph.searchProperty, ← h.parentsOf_eq ha]
      refine h.searchParents_eq property ?_ hseen (h.plain_parentsOf a)
      intro seen seen' p hseen hp
      exact ih hseen (.plain hp)

/-- Twins have alike effective property types. -/
theorem property?_twin {a a' : Text} (ha : Twin changes a a') (property : Text) :
    BothAlike (g.property? a property) (g'.property? a' property) := by
  have habove := (h.searchProperty_eq property (g.parents.length + 1) ha.samePlain ha).type
  rw [Graph.property?, Graph.property?, ← h.length, ← habove]
  cases (g.searchProperty property (g.parents.length + 1) [Graph.lookupKey a] a).1 with
  | none => exact h.ownProperty?_alike ha property
  | some t => exact .some (.refl t)

end GraphTwin

end NativeHints
