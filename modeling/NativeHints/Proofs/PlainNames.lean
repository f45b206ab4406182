import NativeHints.Proofs.Names
import NativeHints.Hierarchy.Search

/-!
# Plain names

The made-up name of an anonymous class has an `@` in it.  A name without one is
*plain*.  Reading a plain name in a plain scope gives a plain name, and so does
every type text, since `@` is no part of a name.  So as long as the names of a
file are plain, an anonymous class is named nowhere but by `self` in its own
body.

Two anonymous classes have the same lookup key only if they begin at the same
position of the same file.
-/

namespace NativeHints

namespace Text

/-- Without an `@`. -/
def Plain (t : Text) : Prop := '@' ∉ t

instance (t : Text) : Decidable t.Plain := inferInstanceAs (Decidable ('@' ∉ t))

theorem plain_of_subset {a b : Text} (h : a ⊆ b) (hb : b.Plain) : a.Plain := fun ha => hb (h ha)

theorem dropLeading_subset (mark : Char) (t : Text) : dropLeading mark t ⊆ t :=
  (List.dropWhile_sublist _).subset

theorem dropLeading_of_head {mark c : Char} {t : Text} (h : t.head? = some c) (hc : c ≠ mark) :
    dropLeading mark t = t := by
  cases t with
  | nil => cases h
  | cons d t =>
      cases h
      exact List.dropWhile_cons_of_neg (by simpa using hc)

theorem mem_dropLeading {mark c : Char} (hc : c ≠ mark) {t : Text} (h : c ∈ t) :
    c ∈ dropLeading mark t := by
  induction t with
  | nil => cases h
  | cons d t ih =>
      by_cases hd : d = mark
      · rw [dropLeading, List.dropWhile_cons_of_pos (by simpa using hd)]
        rcases List.mem_cons.mp h with rfl | h
        · exact absurd hd hc
        · exact ih h
      · rw [dropLeading, List.dropWhile_cons_of_neg (by simpa using hd)]
        exact h

/-- Case does not matter to being plain. -/
theorem plain_lower_iff {t : Text} : t.lower.Plain ↔ t.Plain :=
  not_congr (mem_lower_iff (by decide))

theorem Same.plain {a b : Text} (h : Same a b) (ha : a.Plain) : b.Plain := by
  rw [← plain_lower_iff] at ha ⊢
  rwa [← show a.lower = b.lower from h]

/-- Reading keeps names plain. -/
theorem plain_segmentwise : Segmentwise Plain := by
  refine ⟨by simp [Plain], fun {t} h hmem => ?_⟩
  exact absurd (Doc.isNamePart_of_mem h hmem) (by decide)

end Text

/-! ## Plain scopes -/

namespace Scope

/-- The namespace and the targets of all imports are plain. -/
def Plain (s : Scope) : Prop :=
  (∀ name ∈ s.space, Text.Plain name) ∧ ∀ a ∈ s.aliases, a.target.Plain

theorem plain_iff_over {s : Scope} : s.Plain ↔ s.Over Text.Plain :=
  ⟨fun h => ⟨h.1, h.2⟩, fun h => ⟨h.space, h.target⟩⟩

theorem plain_start : Plain .start := plain_iff_over.mpr over_start

theorem plain_enter (s : Scope) {name : Option Text} (h : ∀ n ∈ name, Text.Plain n) :
    (s.enter name).Plain :=
  plain_iff_over.mpr (over_enter s fun n hn => Text.plain_segmentwise.dropLeading (h n hn))

theorem plain_importAll {s : Scope} (hs : s.Plain) {is : List Import}
    (his : ∀ i ∈ is, i.name.Plain) : (s.importAll is).Plain :=
  plain_iff_over.mpr (over_importAll (plain_iff_over.mp hs) fun i hi =>
    Text.plain_segmentwise.dropLeading (his i hi))

theorem plain_qualify {s : Scope} (hs : s.Plain) {name : Text} (hname : name.Plain) :
    (s.qualify name).Plain :=
  over_qualify Text.plain_segmentwise (plain_iff_over.mp hs) hname

/-- A plain name means a plain one. -/
theorem plain_resolve {s : Scope} (hs : s.Plain) {name : Text} (hname : name.Plain) :
    (s.resolve name).Plain :=
  over_resolve Text.plain_segmentwise (plain_iff_over.mp hs) (.inl hname)

end Scope

/-! ## Plain types -/

/-- The class around has a plain name and a plain parent. -/
def Doc.Enclosing.Plain (c : Enclosing) : Prop := c.name.Plain ∧ ∀ p ∈ c.parent, Text.Plain p

namespace HintType

/-- What the type means has a plain name. -/
def Plain (t : HintType) : Prop := t.resolved.Plain

end HintType

theorem Doc.plain_readType? {s : Scope} (hs : s.Plain) {enclosing : Option Enclosing}
    (h : ∀ c ∈ enclosing, c.Plain) (written : Text) (t : HintType)
    (ht : readType? s enclosing written = some t) : t.Plain :=
  over_resolved Text.plain_segmentwise (Scope.plain_iff_over.mp hs) h ht

/-! ## Plain signatures -/

namespace Signature

/-- All types of the signature are plain. -/
def Plain (s : Signature) : Prop :=
  (∀ type ∈ s.params, ∀ t ∈ type, HintType.Plain t) ∧ ∀ t ∈ s.result, HintType.Plain t

theorem plain_asResolved {s : Signature} (h : s.Plain) : s.asResolved.Plain := by
  refine over_iff_slot.mpr fun i t ht => ?_
  rw [slot_asResolved] at ht
  obtain ⟨u, hu, rfl⟩ := Option.map_eq_some_iff.mp ht
  exact over_iff_slot.mp h i u hu

theorem plain_merge {own inherited : Signature} (hown : own.Plain) (hinherited : inherited.Plain) :
    (own.merge inherited).Plain := by
  refine over_iff_slot.mpr fun i t ht => ?_
  rcases slot_merge own inherited i with hslot | hslot
  · exact over_iff_slot.mp hown i t (hslot.symm.trans ht)
  · exact over_iff_slot.mp hinherited i t (hslot.symm.trans ht)

end Signature

theorem Doc.plain_signature {s : Scope} (hs : s.Plain) {enclosing : Option Enclosing}
    (h : ∀ c ∈ enclosing, c.Plain) (params : List Text) (doc : Text) :
    (signature s enclosing params doc).Plain :=
  over_signature (plain_readType? hs h) params doc

theorem Doc.plain_propertyType? {s : Scope} (hs : s.Plain) {enclosing : Option Enclosing}
    (h : ∀ c ∈ enclosing, c.Plain) {doc : Text} {t : HintType}
    (ht : propertyType? s enclosing doc = some t) : t.Plain :=
  over_propertyType? (plain_readType? hs h) ht

theorem Builtin.plain_search {method : Text} (n : Nat) {name : Text} {s : Signature}
    (h : search method n name = some s) : s.Plain := by
  have hown : ∀ {name : Text} {s : Signature}, own? name method = some s → s.Plain := by
    intro name s h
    have htable : ∀ c ∈ classes, ∀ m ∈ c.methods, ∀ p ∈ m.params, ∀ name ∈ p, Text.Plain name := by
      decide
    exact over_own? htable h
  induction n generalizing name with
  | zero => exact hown h
  | succ n ih =>
      rw [search] at h
      rcases Option.or_eq_some_iff.mp h with h | ⟨-, h⟩
      · exact hown h
      · obtain ⟨parent, -, hparent⟩ := List.exists_of_findSome?_eq_some h
        exact ih hparent

/-! ## Plain outlines -/

/-- The names of a class-like, of its bases and of its interfaces are plain. -/
def ClassHead.Plain (c : ClassHead) : Prop :=
  (∀ name ∈ c.name, Text.Plain name) ∧ (∀ name ∈ c.bases, Text.Plain name) ∧
    ∀ name ∈ c.interfaces, Text.Plain name

instance (c : ClassHead) : Decidable c.Plain :=
  inferInstanceAs (Decidable ((∀ name ∈ c.name, Text.Plain name) ∧ _ ∧ _))

namespace ClassHead

theorem plain_parent {c : ClassHead} (hc : c.Plain) {s : Scope} (hs : s.Plain) :
    ∀ p ∈ c.parent s, Text.Plain p :=
  over_parent Text.plain_segmentwise (Scope.plain_iff_over.mp hs) fun name h => .inl (hc.2.1 name h)

theorem plain_parents {c : ClassHead} (hc : c.Plain) {s : Scope} (hs : s.Plain) :
    ∀ p ∈ c.parents s, Text.Plain p :=
  over_parents Text.plain_segmentwise (Scope.plain_iff_over.mp hs)
    (fun name h => .inl (hc.2.1 name h)) fun name h => .inl (hc.2.2 name h)

end ClassHead

/-- All names that an outline writes outside of doc comments are plain. -/
def Outline.Plain : Outline → Prop
  | .empty => True
  | .namespaceLine name rest => (∀ n ∈ name, Text.Plain n) ∧ rest.Plain
  | .namespaceBlock name body rest => (∀ n ∈ name, Text.Plain n) ∧ body.Plain ∧ rest.Plain
  | .imports clauses rest => (∀ i ∈ clauses, i.name.Plain) ∧ rest.Plain
  | .classLike head members rest => head.Plain ∧ members.Plain ∧ rest.Plain
  | .functionLike _ body rest => body.Plain ∧ rest.Plain
  | .property _ rest => rest.Plain
  | .traitUse names rest => (∀ n ∈ names, Text.Plain n) ∧ rest.Plain

instance Outline.decidablePlain : (o : Outline) → Decidable o.Plain
  | .empty => inferInstanceAs (Decidable True)
  | .namespaceLine name rest =>
      have := decidablePlain rest
      inferInstanceAs (Decidable ((∀ n ∈ name, Text.Plain n) ∧ rest.Plain))
  | .namespaceBlock name body rest =>
      have := decidablePlain body
      have := decidablePlain rest
      inferInstanceAs (Decidable ((∀ n ∈ name, Text.Plain n) ∧ body.Plain ∧ rest.Plain))
  | .imports clauses rest =>
      have := decidablePlain rest
      inferInstanceAs (Decidable ((∀ i ∈ clauses, i.name.Plain) ∧ rest.Plain))
  | .classLike head members rest =>
      have := decidablePlain members
      have := decidablePlain rest
      inferInstanceAs (Decidable (head.Plain ∧ members.Plain ∧ rest.Plain))
  | .functionLike _ body rest =>
      have := decidablePlain body
      have := decidablePlain rest
      inferInstanceAs (Decidable (body.Plain ∧ rest.Plain))
  | .property _ rest => decidablePlain rest
  | .traitUse names rest =>
      have := decidablePlain rest
      inferInstanceAs (Decidable ((∀ n ∈ names, Text.Plain n) ∧ rest.Plain))

/-! ## Anonymous classes -/

/-- The made-up name of the anonymous class at a position of a file. -/
def anonymousName (path : Text) (start : Nat) : Text :=
  "class@anonymous/".toList ++ path ++ ':' :: Text.ofNat start

theorem not_plain_anonymousName (path : Text) (start : Nat) :
    ¬ (anonymousName path start).Plain := by
  intro h
  apply h
  have hmem : '@' ∈ "class@anonymous/".toList := by decide
  exact List.mem_append_left _ (List.mem_append_left _ hmem)

/-- The key of a class-like is a plain name or that of an anonymous class. -/
theorem ClassHead.key_of_name {c : ClassHead} {name : Text} (h : c.name = some name) (path : Text)
    (s : Scope) : c.key path s = s.qualify name := by
  rw [key, h]

theorem ClassHead.key_of_anonymous {c : ClassHead} (h : c.name = none) (path : Text) (s : Scope) :
    c.key path s = anonymousName path c.start := by
  rw [key, h]
  rfl

namespace Graph

theorem plain_lookupKey_iff {name : Text} : (lookupKey name).Plain ↔ name.Plain := by
  rw [lookupKey, Text.plain_lower_iff]
  exact ⟨fun h hmem => h (Text.mem_dropLeading (by decide) hmem),
    Text.plain_of_subset (Text.dropLeading_subset _ _)⟩

theorem lookupKey_anonymousName (path : Text) (start : Nat) :
    lookupKey (anonymousName path start) =
      "class@anonymous/".toList ++ path.lower ++ ':' :: Text.ofNat start := by
  have hhead : "class@anonymous/".toList.head? = some 'c' := by decide
  have hlower : Text.lower "class@anonymous/".toList = "class@anonymous/".toList := by decide
  unfold anonymousName
  generalize "class@anonymous/".toList = front at hhead hlower ⊢
  have hfirst : (front ++ path ++ ':' :: Text.ofNat start).head? = some 'c' := by
    rw [List.append_assoc, List.head?_append, hhead]
    rfl
  have hcolon : Text.lower (':' :: Text.ofNat start) = ':' :: Text.ofNat start :=
    congrArg (':' :: ·) (Text.lower_ofNat start)
  rw [lookupKey, Text.dropLeading_of_head hfirst (by decide), Text.lower_append, Text.lower_append,
    hlower, hcolon]

/-- Anonymous classes of different files or positions have different keys. -/
theorem lookupKey_anonymousName_eq_iff {p q : Text} {n m : Nat} :
    lookupKey (anonymousName p n) = lookupKey (anonymousName q m) ↔ p.lower = q.lower ∧ n = m := by
  rw [lookupKey_anonymousName, lookupKey_anonymousName]
  constructor
  · intro h
    have hdigits : ∀ k, ':' ∉ Text.ofNat k := fun k hmem =>
      absurd (Text.isDigit_of_mem_ofNat hmem) (by decide)
    obtain ⟨hpath, hstart⟩ := Text.split_last_unique (hdigits n) (hdigits m) h
    exact ⟨List.append_cancel_left hpath, Text.ofNat_injective hstart⟩
  · rintro ⟨hpath, rfl⟩
    rw [hpath]

end Graph

end NativeHints
