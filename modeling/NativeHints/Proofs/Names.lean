import NativeHints.Proofs.Subtype
import NativeHints.Hierarchy.Builtin
import NativeHints.Hierarchy.Collect

/-!
# Names, segment by segment

A property of texts is *segmentwise* if every segment of a name has it and if two
texts with a backslash between them have it exactly when both do.  Having no
empty part is such a property, and so is not having a certain character.

Whatever is read in a scope keeps a segmentwise property.  If the namespace and the
imports have it, then so do the meanings of names that have it and the names in
types, no matter what the doc comment says.  For what a type means, the class around
and its parent need to have it too.
-/

namespace NativeHints

theorem Doc.isNamePart_of_mem {t : Text} (h : isSegment t = true) {c : Char} (hc : c ∈ t) :
    isNamePart c = true := by
  cases t with
  | nil => cases hc
  | cons d t =>
      obtain ⟨hd, ht⟩ := Bool.and_eq_true_iff.mp h
      rcases List.mem_cons.mp hc with rfl | hc
      · simp [isNamePart, hd]
      · exact List.all_eq_true.mp ht c hc

namespace Text

/-! ## Induction over segments -/

/-- A path is a segment, or two paths with a backslash between them. -/
theorem segments_induction {P : Text → Prop} (hsegment : ∀ {t}, Doc.isSegment t = true → P t)
    (hjoin : ∀ {a b : Text}, P a → P b → P (a ++ '\\' :: b)) {t : Text}
    (h : ∀ part ∈ splitOn '\\' t, Doc.isSegment part = true) : P t := by
  -- on the length, since what stands before a backslash is no tail
  induction hn : t.length using Nat.strongRecOn generalizing t with
  | ind n ih =>
      by_cases hmem : '\\' ∈ t
      · obtain ⟨a, b, rfl⟩ := List.append_of_mem hmem
        rw [splitOn_append, List.forall_mem_append] at h
        simp only [List.length_append, List.length_cons] at hn
        exact hjoin (ih _ (by omega) h.1 rfl) (ih _ (by omega) h.2 rfl)
      · rw [splitOn_of_not_mem hmem] at h
        exact hsegment (h t (List.mem_singleton_self t))

/-! ## Segmentwise properties -/

/-- The segments of a name have the property, and a path has it exactly if its pieces do. -/
structure Segmentwise (P : Text → Prop) : Prop where
  append_iff : ∀ {a b : Text}, P (a ++ '\\' :: b) ↔ P a ∧ P b
  segment : ∀ {t : Text}, Doc.isSegment t = true → P t

/-- With the property, behind a backslash perhaps. -/
def Rooted (P : Text → Prop) (t : Text) : Prop := P t ∨ ∃ rest : Text, t = '\\' :: rest ∧ P rest

namespace Segmentwise

variable {P : Text → Prop} (hP : Segmentwise P)

include hP

theorem of_segments {t : Text} (h : ∀ part ∈ splitOn '\\' t, Doc.isSegment part = true) : P t :=
  segments_induction hP.segment (fun ha hb => hP.append_iff.mpr ⟨ha, hb⟩) h

theorem tail {t : Text} (h : P ('\\' :: t)) : P t := (hP.append_iff (a := []).mp h).2

theorem dropLeading {t : Text} (h : P t) : P (t.dropLeading '\\') := by
  induction t with
  | nil => exact h
  | cons c t ih =>
      by_cases hc : c = '\\'
      · subst hc
        exact ih (hP.tail h)
      · rwa [Text.dropLeading, List.dropWhile_cons_of_neg (by simpa using hc)]

theorem dropLeading_rooted {t : Text} (h : Rooted P t) : P (t.dropLeading '\\') := by
  rcases h with h | ⟨rest, rfl, h⟩
  · exact hP.dropLeading h
  · rw [Text.dropLeading, List.dropWhile_cons_of_pos (by decide)]
    exact hP.dropLeading h

theorem rooted_of_isName {t : Text} (h : Doc.isName t = true) : Rooted P t := by
  rw [Doc.isName.eq_def] at h
  split at h
  · next rest => exact .inr ⟨rest, rfl, hP.of_segments (List.all_eq_true.mp h)⟩
  · exact .inl (hP.of_segments (List.all_eq_true.mp h))

end Segmentwise

end Text

/-! ## Scopes -/

namespace Scope

/-- The namespace and the targets of all imports have the property. -/
structure Over (P : Text → Prop) (s : Scope) : Prop where
  space : ∀ name ∈ s.space, P name
  target : ∀ a ∈ s.aliases, P a.target

variable {P : Text → Prop}

theorem over_start : Scope.Over P .start := ⟨by simp [start], by simp [start]⟩

theorem over_enter (s : Scope) {name : Option Text}
    (h : ∀ n ∈ name, P (Text.dropLeading '\\' n)) : (s.enter name).Over P := by
  refine ⟨fun n hn => ?_, by simp [enter]⟩
  obtain ⟨hn', -⟩ := Option.filter_eq_some_iff.mp hn
  obtain ⟨written, hwritten, rfl⟩ := Option.map_eq_some_iff.mp hn'
  exact h written hwritten

theorem over_withImport {s : Scope} (hs : s.Over P) {i : Import}
    (hi : P (i.name.dropLeading '\\')) : (s.withImport i).Over P := by
  rw [withImport.eq_def]
  split
  · refine ⟨hs.space, fun a ha => ?_⟩
    rcases List.mem_append.mp ha with ha | ha
    · exact hs.target a (List.mem_filter.mp ha).1
    · rw [List.mem_singleton.mp ha]
      exact hi
  · exact hs

theorem over_importAll {s : Scope} (hs : s.Over P) {is : List Import}
    (his : ∀ i ∈ is, P (i.name.dropLeading '\\')) : (s.importAll is).Over P := by
  induction is generalizing s with
  | nil => exact hs
  | cons i is ih =>
      have hi := over_withImport hs (his i (List.mem_cons_self ..))
      exact ih hi fun j hj => his j (List.mem_cons_of_mem _ hj)

theorem over_target? {s : Scope} (hs : s.Over P) {first target : Text}
    (h : s.target? first = some target) : P target := by
  obtain ⟨a, ha, rfl⟩ := Option.map_eq_some_iff.mp h
  exact hs.target a (List.mem_of_find?_eq_some ha)

variable (hP : Text.Segmentwise P) {s : Scope} (hs : s.Over P)

include hP hs

theorem over_qualify {name : Text} (hname : P name) : P (s.qualify name) := by
  rw [qualify.eq_def]
  split
  · next space hspace => exact hP.append_iff.mpr ⟨hs.space space hspace, hname⟩
  · exact hname

theorem over_resolveSegments {name first : Text} {rest : Option Text} (hname : P name)
    (hrest : ∀ r ∈ rest, P r) : P (s.resolveSegments name first rest) := by
  rw [resolveSegments.eq_def]
  split
  · next target rest' htarget =>
      exact hP.append_iff.mpr ⟨over_target? hs htarget, hrest rest' rfl⟩
  · next target htarget => exact over_target? hs htarget
  · exact over_qualify hP hs hname

/-- A name means something with the property if it has it, behind a backslash perhaps. -/
theorem over_resolve {name : Text} (hname : Text.Rooted P name) : P (s.resolve name) := by
  rw [resolve.eq_def]
  split
  · next rest =>
      rcases hname with hname | ⟨rest', heq, hrest⟩
      · exact hP.tail hname
      · cases heq
        exact hrest
  · next hhead =>
      have hname : P name := by
        rcases hname with hname | ⟨rest, rfl, -⟩
        · exact hname
        · exact absurd rfl (hhead rest)
      split
      · exact hname
      · split
        · exact over_resolveSegments hP hs hname (by simp)
        · next first rest hsplit =>
            have hparts := hname
            rw [(Text.splitAtFirst?_eq_some_iff.mp hsplit).1] at hparts
            have hrest := (hP.append_iff.mp hparts).2
            split
            · exact over_qualify hP hs hrest
            · exact over_resolveSegments hP hs hname (by simpa using hrest)

end Scope

namespace ClassHead

variable {P : Text → Prop} (hP : Text.Segmentwise P) {s : Scope} (hs : s.Over P) {c : ClassHead}
  (hbases : ∀ name ∈ c.bases, Text.Rooted P name)

include hP hs hbases

theorem over_parent : ∀ p ∈ c.parent s, P p := by
  intro p hp
  have hresolved : ∀ {p}, p ∈ c.bases.head?.map s.resolve → P p := by
    intro p hp
    obtain ⟨base, hbase, rfl⟩ := Option.map_eq_some_iff.mp hp
    exact Scope.over_resolve hP hs (hbases base (List.mem_of_head? hbase))
  rw [parent] at hp
  split at hp
  · exact hresolved hp
  · exact hresolved hp
  · cases hp
  · cases hp
  · cases hp

theorem over_parents (hinterfaces : ∀ name ∈ c.interfaces, Text.Rooted P name) :
    ∀ p ∈ c.parents s, P p := by
  have hwritten : ∀ written, written ∈ c.bases ∨ written ∈ c.interfaces →
      P (s.resolve written) := by
    rintro written (h | h)
    · exact Scope.over_resolve hP hs (hbases written h)
    · exact Scope.over_resolve hP hs (hinterfaces written h)
  intro p hp
  rw [parents] at hp
  split at hp
  case h_5 => cases hp
  all_goals
    obtain ⟨written, hmem, rfl⟩ := List.mem_map.mp hp
    apply hwritten
  · rcases List.mem_append.mp hmem with hmem | hmem
    · exact .inl (List.mem_of_mem_take hmem)
    · exact .inr hmem
  · rcases List.mem_append.mp hmem with hmem | hmem
    · exact .inl (List.mem_of_mem_take hmem)
    · exact .inr hmem
  · exact .inl hmem
  · exact .inr hmem

end ClassHead

/-! ## Types that are read -/

theorem mem_of_lookup {α : Type} {l : List (Text × α)} {key : Text} {value : α}
    (h : l.lookup key = some value) : (key, value) ∈ l := by
  obtain ⟨front, back, rfl, -⟩ := List.lookup_eq_some_iff.mp h
  exact List.mem_append_right _ (List.mem_cons_self ..)

namespace Doc

theorem isSegment_spellings : ∀ p ∈ spellings, isSegment p.2 = true := by decide

section Over

variable {P : Text → Prop} (hP : Text.Segmentwise P) {s : Scope} (hs : s.Over P)

include hP hs

theorem over_nameOf? {alternative name : Text} (h : nameOf? s alternative = some name) :
    P name := by
  rw [nameOf?] at h
  split at h
  · cases h
    exact hP.segment (by decide)
  · split at h
    · cases h
    · next hname =>
        split at h
        · cases h
        · split at h
          · next spelling hspelling =>
              cases h
              exact hP.segment (isSegment_spellings _ (mem_of_lookup hspelling))
          · cases h
            exact Scope.over_resolve hP hs (hP.rooted_of_isName (by simpa using hname))

theorem over_unionName? {alternatives : List Text} {name : Text}
    (h : unionName? s alternatives = some name) : P name := by
  rw [unionName?.eq_def] at h
  split at h
  · exact over_nameOf? hP hs h
  · split at h
    · cases h
      exact hP.segment (by decide)
    · cases h
  · cases h

/-- The name to write of a type. -/
theorem over_declared {enclosing : Option Enclosing} {written : Text} {t : HintType}
    (h : readType? s enclosing written = some t) : P t.declared := by
  obtain ⟨name, hname, rfl⟩ := Option.map_eq_some_iff.mp h
  exact over_unionName? hP hs hname

/-- What a type means, if the class around and its parent have the property. -/
theorem over_resolved {enclosing : Option Enclosing}
    (henclosing : ∀ c ∈ enclosing, P c.name ∧ ∀ p ∈ c.parent, P p) {written : Text}
    {t : HintType} (h : readType? s enclosing written = some t) : P t.resolved := by
  obtain ⟨name, hname, rfl⟩ := Option.map_eq_some_iff.mp h
  have hdeclared : P name := over_unionName? hP hs hname
  cases enclosing with
  | none => exact hdeclared
  | some c =>
      obtain ⟨hself, hparent⟩ := henclosing c rfl
      simp only [meaning]
      split
      · exact hself
      · split
        · cases hp : c.parent with
          | none => exact hdeclared
          | some p => exact hparent p hp
        · exact hdeclared

end Over

end Doc

/-! ## Signatures -/

section Types

variable {Q : HintType → Prop}

/-- What holds of every type that is read holds of the signature. -/
theorem Doc.over_signature {s : Scope} {enclosing : Option Enclosing}
    (hread : ∀ written t, readType? s enclosing written = some t → Q t) (params : List Text)
    (doc : Text) : (signature s enclosing params doc).Over Q := by
  refine ⟨fun type htype t ht => ?_, fun t ht => ?_⟩
  · obtain ⟨name, -, rfl⟩ := List.mem_map.mp htype
    obtain ⟨tag, -, htag⟩ := List.mem_filterMap.mp (mem_of_lookup ht)
    obtain ⟨t', ht', hpair⟩ := Option.map_eq_some_iff.mp htag
    cases hpair
    exact hread tag.type t ht'
  · obtain ⟨written, -, hwritten⟩ := Option.bind_eq_some_iff.mp ht
    exact hread written t hwritten

theorem Doc.over_propertyType? {s : Scope} {enclosing : Option Enclosing}
    (hread : ∀ written t, readType? s enclosing written = some t → Q t) {doc : Text} {t : HintType}
    (ht : propertyType? s enclosing doc = some t) : Q t := by
  rw [propertyType?] at ht
  split at ht
  · exact hread _ t ht
  · cases ht

/-- The built-in methods have types of the table, each named by what it means. -/
theorem Builtin.over_own?
    (hQ : ∀ c ∈ classes, ∀ m ∈ c.methods, ∀ p ∈ m.params, ∀ name ∈ p, Q (.named name false))
    {name method : Text} {s : Signature} (h : own? name method = some s) : s.Over Q := by
  obtain ⟨c, hc, h⟩ := Option.bind_eq_some_iff.mp h
  obtain ⟨m, hm, h⟩ := Option.bind_eq_some_iff.mp h
  cases h
  refine ⟨fun type htype t ht => ?_, fun t ht => by cases ht⟩
  obtain ⟨p, hp, rfl⟩ := List.mem_map.mp htype
  obtain ⟨written, hwritten, rfl⟩ := Option.map_eq_some_iff.mp ht
  exact hQ c (List.mem_of_find?_eq_some hc) m (List.mem_of_find?_eq_some hm) p hp written hwritten

end Types

end NativeHints
