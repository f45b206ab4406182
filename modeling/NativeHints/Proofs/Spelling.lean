import NativeHints.Proofs.Names
import NativeHints.Scope.Shortest

/-!
# Spellings mean what they spell

The name that a doc comment gives to a class is read in one scope and written in
another.  Written there, it still means the same class.

`Scope.shortest` tests every spelling that it chooses from, with one exception:
a spelling that begins with a backslash is taken for the full name.  That is
right as long as no other spelling begins with one.  And none does, because no
name has an empty segment (`Text.Segmented`).  Scopes keep this up
(`Scope.Reached.segmented`), and names that are read in them have it
(`Text.segmented_segmentwise`).
-/

namespace NativeHints

namespace Text

/-! ## Segments -/

/-- No segment between backslashes is empty. -/
def Segmented (t : Text) : Prop := ∀ part ∈ splitOn '\\' t, part ≠ []

instance (t : Text) : Decidable t.Segmented :=
  inferInstanceAs (Decidable (∀ part ∈ splitOn '\\' t, part ≠ []))

theorem segmented_append_iff {a b : Text} :
    Segmented (a ++ '\\' :: b) ↔ a.Segmented ∧ b.Segmented := by
  simp only [Segmented, splitOn_append, List.mem_append, or_imp, forall_and]

/-- Reading makes no empty segments. -/
theorem segmented_segmentwise : Segmentwise Segmented := by
  refine ⟨segmented_append_iff, fun {t} h part hpart => ?_⟩
  have hmark : '\\' ∉ t := fun hmem => absurd (Doc.isNamePart_of_mem h hmem) (by decide)
  rw [splitOn_of_not_mem hmark] at hpart
  rw [List.mem_singleton.mp hpart]
  rintro rfl
  cases h

/-- Without an empty segment there is no backslash in front. -/
theorem Segmented.head_ne {t : Text} (h : t.Segmented) (rest : Text) : t ≠ '\\' :: rest := by
  rintro rfl
  exact (segmented_append_iff (a := []).mp h).1 [] (by simp [splitOn]) rfl

theorem Segmented.dropLeading {t : Text} (h : t.Segmented) : t.dropLeading '\\' = t := by
  cases t with
  | nil => rfl
  | cons c t =>
      have hc : c ≠ '\\' := fun hc => h.head_ne t (by rw [hc])
      exact List.dropWhile_cons_of_neg (by simpa using hc)

/-- A text that begins with another up to case, and a mark, is cut at the mark. -/
theorem eq_append_of_lower_startsWith {t p : Text}
    (h : t.lower.startsWith (p.lower ++ ['\\']) = true) :
    ∃ a, t = a ++ '\\' :: t.drop (p.length + 1) ∧ a.length = p.length := by
  obtain ⟨rest, hrest⟩ := startsWith_iff.mp h
  have hlower : t.lower = p.lower ++ '\\' :: rest := by simpa using hrest
  obtain ⟨a, m, rfl, ha, hm⟩ := List.map_eq_append_iff.mp hlower
  obtain ⟨c, b, rfl, hc, -⟩ := List.map_eq_cons_iff.mp hm
  have hlength : a.length = p.length := by
    have := congrArg List.length ha
    simpa [lower] using this
  have hmark : c = '\\' := (toLower_eq_iff (by decide)).mp hc
  refine ⟨a, ?_, hlength⟩
  rw [← hlength, hmark, List.drop_append, List.drop_eq_nil_of_le (by omega)]
  simp

end Text

/-! ## Scopes and the names read in them -/

namespace Scope

/-- A scope that comes about by entering namespaces and importing names, all of them without
empty segments, under aliases that are not empty and without backslashes. -/
inductive Reached : Scope → Prop where
  /-- The start of a file. -/
  | start : Reached .start
  /-- A namespace is entered. -/
  | enter {s : Scope} {name : Option Text} : Reached s →
      (∀ n ∈ name, (Text.dropLeading '\\' n).Segmented) → Reached (s.enter name)
  /-- Something is imported. -/
  | withImport {s : Scope} {i : Import} : Reached s →
      (i.name.dropLeading '\\').Segmented → i.shortName ≠ [] → '\\' ∉ i.shortName →
      Reached (s.withImport i)

/-- The namespace and the targets of imports have no empty segments, and the aliases are
single segments. -/
structure Segmented (s : Scope) : Prop where
  space : ∀ n ∈ s.space, Text.Segmented n
  target : ∀ a ∈ s.aliases, a.target.Segmented
  aliases : ∀ a ∈ s.aliases, a.name ≠ [] ∧ '\\' ∉ a.name

theorem Segmented.names {s : Scope} (hs : s.Segmented) : s.Over Text.Segmented :=
  ⟨hs.space, hs.target⟩

theorem Reached.segmented {s : Scope} (h : s.Reached) : s.Segmented := by
  induction h with
  | start => exact ⟨by simp [Scope.start], by simp [Scope.start], by simp [Scope.start]⟩
  | @enter s name _ hname _ =>
      have hover := over_enter s hname
      exact ⟨hover.space, hover.target, by simp [Scope.enter]⟩
  | @withImport s i _ htarget hne hmark ih =>
      have hover := over_withImport ih.names htarget
      refine ⟨hover.space, hover.target, ?_⟩
      rw [Scope.withImport.eq_def]
      split
      · intro a ha
        rcases List.mem_append.mp ha with ha | ha
        · exact ih.aliases a (List.mem_filter.mp ha).1
        · obtain rfl := List.mem_singleton.mp ha
          exact ⟨hne, hmark⟩
      · exact ih.aliases

end Scope

/-- The name to write of a type that is read has no empty segment. -/
theorem Doc.segmented_declared {s : Scope} (hs : s.Segmented) {enclosing : Option Enclosing}
    {written : Text} {t : HintType} (h : readType? s enclosing written = some t) :
    t.declared.Segmented :=
  over_declared Text.segmented_segmentwise hs.names h

/-! ## The shortest spelling -/

namespace Scope

theorem leastSize_mem (best : Text) (ts : List Text) : leastSize best ts ∈ best :: ts := by
  induction ts generalizing best with
  | nil => simp [leastSize]
  | cons t ts ih =>
      rw [leastSize]
      have h := ih (if t.size < best.size then t else best)
      split at h <;> grind

/-- What a spelling can be: the full name, the name or its end after a backslash, or an alias
alone or with such an end. -/
theorem candidates_cases {s : Scope} {name spelling : Text} (h : spelling ∈ s.candidates name) :
    spelling = '\\' :: name ∨ spelling = name ∨ (∃ front, name = front ++ '\\' :: spelling) ∨
      ∃ a ∈ s.aliases, spelling = a.name ∨
        ∃ front rest, name = front ++ '\\' :: rest ∧ spelling = a.name ++ '\\' :: rest := by
  rcases List.mem_cons.mp h with h | h
  · exact .inl h
  · rcases List.mem_append.mp h with h | h
    · have hspace := Option.mem_toList.mp h
      rw [throughSpace.eq_def] at hspace
      split at hspace
      · exact .inr (.inl (Option.some.inj hspace).symm)
      · split at hspace
        · next space _ hstart =>
            obtain ⟨front, hfront, -⟩ := Text.eq_append_of_lower_startsWith hstart
            rw [Option.some.inj hspace] at hfront
            exact .inr (.inr (.inl ⟨front, hfront⟩))
        · cases hspace
    · obtain ⟨a, ha, hthrough⟩ := List.mem_filterMap.mp h
      refine .inr (.inr (.inr ⟨a, ha, ?_⟩))
      rw [throughAlias] at hthrough
      split at hthrough
      · exact .inl (Option.some.inj hthrough).symm
      · split at hthrough
        · next hstart =>
            obtain ⟨front, hfront, hlength⟩ := Text.eq_append_of_lower_startsWith hstart
            have hdrop := congrArg (List.drop front.length) hfront
            rw [List.drop_left, hlength] at hdrop
            exact .inr ⟨front, _, hfront, by rw [← Option.some.inj hthrough, hdrop]⟩
        · cases hthrough

/-- Of the spellings of a name only the full one begins with a backslash. -/
theorem eq_of_mem_candidates {s : Scope}
    (haliases : ∀ a ∈ s.aliases, a.name ≠ [] ∧ '\\' ∉ a.name) {name : Text}
    (hname : name.Segmented) {spelling : Text} (h : spelling ∈ s.candidates name)
    (hfull : spelling.startsWith ['\\'] = true) : spelling = '\\' :: name := by
  obtain ⟨tail, rfl⟩ := Text.startsWith_iff.mp hfull
  -- an alias does not begin with a backslash, nor does what follows it
  have halias : ∀ a ∈ s.aliases, ∀ rest : Text, ['\\'] ++ tail ≠ a.name ++ rest := by
    intro a ha rest heq
    obtain ⟨hne, hmark⟩ := haliases a ha
    obtain ⟨c, front, hname⟩ := List.exists_cons_of_ne_nil hne
    rw [hname] at heq hmark
    obtain ⟨rfl, -⟩ := List.cons.inj heq
    exact hmark (List.mem_cons_self ..)
  obtain h | h | ⟨front, hfront⟩ | ⟨a, ha, h | ⟨front, rest, -, h⟩⟩ := candidates_cases h
  · exact h
  · exact absurd h.symm (hname.head_ne tail)
  · rw [hfront] at hname
    exact absurd rfl ((Text.segmented_append_iff.mp hname).2.head_ne tail)
  · exact absurd (h.trans (List.append_nil _).symm) (halias a ha [])
  · exact absurd h (halias a ha _)

/-- The shortest spelling is one of the candidates that mean the class. -/
theorem shortest_mem_filter (s : Scope) (name : Text) :
    s.shortest name ∈ (s.candidates (name.dropLeading '\\')).filter
      (s.means (name.dropLeading '\\')) := by
  simp only [shortest]
  generalize name.dropLeading '\\' = name
  have hfull : '\\' :: name ∈ (s.candidates name).filter (s.means name) := by
    simp [candidates, means, Text.startsWith, Text.strip?]
  rcases List.mem_cons.mp (leastSize_mem ('\\' :: name) _) with h | h
  · rw [h]
    exact hfull
  · exact h

theorem shortest_mem (s : Scope) {name : Text} (hname : name.Segmented) :
    s.shortest name ∈ (s.candidates name).filter (s.means name) := by
  have hmem := s.shortest_mem_filter name
  rwa [hname.dropLeading] at hmem

/-- The shortest spelling of a class means that class.  This only takes aliases that are single
segments. -/
theorem shortest_means {s : Scope} (haliases : ∀ a ∈ s.aliases, a.name ≠ [] ∧ '\\' ∉ a.name)
    {name : Text} (hname : name.Segmented) : (s.resolve (s.shortest name)).Same name := by
  obtain ⟨hcandidate, hmeans⟩ := List.mem_filter.mp (s.shortest_mem hname)
  rcases Bool.or_eq_true_iff.mp hmeans with hfull | htested
  · rw [eq_of_mem_candidates haliases hname hcandidate hfull]
    exact .refl name
  · exact of_decide_eq_true htested

theorem resolve_shortest {s : Scope} (hs : s.Segmented) {name : Text} (hname : name.Segmented) :
    (s.resolve (s.shortest name)).Same name :=
  shortest_means hs.aliases hname

end Scope

/-- A documented class keeps its meaning wherever it is written.  If a type is read in one
scope and denotes a class, and not in relation to the place, then its spelling in
another scope means the same class there. -/
theorem documented_class_keeps_meaning {s s' : Scope} (hs : s.Reached) (hs' : s'.Reached)
    {enclosing : Option Doc.Enclosing} {written : Text} {t : HintType}
    (h : Doc.readType? s enclosing written = some t) (hclass : t.isClass = true)
    (hrelative : t.isRelative = false) :
    (s'.resolve (s'.display t.notNullable)).Same t.declared := by
  have hdisplay : s'.display t.notNullable = s'.shortest t.declared := by
    have hclass' : t.notNullable.isClass = true := hclass
    have hrelative' : t.notNullable.isRelative = false := hrelative
    rw [Scope.display, hclass', hrelative']
    rfl
  rw [hdisplay]
  exact Scope.resolve_shortest hs'.segmented (Doc.segmented_declared hs.segmented h)

/-- `namespace App; use Lib\Collection as C;` -/
def appScope : Scope :=
  (Scope.start.enter (some "App".toList)).withImport
    ⟨.classes, "\\Lib\\Collection".toList, "C".toList⟩

/-- `namespace Other; use LIB as L;` -/
def otherScope : Scope :=
  (Scope.start.enter (some "Other".toList)).withImport ⟨.classes, "LIB".toList, "L".toList⟩

/-- A class that one file names by an alias is written in the other through the alias of its
namespace. -/
theorem documented_class_keeps_meaning_collection :
    Doc.readType? appScope none "C|null".toList =
        some (.named "Lib\\Collection".toList true) ∧
      otherScope.display (.named "Lib\\Collection".toList false) = "L\\Collection".toList ∧
      (otherScope.resolve "L\\Collection".toList).Same "Lib\\Collection".toList := by
  have hs : appScope.Reached :=
    .withImport (.enter .start (by decide)) (by decide) (by decide) (by decide)
  have hs' : otherScope.Reached :=
    .withImport (.enter .start (by decide)) (by decide) (by decide) (by decide)
  have hread : Doc.readType? appScope none "C|null".toList =
      some (.named "Lib\\Collection".toList true) := by decide
  have hdisplay : otherScope.display (.named "Lib\\Collection".toList false) =
      "L\\Collection".toList := by decide
  have hmeaning := documented_class_keeps_meaning hs hs' hread (by decide) (by decide)
  exact ⟨hread, hdisplay, hdisplay ▸ hmeaning⟩

end NativeHints
