import NativeHints.Proofs.Resolution

/-!
# Words that are no types

A written type may be a word that no hint can express, such as `mixed` or `void`.
The reader rejects it, and `null` only makes a type nullable.  But it looks at the
word as it is written, before the name is resolved.  So such a word comes out of
reading exactly if it is written as the name of a class: behind a backslash, or
below `namespace` outside of any namespace (`unwritable_word_iff`).
-/

namespace NativeHints

namespace Doc

/-- The words that no hint may consist of. -/
def unwritableWords : List Text := "null".toList :: rejectedNames

/-- The alternatives of a written type other than `null`. -/
def alternatives (written : Text) : List Text :=
  (Text.splitOn '|' (Text.trim written)).filter (!isNull ·)

theorem readType?_eq_some_iff {s : Scope} {enclosing : Option Enclosing} {written : Text}
    {t : HintType} :
    readType? s enclosing written = some t ↔
      ∃ name, unionName? s (alternatives written) = some name ∧
        t = ⟨name, meaning enclosing name, (Text.splitOn '|' (Text.trim written)).any isNull⟩ := by
  show Option.map _ _ = some t ↔ _
  rw [Option.map_eq_some_iff]
  exact exists_congr fun name => and_congr_right fun _ => eq_comm

/-! ## Words of letters are names -/

theorem isSegment_of_isAlpha {t : Text} (hne : t ≠ []) (h : ∀ c ∈ t, c.isAlpha = true) :
    isSegment t = true := by
  have hstart : ∀ c ∈ t, isNameStart c = true := by
    intro c hc
    simp only [isNameStart, h c hc, Bool.true_or]
  obtain ⟨c, rest, rfl⟩ := List.exists_cons_of_ne_nil hne
  refine Bool.and_eq_true_iff.mpr ⟨hstart c List.mem_cons_self, List.all_eq_true.mpr ?_⟩
  intro d hd
  simp only [isNamePart, hstart d (List.mem_cons_of_mem c hd), Bool.true_or]

theorem isAlpha_of_unwritable {word : Text} (h : word.isOneOf unwritableWords = true) :
    word ≠ [] ∧ ∀ c ∈ word, c.isAlpha = true :=
  Text.isAlpha_of_isOneOf (by decide) h

theorem endsInBrackets_append {t : Text} (hne : t ≠ []) (h : ∀ c ∈ t, c.isAlpha = true)
    (front : Text) : endsInBrackets (front ++ t) = false := by
  cases hends : endsInBrackets (front ++ t) with
  | false => rfl
  | true =>
      rw [endsInBrackets.eq_def, List.reverse_append] at hends
      split at hends
      · next rest heq =>
          have hmem : ']' ∈ t.reverse := by
            obtain ⟨c, tail, hcons⟩ := List.exists_cons_of_ne_nil (List.reverse_ne_nil_iff.mpr hne)
            rw [hcons] at heq ⊢
            obtain ⟨rfl, -⟩ := List.cons.inj heq
            exact List.mem_cons_self
          exact absurd (h _ (List.mem_reverse.mp hmem)) (by decide)
      · cases hends

/-- They are what the reader rejects as it is written, and `null`. -/
theorem isOneOf_unwritableWords (t : Text) :
    t.isOneOf unwritableWords = (isNull t || rejectedNames.contains t.lower) := by
  have hlower : ∀ name ∈ rejectedNames, Text.lower name = name := by decide
  show (isNull t || t.isOneOf rejectedNames) = _
  congr 1
  rw [Bool.eq_iff_iff, Text.isOneOf, List.any_eq_true, List.contains_iff_mem]
  constructor
  · rintro ⟨name, hname, hsame⟩
    have heq : t.lower = name := Eq.trans (of_decide_eq_true hsame) (hlower name hname)
    rwa [heq]
  · intro hmem
    exact ⟨t.lower, hmem, decide_eq_true (hlower _ hmem).symm⟩

/-! ## What is read as such a word -/

section Read

variable {s : Scope}

/-- What the name of an alternative can be. -/
theorem nameOf?_cases {alternative name : Text} (h : nameOf? s alternative = some name) :
    name = "array".toList ∨ (∃ key, (key, name) ∈ spellings) ∨
      alternative.lower ∉ rejectedNames ∧ name = s.resolve alternative := by
  rw [nameOf?] at h
  split at h
  · exact .inl (Option.some.inj h).symm
  · split at h
    · cases h
    · split at h
      · cases h
      · next hrejected =>
          rw [List.contains_iff_mem] at hrejected
          split at h
          · next spelling hspelling =>
              obtain rfl := Option.some.inj h
              exact .inr (.inl ⟨_, mem_of_lookup hspelling⟩)
          · exact .inr (.inr ⟨hrejected, (Option.some.inj h).symm⟩)

/-- A name with a backslash in it is resolved. -/
theorem nameOf?_of_path {alternative : Text} (hmark : '\\' ∈ alternative)
    (hbrackets : endsInBrackets alternative = false) (hname : isName alternative = true) :
    nameOf? s alternative = some (s.resolve alternative) := by
  have hlower : '\\' ∈ alternative.lower := (Text.mem_lower_iff (by decide)).mpr hmark
  have hrejected : rejectedNames.contains alternative.lower = false := by
    have hplain : ∀ word ∈ rejectedNames, '\\' ∉ word := by decide
    rw [← Bool.not_eq_true, List.contains_iff_mem]
    exact fun hmem => hplain _ hmem hlower
  have hspelling : spellings.lookup alternative.lower = none := by
    have hplain : ∀ entry ∈ spellings, '\\' ∉ entry.1 := by decide
    rw [List.lookup_eq_none_iff]
    intro entry hentry
    rw [bne_iff_ne]
    intro heq
    exact hplain entry hentry (heq ▸ hlower)
  simp only [nameOf?, hbrackets, hname, hrejected, hspelling, Bool.not_true, Bool.false_eq_true,
    if_false]

section Word

variable {word : Text} (hword : word.isOneOf unwritableWords = true)

include hword

theorem nameOf?_root : nameOf? s ('\\' :: word) = some word := by
  obtain ⟨hne, halpha⟩ := isAlpha_of_unwritable hword
  have hmark : '\\' ∉ word := fun hmem => absurd (halpha _ hmem) (by decide)
  have hname : isName ('\\' :: word) = true := by
    show (Text.splitOn '\\' word).all isSegment = true
    rw [Text.splitOn_of_not_mem hmark, List.all_cons, isSegment_of_isAlpha hne halpha]
    rfl
  exact nameOf?_of_path List.mem_cons_self (endsInBrackets_append hne halpha ['\\']) hname

theorem nameOf?_namespace (hspace : s.space = none) {first : Text}
    (hfirst : first.Same "namespace".toList) :
    nameOf? s (first ++ '\\' :: word) = some word := by
  obtain ⟨hne, halpha⟩ := isAlpha_of_unwritable hword
  have hmark : '\\' ∉ word := fun hmem => absurd (halpha _ hmem) (by decide)
  have hone : first.isOneOf ["namespace".toList] = true :=
    List.any_eq_true.mpr ⟨_, List.mem_cons_self, decide_eq_true hfirst⟩
  obtain ⟨hne', halpha'⟩ := Text.isAlpha_of_isOneOf (by decide) hone
  have hmark' : '\\' ∉ first := fun hmem => absurd (halpha' _ hmem) (by decide)
  have hname : isName (first ++ '\\' :: word) = true := by
    rw [isName.eq_2 _ (Text.path_ne_rooted hne' hmark' word), Text.splitOn_append, Text.splitOn_of_not_mem hmark,
      Text.splitOn_of_not_mem hmark', List.all_append, List.all_cons, List.all_cons,
      isSegment_of_isAlpha hne halpha, isSegment_of_isAlpha hne' halpha']
    rfl
  have hbrackets : endsInBrackets (first ++ '\\' :: word) = false := by
    have hends := endsInBrackets_append hne halpha (first ++ ['\\'])
    rwa [List.append_assoc] at hends
  have hresolve : s.resolve (first ++ '\\' :: word) = word := by
    rw [Scope.resolve_relative hfirst, Scope.qualify, hspace]
  rw [nameOf?_of_path (List.mem_append_right _ List.mem_cons_self) hbrackets hname, hresolve]

/-- The alternatives that give such a word, where no import leads to one. -/
theorem nameOf?_eq_word_iff (htargets : ∀ a ∈ s.aliases, a.target.isOneOf unwritableWords = false)
    {alternative : Text} (hnull : isNull alternative = false) :
    nameOf? s alternative = some word ↔
      alternative = '\\' :: word ∨
        s.space = none ∧
          ∃ first : Text, first.Same "namespace".toList ∧ alternative = first ++ '\\' :: word := by
  constructor
  · intro h
    obtain rfl | ⟨key, hspelling⟩ | ⟨hrejected, rfl⟩ := nameOf?_cases h
    · cases hword
    · have hnone : ∀ entry ∈ spellings, entry.2.isOneOf unwritableWords = false := by decide
      rw [hnone _ hspelling] at hword
      cases hword
    · have hmark : '\\' ∉ s.resolve alternative := fun hmem =>
        absurd ((isAlpha_of_unwritable hword).2 _ hmem) (by decide)
      obtain hroot | ⟨-, hself | ⟨a, ha, htarget⟩⟩ | hnamespace := Scope.resolve_eq_word hmark
      · exact .inl hroot
      · rw [hself, isOneOf_unwritableWords, hnull, Bool.false_or] at hword
        exact absurd (List.contains_iff_mem.mp hword) hrejected
      · rw [← htarget, htargets a ha] at hword
        cases hword
      · exact .inr hnamespace
  · rintro (rfl | ⟨hspace, first, hfirst, rfl⟩)
    · exact nameOf?_root hword
    · exact nameOf?_namespace hword hspace hfirst

/-- Such a word is never the name of a pair. -/
theorem unionName?_eq_word_iff {names : List Text} :
    unionName? s names = some word ↔
      ∃ alternative, names = [alternative] ∧ nameOf? s alternative = some word := by
  constructor
  · intro h
    rw [unionName?.eq_def] at h
    split at h
    · next single => exact ⟨single, rfl, h⟩
    · split at h
      · obtain rfl := Option.some.inj h
        cases hword
      · cases h
    · cases h
  · rintro ⟨alternative, rfl, h⟩
    exact h

end Word

end Read

/-- A word that no hint can express is read from a written type exactly if, `null` aside, it
is written as the name of a class: in full, or below `namespace` where there is no
namespace.  This holds at every place where no import leads to such a word. -/
theorem unwritable_word_iff {events : List Scope.Event}
    (himports : ∀ i, .imported i ∈ events →
      (i.name.dropLeading '\\').isOneOf unwritableWords = false)
    (enclosing : Option Enclosing) (written : Text) {word : Text}
    (hword : word.isOneOf unwritableWords = true) :
    (∃ t, readType? (.ofEvents events) enclosing written = some t ∧ t.declared = word) ↔
      alternatives written = ['\\' :: word] ∨
        (Scope.ofEvents events).space = none ∧
          ∃ first : Text, first.Same "namespace".toList ∧
            alternatives written = [first ++ '\\' :: word] := by
  have htargets : ∀ a ∈ (Scope.ofEvents events).aliases,
      a.target.isOneOf unwritableWords = false := by
    intro a ha
    obtain ⟨i, hi, rfl⟩ := Scope.exists_import ha
    exact himports i hi
  have hnull : ∀ alternative, alternatives written = [alternative] → isNull alternative = false := by
    intro alternative heq
    have hmem : alternative ∈ alternatives written := heq ▸ List.mem_cons_self
    exact Bool.not_eq_true' _ ▸ (List.mem_filter.mp hmem).2
  calc
    _ ↔ unionName? (.ofEvents events) (alternatives written) = some word := by
      constructor
      · rintro ⟨t, ht, rfl⟩
        obtain ⟨name, hname, rfl⟩ := readType?_eq_some_iff.mp ht
        exact hname
      · intro h
        exact ⟨_, readType?_eq_some_iff.mpr ⟨word, h, rfl⟩, rfl⟩
    _ ↔ ∃ alternative, alternatives written = [alternative] ∧
          nameOf? (.ofEvents events) alternative = some word := unionName?_eq_word_iff hword
    _ ↔ _ := by
      constructor
      · rintro ⟨alternative, heq, hname⟩
        rcases (nameOf?_eq_word_iff hword htargets (hnull _ heq)).mp hname with
          rfl | ⟨hspace, first, hfirst, rfl⟩
        · exact .inl heq
        · exact .inr ⟨hspace, first, hfirst, heq⟩
      · rintro (heq | ⟨hspace, first, hfirst, heq⟩)
        · exact ⟨_, heq, nameOf?_root hword⟩
        · exact ⟨_, heq, nameOf?_namespace hword hspace hfirst⟩

/-- `use Lib\Any as mixed;` outside of any namespace, after one. -/
def globalEvents : List Scope.Event :=
  [.enter (some "App".toList), .enter none,
    .imported ⟨.classes, "\\Lib\\Any".toList, "mixed".toList⟩]

/-- Outside of any namespace the word is also read behind `Namespace\`, in any case of letters. -/
theorem unwritable_word_iff_void :
    (∀ i, .imported i ∈ globalEvents →
        (i.name.dropLeading '\\').isOneOf unwritableWords = false) ∧
      Text.isOneOf "Void".toList unwritableWords = true ∧
      ∃ t, readType? (.ofEvents globalEvents) none "null|Namespace\\Void".toList = some t ∧
        t.declared = "Void".toList := by
  have himports : ∀ i, .imported i ∈ globalEvents →
      (i.name.dropLeading '\\').isOneOf unwritableWords = false := by
    intro i hi
    simp only [globalEvents, List.mem_cons, reduceCtorEq, Scope.Event.imported.injEq,
      List.not_mem_nil, or_false, false_or] at hi
    subst hi
    decide
  have hword : Text.isOneOf "Void".toList unwritableWords = true := by decide
  have hspelled : alternatives "null|Namespace\\Void".toList = ["Namespace\\Void".toList] := by
    decide
  exact ⟨himports, hword, (unwritable_word_iff himports none _ hword).mpr
    (.inr ⟨rfl, "Namespace".toList, by decide, hspelled⟩)⟩

/-- A rejected word is read where it stands behind a backslash, and then it is written without
one. -/
theorem rejected_word_read :
    readType? (.ofEvents []) none "\\mixed".toList = some (.named "mixed".toList false) ∧
      "mixed".toList ∈ rejectedNames ∧
      (Scope.ofEvents []).display (.named "mixed".toList false) = "mixed".toList := by
  decide

end Doc

end NativeHints
