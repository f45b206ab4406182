import NativeHints.Insertion.Basic
import NativeHints.Proofs.Resolution

/-!
# Classes spelled like reserved words

A class is written by its shortest spelling, and a spelling is tested only for the
class it means.  But some words never mean a class where a hint stands: the native
types, `self` and `parent`.  A class is written as one of them exactly if the word,
read as a class name, means the class and no other spelling is shorter
(`reserved_spelling`).  That takes an import under the word, or a class of that
name in the namespace.
-/

namespace NativeHints

namespace Text

/-- A text that is the same as a beginning, a backslash and a rest begins with it. -/
theorem Same.startsWith {p rest t : Text} (h : Same (p ++ '\\' :: rest) t) :
    t.lower.startsWith (p.lower ++ ['\\']) = true ∧ Same rest (t.drop (p.length + 1)) := by
  obtain ⟨front, tail, rfl, hfront, htail⟩ := h.split
  constructor
  · refine startsWith_iff.mpr ⟨lower tail, ?_⟩
    rw [lower_append, ← hfront, List.append_assoc]
    rfl
  · rw [hfront.length_eq, ← List.drop_drop, List.drop_left]
    exact htail

theorem dropLeading_cases (mark : Char) (t : Text) :
    t.dropLeading mark = t ∨ ∃ rest, t = mark :: rest := by
  cases t with
  | nil => exact .inl rfl
  | cons c t =>
      by_cases hc : c = mark
      · exact .inr ⟨t, by rw [hc]⟩
      · exact .inl (List.dropWhile_cons_of_neg (by simpa using hc))

end Text

namespace Scope

variable {s : Scope} {name spelling : Text}

/-! ## Every spelling is among those to choose from -/

theorem mem_candidates_of_space (h : s.throughSpace name = some spelling) :
    spelling ∈ s.candidates name := by
  refine List.mem_cons_of_mem _ (List.mem_append_left _ ?_)
  exact Option.mem_toList.mpr h

theorem mem_candidates_of_alias {a : Alias} (ha : a ∈ s.aliases)
    (h : throughAlias name a = some spelling) : spelling ∈ s.candidates name := by
  refine List.mem_cons_of_mem _ (List.mem_append_right _ ?_)
  exact List.mem_filterMap.mpr ⟨a, ha, h⟩

theorem exists_candidate_of_qualify (h : (s.qualify spelling).Same name) :
    ∃ candidate ∈ s.candidates name, candidate.Same spelling := by
  unfold qualify at h
  cases hspace : s.space with
  | none =>
      rw [hspace] at h
      have hthrough : s.throughSpace name = some name := by rw [throughSpace, hspace]
      exact ⟨name, mem_candidates_of_space hthrough, h.symm⟩
  | some space =>
      rw [hspace] at h
      obtain ⟨hstart, htail⟩ := Text.Same.startsWith h
      have hthrough : s.throughSpace name = some (name.drop (space.length + 1)) := by
        simp only [throughSpace, hspace, hstart, if_true]
      exact ⟨_, mem_candidates_of_space hthrough, htail.symm⟩

/-- A word that means a class, other than those that stand for a class in relation to the place, is
one of the spellings to choose from, up to case. -/
theorem exists_candidate_of_word (hmark : '\\' ∉ spelling)
    (hspecial : spelling.isOneOf specialNames = false) (h : (s.resolve spelling).Same name) :
    ∃ candidate ∈ s.candidates name, candidate.Same spelling := by
  rw [resolve_word hmark hspecial] at h
  cases htarget : s.target? spelling with
  | none =>
      rw [htarget] at h
      exact exists_candidate_of_qualify h
  | some target =>
      rw [htarget] at h
      obtain ⟨a, ha, hname, rfl⟩ := exists_of_target? htarget
      have hthrough : throughAlias name a = some a.name := if_pos h.symm
      exact ⟨a.name, mem_candidates_of_alias ha hthrough, hname⟩

/-! ## No spelling is shorter -/

/-- One of the spellings to choose from, and it means the class. -/
def Spells (s : Scope) (name spelling : Text) : Prop :=
  spelling ∈ s.candidates name ∧ s.means name spelling = true

instance (s : Scope) (name spelling : Text) : Decidable (s.Spells name spelling) :=
  inferInstanceAs (Decidable (_ ∧ _))

theorem leastSize_le_best (best : Text) (ts : List Text) :
    (leastSize best ts).size ≤ best.size := by
  induction ts generalizing best with
  | nil => exact Nat.le_refl _
  | cons t ts ih =>
      rw [leastSize]
      split
      · next hlt => exact Nat.le_trans (ih t) (Nat.le_of_lt hlt)
      · exact ih best

theorem leastSize_le {best t : Text} {ts : List Text} (h : t ∈ ts) :
    (leastSize best ts).size ≤ t.size := by
  induction ts generalizing best with
  | nil => cases h
  | cons u ts ih =>
      rw [leastSize]
      rcases List.mem_cons.mp h with rfl | h
      · split
        · exact leastSize_le_best t ts
        · next hle => exact Nat.le_trans (leastSize_le_best best ts) (Nat.not_lt.mp hle)
      · exact ih h

theorem spells_shortest (s : Scope) (name : Text) :
    s.Spells (name.dropLeading '\\') (s.shortest name) :=
  List.mem_filter.mp (s.shortest_mem_filter name)

theorem shortest_le (h : s.Spells (name.dropLeading '\\') spelling) :
    (s.shortest name).size ≤ spelling.size :=
  leastSize_le (List.mem_filter.mpr h)

/-- A spelling without a backslash means what it is resolved to. -/
theorem Spells.resolve (h : s.Spells name spelling) (hmark : '\\' ∉ spelling) :
    (s.resolve spelling).Same name := by
  rcases Bool.or_eq_true_iff.mp h.2 with hroot | hmeans
  · obtain ⟨rest, rfl⟩ := Text.startsWith_iff.mp hroot
    exact absurd List.mem_cons_self hmark
  · exact of_decide_eq_true hmeans

/-- One of the spellings to choose from means what any text means that is the same up to case. -/
theorem spells_of_same {candidate : Text} (hmem : candidate ∈ s.candidates name)
    (hsame : candidate.Same spelling) (h : (s.resolve spelling).Same name) :
    s.Spells name candidate := by
  have hmeans : (s.resolve candidate).Same name := (resolve_same hsame).trans h
  exact ⟨hmem, Bool.or_eq_true_iff.mpr (.inr (decide_eq_true hmeans))⟩

/-- A word that means a class is a spelling of it, up to case. -/
theorem exists_spells_of_word (hmark : '\\' ∉ spelling)
    (hspecial : spelling.isOneOf specialNames = false) (h : (s.resolve spelling).Same name) :
    ∃ candidate, s.Spells name candidate ∧ candidate.Same spelling := by
  obtain ⟨candidate, hmem, hsame⟩ := exists_candidate_of_word hmark hspecial h
  exact ⟨candidate, spells_of_same hmem hsame h, hsame⟩

end Scope

/-! ## Reserved words -/

namespace HintType

/-- The words that do not mean a class where a hint stands. -/
def reservedWords : List Text := builtinKinds ++ ["self".toList, "parent".toList]

theorem not_mem_of_reserved {word : Text} (h : word.isOneOf reservedWords = true) :
    '\\' ∉ word := by
  intro hmem
  exact absurd ((Text.isAlpha_of_isOneOf (by decide) h).2 _ hmem) (by decide)

theorem reserved_of_builtin {word : Text} (h : word.isOneOf builtinKinds = true) :
    word.isOneOf reservedWords = true := by
  rw [Text.isOneOf, reservedWords, List.any_append]
  exact Bool.or_eq_true_iff.mpr (.inl h)

theorem not_special_of_builtin {word : Text} (h : word.isOneOf builtinKinds = true) :
    word.isOneOf Scope.specialNames = false := by
  have hnone : ∀ kind ∈ builtinKinds, Text.isOneOf kind Scope.specialNames = false := by decide
  obtain ⟨kind, hkind, hsame⟩ := List.any_eq_true.mp h
  rw [(of_decide_eq_true hsame : word.Same kind).isOneOf_eq, hnone kind hkind]

theorem reserved_of_relative {word : Text} (h : isRelativeName word = true) :
    word.isOneOf reservedWords = true := by
  rw [Text.isOneOf, reservedWords, List.any_append]
  exact Bool.or_eq_true_iff.mpr (.inr h)

theorem special_of_relative {word : Text} (h : isRelativeName word = true) :
    word.isOneOf Scope.specialNames = true := by
  have hall : ∀ name ∈ ["self".toList, "parent".toList], name ∈ Scope.specialNames := by decide
  obtain ⟨name, hname, hsame⟩ := List.any_eq_true.mp h
  exact List.any_eq_true.mpr ⟨name, hall name hname, hsame⟩

end HintType

open HintType (reservedWords builtinKinds)

/-- Only a class of that name is written as `self` or `parent`. -/
theorem Scope.relative_of_shortest {s : Scope} {name : Text}
    (h : HintType.isRelativeName (s.shortest name) = true) :
    HintType.isRelativeName (name.dropLeading '\\') = true := by
  have hmark := HintType.not_mem_of_reserved (HintType.reserved_of_relative h)
  have hmeans := (s.spells_shortest name).resolve hmark
  rw [resolve_of_isOneOf (HintType.special_of_relative h)] at hmeans
  exact (hmeans.isOneOf_eq ["self".toList, "parent".toList]).symm.trans h

theorem Scope.display_notNullable {s : Scope} {t : HintType} (hclass : t.isClass = true)
    (hrelative : t.isRelative = false) : s.display t.notNullable = s.shortest t.declared := by
  have hclass' : t.notNullable.isClass = true := hclass
  have hrelative' : t.notNullable.isRelative = false := hrelative
  rw [Scope.display, hclass', hrelative']
  rfl

/-- When a class is written as a reserved word.  It is only if a reserved word, read as a class
name, means the class and no spelling of the class is shorter.  It is if a native type,
read as a class name, means the class and all spellings that are not reserved are longer.
It is never `self` or `parent` unless the class has that name itself, behind a backslash. -/
theorem reserved_spelling (s : Scope) {t : HintType} (hclass : t.isClass = true)
    (hrelative : t.isRelative = false) :
    ((s.display t.notNullable).isOneOf reservedWords = true →
      ∃ word : Text, word.isOneOf reservedWords = true ∧
        (s.resolve word).Same (t.declared.dropLeading '\\') ∧
        ∀ spelling, s.Spells (t.declared.dropLeading '\\') spelling →
          word.size ≤ spelling.size) ∧
    (∀ word : Text, word.isOneOf builtinKinds = true →
      (s.resolve word).Same (t.declared.dropLeading '\\') →
      (∀ spelling, s.Spells (t.declared.dropLeading '\\') spelling →
        spelling.isOneOf reservedWords = false → word.size < spelling.size) →
      (s.display t.notNullable).isOneOf reservedWords = true) ∧
    (HintType.isRelativeName (s.display t.notNullable) = true →
      ∃ rest, t.declared = '\\' :: rest) := by
  rw [Scope.display_notNullable hclass hrelative]
  have hspells := s.spells_shortest t.declared
  refine ⟨?_, ?_, ?_⟩
  · intro h
    exact ⟨_, h, hspells.resolve (HintType.not_mem_of_reserved h), fun _ => Scope.shortest_le⟩
  · intro word hword hmeans hlonger
    have hmark := HintType.not_mem_of_reserved (HintType.reserved_of_builtin hword)
    obtain ⟨candidate, hcandidate, hsame⟩ :=
      Scope.exists_spells_of_word hmark (HintType.not_special_of_builtin hword) hmeans
    have hle : (s.shortest t.declared).size ≤ word.size := by
      rw [← hsame.size_eq]
      exact Scope.shortest_le hcandidate
    cases hreserved : (s.shortest t.declared).isOneOf reservedWords with
    | true => rfl
    | false => exact absurd (hlonger _ hspells hreserved) (Nat.not_lt.mpr hle)
  · intro h
    have hname := Scope.relative_of_shortest h
    rcases Text.dropLeading_cases '\\' t.declared with hself | hroot
    · rw [hself] at hname
      cases hrelative.symm.trans hname
    · exact hroot

/-- `namespace App; use Lib\Text as String;` -/
def stringScope : Scope :=
  .ofEvents [.enter (some "App".toList),
    .imported ⟨.classes, "Lib\\Text".toList, "String".toList⟩]

/-- The class is written as `String`, and a reserved word is among its shortest spellings. -/
theorem reserved_spelling_string :
    stringScope.display (.named "Lib\\Text".toList false) = "String".toList ∧
      (stringScope.resolve "string".toList).Same "Lib\\Text".toList ∧
      ∃ word : Text, word.isOneOf reservedWords = true ∧
        (stringScope.resolve word).Same "Lib\\Text".toList ∧
        ∀ spelling, stringScope.Spells "Lib\\Text".toList spelling → word.size ≤ spelling.size := by
  have hdisplay : stringScope.display (.named "Lib\\Text".toList false) = "String".toList := by
    decide
  have hreserved : (stringScope.display (HintType.named "Lib\\Text".toList true).notNullable).isOneOf
      reservedWords = true := by decide
  exact ⟨hdisplay, by decide,
    (reserved_spelling stringScope (t := .named "Lib\\Text".toList true) rfl rfl).1 hreserved⟩

/-- A class in a namespace is written as a scalar type.  And one is written as `object`, though
this needs a feature that is off. -/
theorem class_spelled_as_native_type :
    let s : Scope := .ofEvents [.enter (some "App".toList)]
    let int : HintType := .named "App\\Int".toList false
    let object : HintType := .named "App\\Object".toList false
    (int.isClass = true ∧ int.isRelative = false ∧ s.display int = "Int".toList ∧
      Text.isOneOf "Int".toList reservedWords = true) ∧
    Insertion.resultType? (fun _ => false) false object = some object ∧
      s.display object = "Object".toList := by
  decide

end NativeHints
