import Mathlib.Data.List.Permutation
import NativeHints.Proofs.RejectedNames

/-!
# Unions are read as sets

A written type is a union of alternatives between bars.  The reader goes through them from left
to right, and it matches a pair of them by position.  Still the order does not matter, and
neither does the number of times that `null` is among them.  All that counts is the other
alternatives with their numbers, and whether there is a `null`.

Only two kinds of unions have a hint: those with one alternative besides `null`, and an
array with `Traversable`.
-/

namespace NativeHints

namespace Doc

/-! ## Arrays and `Traversable` -/

/-- The word `array`, or a list of something. -/
def ArrayForm (t : Text) : Prop := t.Same "array".toList ∨ ∃ front, t = front ++ "[]".toList

/-- The word `Traversable`, behind any number of backslashes. -/
def TraversableForm (t : Text) : Prop :=
  ∃ (n : Nat) (word : Text), t = List.replicate n '\\' ++ word ∧ word.Same "Traversable".toList

theorem endsInBrackets_iff {t : Text} :
    endsInBrackets t = true ↔ ∃ front, t = front ++ "[]".toList := by
  rw [endsInBrackets.eq_def]
  constructor
  · intro h
    split at h
    · next rest hreverse =>
        refine ⟨rest.reverse, ?_⟩
        rw [← List.reverse_reverse t, hreverse]
        simp
    · cases h
  · rintro ⟨front, rfl⟩
    simp

theorem isArray_iff {t : Text} : isArray t = true ↔ ArrayForm t := by
  simp only [isArray, ArrayForm, Bool.or_eq_true, decide_eq_true_eq, endsInBrackets_iff]

theorem isTraversable_iff {t : Text} : isTraversable t = true ↔ TraversableForm t := by
  rw [isTraversable, decide_eq_true_eq, Text.dropLeading]
  constructor
  · intro h
    refine ⟨(t.takeWhile (· = '\\')).length, t.dropWhile (· = '\\'), ?_, h⟩
    have hmarks : t.takeWhile (· = '\\') =
        List.replicate (t.takeWhile (· = '\\')).length '\\' := by
      refine List.eq_replicate_of_mem fun c hc => ?_
      simpa using List.mem_takeWhile_imp hc
    rw [← hmarks, List.takeWhile_append_dropWhile]
  · rintro ⟨n, word, rfl, hword⟩
    -- a word of letters does not begin with a backslash
    have hletters : '\\' ∉ word := by
      intro hmem
      exact absurd ((hword.mem_iff (by decide)).mp hmem) (by decide)
    rw [List.dropWhile_append_of_pos (by simp)]
    rwa [← Text.dropLeading, Text.dropLeading_of_not_mem hletters]

/-! ## Alternatives in any order -/

/-- An array and `Traversable`. -/
def IterablePair (names : List Text) : Prop :=
  ∃ x y, names.Perm [x, y] ∧ ArrayForm x ∧ TraversableForm y

section Names

variable {s : Scope}

theorem unionName?_swap (x y : Text) : unionName? s [x, y] = unionName? s [y, x] := by
  simp only [unionName?, Bool.or_comm, Bool.and_comm]

theorem unionName?_of_length {names : List Text} (h : 2 < names.length) :
    unionName? s names = none := by
  rw [unionName?.eq_def]
  split
  · simp at h
  · simp at h
  · rfl

theorem unionName?_of_perm {names names' : List Text} (h : names.Perm names') :
    unionName? s names = unionName? s names' := by
  match names, h with
  | [], h => rw [h.nil_eq]
  | [x], h => rw [List.singleton_perm.mp h]
  | [x, y], h =>
      rcases List.perm_pair.mp h.symm with rfl | rfl
      · rfl
      · exact unionName?_swap x y
  | x :: y :: z :: rest, h =>
      rw [unionName?_of_length (by simp), unionName?_of_length (by simp [← h.length_eq])]

theorem unionName?_of_iterablePair {names : List Text} (h : IterablePair names) :
    unionName? s names = some "iterable".toList := by
  obtain ⟨x, y, hperm, hx, hy⟩ := h
  rw [unionName?_of_perm hperm]
  simp [unionName?, isArray_iff.mpr hx, isTraversable_iff.mpr hy]

/-- The unions that have a hint. -/
theorem unionName?_cases {names : List Text} {name : Text} (h : unionName? s names = some name) :
    (∃ single, names = [single]) ∨ IterablePair names ∧ name = "iterable".toList := by
  rw [unionName?.eq_def] at h
  split at h
  · next single => exact .inl ⟨single, rfl⟩
  · next first second =>
      refine .inr ?_
      split at h
      · next hpair =>
          refine ⟨?_, (Option.some.inj h).symm⟩
          simp only [Bool.or_eq_true, Bool.and_eq_true, isArray_iff, isTraversable_iff] at hpair
          rcases hpair with ⟨hfirst, hsecond⟩ | ⟨hfirst, hsecond⟩
          · exact ⟨first, second, .refl _, hfirst, hsecond⟩
          · exact ⟨second, first, .swap .., hsecond, hfirst⟩
      · cases h
  · cases h

end Names

/-! ## Written types -/

/-- Some alternative of a written type is `null`. -/
def HasNull (written : Text) : Prop :=
  ∃ alternative ∈ Text.splitOn '|' written.trim, alternative.Same "null".toList

theorem any_isNull_iff {written : Text} :
    (Text.splitOn '|' written.trim).any isNull = true ↔ HasNull written := by
  simp only [List.any_eq_true, isNull, decide_eq_true_eq, HasNull]

theorem meaning_iterable (enclosing : Option Enclosing) :
    meaning enclosing "iterable".toList = "iterable".toList := by
  cases enclosing <;> rfl

/-- Let two written types have the same alternatives besides `null`, in any order, and let both or
none of them have `null`.  White space around a written type is no part of it.  Then the same
is read from them.  If it is a type, it is nullable exactly if there is `null`.  Besides that
there is one alternative, or there are an array and `Traversable`.  From these `iterable` is
read. -/
theorem union_read_as_set (s : Scope) (enclosing : Option Enclosing) {a b : Text}
    (hothers : (alternatives a).Perm (alternatives b)) (hnull : HasNull a ↔ HasNull b) :
    readType? s enclosing a = readType? s enclosing b ∧
    (∀ t, readType? s enclosing a = some t →
      (t.nullable = true ↔ HasNull a) ∧
      ((∃ single, alternatives a = [single]) ∨
        IterablePair (alternatives a) ∧ t = .named "iterable".toList t.nullable)) ∧
    (IterablePair (alternatives a) → (readType? s enclosing a).isSome = true) := by
  refine ⟨?_, fun t ht => ?_, fun hpair => ?_⟩
  · have hany : (Text.splitOn '|' a.trim).any isNull = (Text.splitOn '|' b.trim).any isNull := by
      rw [Bool.eq_iff_iff, any_isNull_iff, any_isNull_iff, hnull]
    show Option.map _ (unionName? s (alternatives a)) =
      Option.map _ (unionName? s (alternatives b))
    rw [unionName?_of_perm hothers, hany]
  · obtain ⟨name, hname, rfl⟩ := readType?_eq_some_iff.mp ht
    refine ⟨any_isNull_iff, ?_⟩
    rcases unionName?_cases hname with hsingle | ⟨hpair, rfl⟩
    · exact .inl hsingle
    · refine .inr ⟨hpair, ?_⟩
      simp only [meaning_iterable, HintType.named]
  · have hname := unionName?_of_iterablePair (s := s) hpair
    exact Option.isSome_iff_exists.mpr ⟨_, readType?_eq_some_iff.mpr ⟨_, hname, rfl⟩⟩

/-- The union in two orders, with one `null` and with two. -/
theorem union_read_as_set_items :
    (alternatives "Item[]|null|\\\\TRAVERSABLE".toList).Perm
        (alternatives "NULL|\\\\TRAVERSABLE|Item[]|null".toList) ∧
      HasNull "Item[]|null|\\\\TRAVERSABLE".toList ∧
      readType? .start none "Item[]|null|\\\\TRAVERSABLE".toList =
        some (.named "iterable".toList true) ∧
      readType? .start none "NULL|\\\\TRAVERSABLE|Item[]|null".toList =
        some (.named "iterable".toList true) := by
  have hothers : (alternatives "Item[]|null|\\\\TRAVERSABLE".toList).Perm
      (alternatives "NULL|\\\\TRAVERSABLE|Item[]|null".toList) := by decide
  have hnull : HasNull "Item[]|null|\\\\TRAVERSABLE".toList := any_isNull_iff.mp (by decide)
  have hnull' : HasNull "NULL|\\\\TRAVERSABLE|Item[]|null".toList := any_isNull_iff.mp (by decide)
  have hread : readType? .start none "Item[]|null|\\\\TRAVERSABLE".toList =
      some (.named "iterable".toList true) := by decide
  obtain ⟨hsame, -, -⟩ := union_read_as_set .start none hothers (iff_of_true hnull hnull')
  exact ⟨hothers, hnull, hread, hsame ▸ hread⟩

end Doc

end NativeHints
