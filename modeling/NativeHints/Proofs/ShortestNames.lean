import NativeHints.Proofs.ReservedWords

/-!
# No spelling is shorter

The shortest name of a class is chosen among a few spellings: the full name, what is left
of it below the namespace, and one for each import.  But any text is a spelling of the
class if it resolves to it.  The choice among the few is the choice among all, with
one exception: names that begin with the word `namespace` are never tried.

This is so because resolving can be turned round, form by form.  A text that is resolved to
a class, and does not give it in full, went through the namespace or through an import.
Each time the spellings to choose from have one that differs from the text in case at
most, so it has the same size and means the same.
-/

namespace NativeHints

namespace Text

/-- What stands before the first backslash. -/
def firstSegment (t : Text) : Text := t.takeWhile (· ≠ '\\')

theorem firstSegment_append {first : Text} (h : '\\' ∉ first) (rest : Text) :
    firstSegment (first ++ '\\' :: rest) = first := by
  rw [firstSegment, List.takeWhile_append_of_pos (ne_of_not_mem h),
    List.takeWhile_cons_of_neg (by decide), List.append_nil]

end Text

namespace Scope

variable {s : Scope} {name spelling : Text}

/-! ## From a meaning to a spelling -/

/-- A class below the target of an import is spelled through the import. -/
theorem throughAlias_of_below {a : Alias} {rest : Text}
    (h : Text.Same (a.target ++ '\\' :: rest) name) :
    ∃ tail : Text, throughAlias name a = some (a.name ++ '\\' :: tail) ∧ tail.Same rest := by
  obtain ⟨hstart, -⟩ := h.startsWith
  obtain ⟨front, tail, rfl, hfront, htail⟩ := h.split
  have hdrop : (front ++ '\\' :: tail).drop a.target.length = '\\' :: tail := by
    rw [hfront.length_eq, List.drop_left]
  -- It is not the target itself, being longer.
  have hbelow : ¬ Text.Same (front ++ '\\' :: tail) a.target := by
    intro hsame
    have hlength := hsame.length_eq
    rw [hfront.length_eq, List.length_append, List.length_cons] at hlength
    omega
  refine ⟨tail, ?_, htail.symm⟩
  rw [throughAlias, if_neg hbelow, if_pos hstart, hdrop]

/-- A path that means a class is one of the spellings to choose from, up to case. -/
theorem exists_candidate_of_path {first rest : Text} (hne : first ≠ []) (hmark : '\\' ∉ first)
    (hnamespace : ¬ first.Same "namespace".toList)
    (h : (s.resolve (first ++ '\\' :: rest)).Same name) :
    ∃ candidate ∈ s.candidates name, candidate.Same (first ++ '\\' :: rest) := by
  rw [resolve_path hne hmark, if_neg hnamespace] at h
  cases htarget : s.target? first with
  | none =>
      rw [htarget] at h
      exact exists_candidate_of_qualify h
  | some target =>
      rw [htarget] at h
      obtain ⟨a, ha, hfirst, rfl⟩ := exists_of_target? htarget
      obtain ⟨tail, hthrough, htail⟩ := throughAlias_of_below h
      exact ⟨_, mem_candidates_of_alias ha hthrough, hfirst.append htail⟩

theorem spells_full (s : Scope) (name : Text) : s.Spells name ('\\' :: name) :=
  ⟨List.mem_cons_self, by simp [means, Text.startsWith, Text.strip?]⟩

/-- Whatever means a class, and does not begin with the word `namespace`, has the size of one of the
spellings to choose from. -/
theorem exists_spells_size (hspecial : name.isOneOf specialNames = false)
    (hfirst : ¬ spelling.firstSegment.Same "namespace".toList)
    (h : (s.resolve spelling).Same name) :
    ∃ candidate, s.Spells name candidate ∧ candidate.size = spelling.size := by
  rcases Text.path_cases spelling with ⟨rest, rfl⟩ | hmark | ⟨first, rest, hne, hmark, rfl⟩
  · have hrest : Text.Same rest name := h
    exact ⟨'\\' :: name, s.spells_full name, by rw [Text.size_cons, Text.size_cons, hrest.size_eq]⟩
  · cases hspecial' : spelling.isOneOf specialNames with
    | true =>
        rw [resolve_of_isOneOf hspecial'] at h
        rw [h.isOneOf_eq, hspecial] at hspecial'
        cases hspecial'
    | false =>
        obtain ⟨candidate, hspells, hsame⟩ := exists_spells_of_word hmark hspecial' h
        exact ⟨candidate, hspells, hsame.size_eq⟩
  · rw [Text.firstSegment_append hmark] at hfirst
    obtain ⟨candidate, hmem, hsame⟩ := exists_candidate_of_path hne hmark hfirst h
    exact ⟨candidate, spells_of_same hmem hsame h, hsame.size_eq⟩

/-! ## The shortest one -/

/-- The shortest name of a class means the class, and nothing that means the class has fewer bytes,
names that begin with the word `namespace` aside. -/
theorem shortest_is_least {events : List Event}
    (haliases : ∀ i, .imported i ∈ events → i.shortName ≠ [] ∧ '\\' ∉ i.shortName)
    (hname : name.Segmented) (hspecial : name.isOneOf specialNames = false) :
    ((ofEvents events).resolve ((ofEvents events).shortest name)).Same name ∧
    ∀ spelling : Text, ¬ spelling.firstSegment.Same "namespace".toList →
      ((ofEvents events).resolve spelling).Same name →
      ((ofEvents events).shortest name).size ≤ spelling.size := by
  constructor
  · refine shortest_means (fun a ha => ?_) hname
    obtain ⟨i, hi, rfl⟩ := exists_import ha
    exact haliases i hi
  · intro spelling hfirst hmeans
    obtain ⟨candidate, hspells, hsize⟩ := exists_spells_size hspecial hfirst hmeans
    rw [← hsize]
    rw [← hname.dropLeading] at hspells
    exact shortest_le hspells

/-- `namespace App; use Lib\Text as T; use Lib\Text\Line as TextLine;` -/
def lineEvents : List Event :=
  [.enter (some "App".toList), .imported ⟨.classes, "Lib\\Text".toList, "T".toList⟩,
    .imported ⟨.classes, "\\Lib\\Text\\Line".toList, "TextLine".toList⟩]

/-- The name through the alias of the outer namespace is shorter than the alias of the class
itself. -/
theorem shortest_is_least_line :
    (∀ i, .imported i ∈ lineEvents → i.shortName ≠ [] ∧ '\\' ∉ i.shortName) ∧
      (ofEvents lineEvents).shortest "Lib\\Text\\Line".toList = "T\\Line".toList ∧
      ((ofEvents lineEvents).resolve "textline".toList).Same "Lib\\Text\\Line".toList ∧
      Text.size "T\\Line".toList ≤ Text.size "textline".toList := by
  have haliases : ∀ i, .imported i ∈ lineEvents → i.shortName ≠ [] ∧ '\\' ∉ i.shortName := by
    intro i hi
    simp only [lineEvents, List.mem_cons, reduceCtorEq, Event.imported.injEq, List.not_mem_nil,
      or_false, false_or] at hi
    rcases hi with rfl | rfl <;> decide
  have hshortest : (ofEvents lineEvents).shortest "Lib\\Text\\Line".toList = "T\\Line".toList := by
    decide
  have hmeans : ((ofEvents lineEvents).resolve "textline".toList).Same
      "Lib\\Text\\Line".toList := by decide
  have hname : Text.Segmented "Lib\\Text\\Line".toList := by decide
  have hspecial : Text.isOneOf "Lib\\Text\\Line".toList specialNames = false := by decide
  have hleast := (shortest_is_least haliases hname hspecial).2 "textline".toList (by decide) hmeans
  exact ⟨haliases, hshortest, hmeans, hshortest ▸ hleast⟩

/-- Behind the word `namespace` a class may have a name with fewer bytes. -/
example :
    let s : Scope := .ofEvents [.enter (some "Application".toList),
      .imported ⟨.classes, "Lib\\User".toList, "User".toList⟩]
    s.shortest "Application\\User".toList = "\\Application\\User".toList ∧
      s.resolve "namespace\\User".toList = "Application\\User".toList := by
  decide

end Scope

end NativeHints
