import Mathlib.Data.List.Induction
import NativeHints.Proofs.Resolution

/-!
# Names follow the history

A scope keeps a list of imports that is filtered with each new one and emptied with each
namespace.  What it says about names can be said without it, by looking back at the
events: the current namespace is the last one that was entered, and an alias stands for
what was imported under it most recently since then.

The rules for names are stated over events here (`Means`), each with what has to fail
for it to apply.  They give every name one meaning, the one that the scope finds.
-/

namespace NativeHints

namespace Scope

/-! ## Looking back -/

/-- The namespace that an event enters.  Backslashes in front of its name do not count, and
without a name it is the global one. -/
def Event.entered? : Event → Option (Option Text)
  | .enter name => some ((name.map (Text.dropLeading '\\')).filter (!·.isEmpty))
  | .imported _ => none

/-- The class that an event imports under a name, up to case. -/
def Event.importedAs? (word : Text) : Event → Option Text
  | .enter _ => none
  | .imported i =>
      if i.kind = .classes ∧ i.shortName.Same word then some (i.name.dropLeading '\\') else none

/-- The last namespace that was entered. -/
def lastSpace (events : List Event) : Option Text := (events.reverse.findSome? Event.entered?).join

/-- The events since a namespace was last entered, the most recent one first. -/
def sinceEntered (events : List Event) : List Event :=
  events.reverse.takeWhile (·.entered?.isNone)

/-- The class that was imported most recently under a name, since a namespace was last entered. -/
def lastImport? (events : List Event) (word : Text) : Option Text :=
  (sinceEntered events).findSome? (Event.importedAs? word)

section LookBack

variable (events : List Event)

theorem lastSpace_append_enter (name : Option Text) :
    lastSpace (events ++ [.enter name]) =
      (name.map (Text.dropLeading '\\')).filter (!·.isEmpty) := by
  simp [lastSpace, List.findSome?_cons, Event.entered?]

theorem lastSpace_append_imported (i : Import) :
    lastSpace (events ++ [.imported i]) = lastSpace events := by
  simp [lastSpace, List.findSome?_cons, Event.entered?]

theorem lastImport?_append_enter (name : Option Text) (word : Text) :
    lastImport? (events ++ [.enter name]) word = none := by
  simp [lastImport?, sinceEntered, Event.entered?]

theorem lastImport?_append_imported (i : Import) (word : Text) :
    lastImport? (events ++ [.imported i]) word =
      ((Event.imported i).importedAs? word).or (lastImport? events word) := by
  have hsince : sinceEntered (events ++ [.imported i]) = .imported i :: sinceEntered events := by
    simp [sinceEntered, Event.entered?]
  rw [lastImport?, hsince, List.findSome?_cons]
  cases (Event.imported i).importedAs? word <;> rfl

end LookBack

/-! ## What an event changes -/

theorem ofEvents_append_singleton (events : List Event) (event : Event) :
    ofEvents (events ++ [event]) = (ofEvents events).follow event := by
  simp [ofEvents]

theorem withImport_of_class (s : Scope) {i : Import} (h : i.kind = .classes) :
    s.withImport i =
      ⟨s.space, s.aliases.filter (fun a => decide (¬ a.name.Same i.shortName)) ++
        [⟨i.shortName, i.name.dropLeading '\\'⟩]⟩ := by
  simp only [withImport, h]

theorem withImport_of_other (s : Scope) {i : Import} (h : i.kind ≠ .classes) :
    s.withImport i = s := by
  rw [withImport.eq_def]
  split
  · next hclasses => exact absurd hclasses h
  · rfl

theorem space_withImport (s : Scope) (i : Import) : (s.withImport i).space = s.space := by
  by_cases h : i.kind = .classes
  · rw [withImport_of_class s h]
  · rw [withImport_of_other s h]

/-- An import is the answer for its own alias, and no other alias notices it. -/
theorem target?_withImport (s : Scope) (i : Import) (word : Text) :
    (s.withImport i).target? word =
      ((Event.imported i).importedAs? word).or (s.target? word) := by
  by_cases hkind : i.kind = .classes
  · simp only [withImport_of_class s hkind, target?, Event.importedAs?, hkind, List.find?_append,
      List.find?_filter, true_and, decide_eq_true_eq]
    by_cases hsame : i.shortName.Same word
    · -- the older ones of the alias are gone
      have hold : (s.aliases.find? fun a =>
          decide (¬ a.name.Same i.shortName ∧ a.name.Same word)) = none := by
        rw [List.find?_eq_none]
        intro a _ ha
        obtain ⟨hother, hword⟩ := of_decide_eq_true ha
        exact hother (hword.trans hsame.symm)
      rw [hold]
      simp [hsame]
    · -- only others are gone
      have hold : (fun a : Alias => decide (¬ a.name.Same i.shortName ∧ a.name.Same word)) =
          fun a => decide (a.name.Same word) := by
        funext a
        refine decide_eq_decide.mpr (and_iff_right_of_imp fun hword hother => ?_)
        exact hsame (hother.symm.trans hword)
      rw [hold]
      simp [hsame]
  · simp [withImport_of_other s hkind, Event.importedAs?, hkind]

/-- No two imports have the same alias. -/
def Distinct (s : Scope) : Prop := s.aliases.Pairwise fun a b => ¬ a.name.Same b.name

theorem Distinct.withImport {s : Scope} (hs : s.Distinct) (i : Import) :
    (s.withImport i).Distinct := by
  by_cases hkind : i.kind = .classes
  · rw [withImport_of_class s hkind, Distinct, List.pairwise_append]
    refine ⟨hs.filter _, List.pairwise_singleton .., ?_⟩
    intro a ha b hb
    rw [List.mem_singleton.mp hb]
    simpa using (List.mem_filter.mp ha).2
  · rwa [withImport_of_other s hkind]

/-! ## What all events lead to -/

theorem distinct_ofEvents (events : List Event) : (ofEvents events).Distinct := by
  induction events using List.reverseRecOn with
  | nil => exact .nil
  | append_singleton events event ih =>
      rw [ofEvents_append_singleton]
      cases event with
      | enter name => exact .nil
      | imported i => exact ih.withImport i

theorem space_ofEvents (events : List Event) : (ofEvents events).space = lastSpace events := by
  induction events using List.reverseRecOn with
  | nil => rfl
  | append_singleton events event ih =>
      rw [ofEvents_append_singleton]
      cases event with
      | enter name =>
          rw [lastSpace_append_enter]
          rfl
      | imported i =>
          rw [lastSpace_append_imported, ← ih]
          exact space_withImport _ i

theorem target?_ofEvents (events : List Event) (word : Text) :
    (ofEvents events).target? word = lastImport? events word := by
  induction events using List.reverseRecOn with
  | nil => rfl
  | append_singleton events event ih =>
      rw [ofEvents_append_singleton]
      cases event with
      | enter name =>
          rw [lastImport?_append_enter]
          rfl
      | imported i =>
          rw [lastImport?_append_imported, ← ih]
          exact target?_withImport _ i word

/-! ## The rules for names -/

/-- A name below a namespace. -/
def inSpace (space : Option Text) (name : Text) : Text :=
  space.elim name fun space => space ++ '\\' :: name

theorem qualify_eq_inSpace (s : Scope) (name : Text) : s.qualify name = inSpace s.space name := by
  unfold qualify inSpace
  cases s.space <;> rfl

/-- A name of a first segment and a tail that has no backslash in front, is none of the special
words and does not begin with `namespace` as a segment. -/
structure Ordinary (first tail : Text) : Prop where
  segment : '\\' ∉ first
  form : tail = [] ∨ first ≠ [] ∧ ¬ first.Same "namespace".toList ∧ ∃ rest, tail = '\\' :: rest
  plain : (first ++ tail).isOneOf specialNames = false

/-- What a name means after events from the start of a file. -/
inductive Means (events : List Event) : Text → Text → Prop
  /-- A name behind a backslash is given in full. -/
  | full (rest : Text) : Means events ('\\' :: rest) rest
  /-- The special words stand for themselves. -/
  | special {word : Text} : word.isOneOf specialNames = true → Means events word word
  /-- The word `namespace` stands for the current namespace. -/
  | relative {first : Text} (rest : Text) : first.Same "namespace".toList →
      Means events (first ++ '\\' :: rest) (inSpace (lastSpace events) rest)
  /-- The first segment is an alias in the current namespace. -/
  | imported {first tail target : Text} : Ordinary first tail →
      lastImport? events first = some target → Means events (first ++ tail) (target ++ tail)
  /-- All else is below the current namespace. -/
  | other {first tail : Text} : Ordinary first tail → lastImport? events first = none →
      Means events (first ++ tail) (inSpace (lastSpace events) (first ++ tail))

/-- The two rules for other names, in one. -/
theorem resolve_of_ordinary {s : Scope} {first tail : Text} (h : Ordinary first tail) :
    s.resolve (first ++ tail) =
      ((s.target? first).map (· ++ tail)).getD (s.qualify (first ++ tail)) := by
  rcases h.form with rfl | ⟨hne, hnamespace, rest, rfl⟩
  · have hword := h.plain
    rw [List.append_nil] at hword ⊢
    rw [resolve_word h.segment hword]
    simp
  · rw [resolve_path hne h.segment, if_neg hnamespace]

variable {events : List Event}

theorem Means.resolve_eq {name full : Text} (h : Means events name full) :
    (ofEvents events).resolve name = full := by
  cases h with
  | full rest => rfl
  | special hword => exact resolve_of_isOneOf hword
  | relative rest hfirst => rw [resolve_relative hfirst, qualify_eq_inSpace, space_ofEvents]
  | imported hname htarget => simp [resolve_of_ordinary hname, target?_ofEvents, htarget]
  | other hname htarget =>
      simp [resolve_of_ordinary hname, target?_ofEvents, htarget, qualify_eq_inSpace, space_ofEvents]

theorem exists_means_of_ordinary {first tail : Text} (h : Ordinary first tail) :
    ∃ full, Means events (first ++ tail) full := by
  cases htarget : lastImport? events first with
  | none => exact ⟨_, .other h htarget⟩
  | some target => exact ⟨_, .imported h htarget⟩

/-- Every name has a meaning. -/
theorem exists_means (events : List Event) (name : Text) : ∃ full, Means events name full := by
  rcases Text.path_cases name with ⟨rest, rfl⟩ | hmark | ⟨first, rest, hne, hmark, rfl⟩
  · exact ⟨rest, .full rest⟩
  · cases hword : name.isOneOf specialNames with
    | true => exact ⟨name, .special hword⟩
    | false =>
        have hname : Ordinary name [] := ⟨hmark, .inl rfl, by simpa using hword⟩
        have hfull : ∃ full, Means events (name ++ []) full := exists_means_of_ordinary hname
        simpa using hfull
  · by_cases hfirst : Text.Same first "namespace".toList
    · exact ⟨_, .relative rest hfirst⟩
    · refine exists_means_of_ordinary ⟨hmark, .inr ⟨hne, hfirst, rest, rfl⟩, ?_⟩
      exact isOneOf_specialNames_of_mem (List.mem_append_right _ List.mem_cons_self)

theorem means_iff {name full : Text} :
    Means events name full ↔ (ofEvents events).resolve name = full := by
  refine ⟨Means.resolve_eq, ?_⟩
  rintro rfl
  obtain ⟨full, hfull⟩ := exists_means events name
  rwa [hfull.resolve_eq]

/-- After any events no two imports have the same alias, and a name is resolved by the rules over
these events.  Names that differ in case only are resolved to such names. -/
theorem resolve_follows_history (events : List Event) :
    ((ofEvents events).aliases.Pairwise fun a b => ¬ a.name.Same b.name) ∧
    (∀ name full, (ofEvents events).resolve name = full ↔ Means events name full) ∧
    ∀ a b : Text, a.Same b → ((ofEvents events).resolve a).Same ((ofEvents events).resolve b) := by
  refine ⟨distinct_ofEvents events, ?_, ?_⟩
  · intro name full
    exact means_iff.symm
  · intro a b hsame
    exact resolve_same hsame

/-- `namespace Old; use Old\Lib as T; namespace App; use Lib\Text as T; use function Lib\text as t;
use \Lib\Line as t;` -/
def renamedEvents : List Event :=
  [.enter (some "Old".toList), .imported ⟨.classes, "Old\\Lib".toList, "T".toList⟩,
    .enter (some "\\App".toList), .imported ⟨.classes, "Lib\\Text".toList, "T".toList⟩,
    .imported ⟨.functions, "Lib\\text".toList, "t".toList⟩,
    .imported ⟨.classes, "\\Lib\\Line".toList, "t".toList⟩]

/-- The last import under a name counts, whatever its case of letters is; those of the namespace
before and those of functions do not. -/
theorem resolve_follows_history_renamed :
    Means renamedEvents "T\\Part".toList "Lib\\Line\\Part".toList ∧
      (ofEvents renamedEvents).resolve "T\\Part".toList = "Lib\\Line\\Part".toList ∧
      (ofEvents renamedEvents).resolve "NAMESPACE\\T".toList = "App\\T".toList ∧
      Text.Same "t\\PART".toList "T\\Part".toList ∧
      ((ofEvents renamedEvents).resolve "t\\PART".toList).Same "Lib\\Line\\Part".toList := by
  obtain ⟨-, hmeans, hsame⟩ := resolve_follows_history renamedEvents
  have hname : Ordinary "T".toList "\\Part".toList :=
    ⟨by decide, .inr ⟨by decide, by decide, "Part".toList, rfl⟩, by decide⟩
  have hpart : Means renamedEvents "T\\Part".toList "Lib\\Line\\Part".toList :=
    @Means.imported renamedEvents _ _ "Lib\\Line".toList hname (by decide)
  have hrelative : Means renamedEvents "NAMESPACE\\T".toList "App\\T".toList :=
    @Means.relative renamedEvents "NAMESPACE".toList "T".toList (by decide)
  have hresolve := (hmeans _ _).mpr hpart
  have hcase : Text.Same "t\\PART".toList "T\\Part".toList := by decide
  refine ⟨hpart, hresolve, (hmeans _ _).mpr hrelative, hcase, ?_⟩
  exact hresolve ▸ hsame _ _ hcase

end Scope

end NativeHints
