import Mathlib.Data.List.TakeWhile
import NativeHints.Proofs.Spelling

/-!
# How names are resolved

The scope at a place is the outcome of *events*: namespaces entered and names
imported since the start of the file (`Scope.ofEvents`).

`Scope.resolve` looks at a name in one of three forms (`Text.path_cases`).  It
stands behind a backslash, or is a single word, or has a first segment and a rest
behind it.  Each form has its own equation here, and everything about the meaning
of names follows from these.  Case never matters: names that are the same up to
case mean the same up to case (`Scope.resolve_same`).
-/

namespace NativeHints

namespace Text

/-! ## The forms of a name -/

/-- A name stands behind a backslash, is a single word, or has a first segment. -/
theorem path_cases (t : Text) :
    (∃ rest, t = '\\' :: rest) ∨ '\\' ∉ t ∨
      ∃ first rest, first ≠ [] ∧ '\\' ∉ first ∧ t = first ++ '\\' :: rest := by
  by_cases hmem : '\\' ∈ t
  · obtain ⟨first, rest, rfl, hfirst⟩ := List.eq_append_cons_of_mem hmem
    cases first with
    | nil => exact .inl ⟨rest, rfl⟩
    | cons c first => exact .inr (.inr ⟨c :: first, rest, List.cons_ne_nil c first, hfirst, rfl⟩)
  · exact .inr (.inl hmem)

/-- A path with a first segment does not stand behind a backslash. -/
theorem path_ne_rooted {first : Text} (hne : first ≠ []) (hmark : '\\' ∉ first) (rest tail : Text) :
    first ++ '\\' :: rest ≠ '\\' :: tail := by
  intro heq
  obtain ⟨c, front, rfl⟩ := List.exists_cons_of_ne_nil hne
  obtain ⟨rfl, -⟩ := List.cons.inj heq
  exact hmark List.mem_cons_self

/-! ## Texts that are the same up to case -/

theorem Same.mem_iff {a b : Text} (h : Same a b) {c : Char} (hc : c.isAlpha = false) :
    c ∈ a ↔ c ∈ b := by
  rw [← mem_lower_iff hc, ← mem_lower_iff (t := b) hc, h]

theorem Same.append {a a' b b' : Text} (ha : Same a a') (hb : Same b b') :
    Same (a ++ '\\' :: b) (a' ++ '\\' :: b') := by
  have hlower : ∀ x y : Text, (x ++ '\\' :: y).lower = x.lower ++ '\\' :: y.lower := by
    intro x y
    rw [lower_append]
    rfl
  unfold Same
  rw [hlower, hlower, ha, hb]

/-- A text that is the same as one with a backslash in it has one at the same place. -/
theorem Same.split {a b t : Text} (h : Same (a ++ '\\' :: b) t) :
    ∃ a' b', t = a' ++ '\\' :: b' ∧ Same a a' ∧ Same b b' := by
  have hlower : t.lower = a.lower ++ '\\' :: b.lower := by
    rw [← h, lower_append]
    rfl
  obtain ⟨a', m, rfl, ha, hm⟩ := List.map_eq_append_iff.mp hlower
  obtain ⟨c, b', rfl, hc, hb⟩ := List.map_eq_cons_iff.mp hm
  obtain rfl : c = '\\' := (toLower_eq_iff (by decide)).mp hc
  exact ⟨a', b', rfl, ha.symm, hb.symm⟩

theorem toLower_of_not_upper {c : Char} (h : ¬ (65 ≤ c.toNat ∧ c.toNat ≤ 90)) : c.toLower = c := by
  rw [← Char.toNat_inj, toNat_toLower, if_neg h]

theorem isAlpha_toLower {c : Char} (h : c.isAlpha = true) : c.toLower.isAlpha = true := by
  by_cases hupper : 65 ≤ c.toNat ∧ c.toNat ≤ 90
  · have hlower : 97 ≤ c.toLower.toNat ∧ c.toLower.toNat ≤ 122 := by
      rw [toNat_toLower, if_pos hupper]
      omega
    have hc : c.toLower.isLower = true :=
      Bool.and_eq_true_iff.mpr ⟨decide_eq_true hlower.1, decide_eq_true hlower.2⟩
    exact Bool.or_eq_true_iff.mpr (.inr hc)
  · rwa [toLower_of_not_upper hupper]

theorem isAlpha_of_toLower {c : Char} (h : c.toLower.isAlpha = true) : c.isAlpha = true := by
  by_cases hupper : 65 ≤ c.toNat ∧ c.toNat ≤ 90
  · have hc : c.isUpper = true := decide_eq_true hupper
    exact Bool.or_eq_true_iff.mpr (.inl hc)
  · rwa [toLower_of_not_upper hupper] at h

/-- Whatever is one of some words of letters is a word of letters. -/
theorem isAlpha_of_isOneOf {words : List Text}
    (hwords : ∀ word ∈ words, word ≠ [] ∧ word.all Char.isAlpha = true) {t : Text}
    (h : t.isOneOf words = true) : t ≠ [] ∧ ∀ c ∈ t, c.isAlpha = true := by
  obtain ⟨word, hword, hsame⟩ := List.any_eq_true.mp h
  have hlower : t.lower = word.lower := of_decide_eq_true hsame
  obtain ⟨hne, halpha⟩ := hwords word hword
  refine ⟨?_, fun c hc => isAlpha_of_toLower ?_⟩
  · rintro rfl
    exact hne (List.map_eq_nil_iff.mp hlower.symm)
  · have hmem : c.toLower ∈ word.lower := hlower ▸ List.mem_map_of_mem hc
    obtain ⟨d, hd, heq⟩ := List.mem_map.mp hmem
    rw [← heq]
    exact isAlpha_toLower (List.all_eq_true.mp halpha d hd)

theorem utf8Size_toLower (c : Char) : c.toLower.utf8Size = c.utf8Size := by
  by_cases hupper : 65 ≤ c.toNat ∧ c.toNat ≤ 90
  · have hlow : c.toLower.toNat ≤ 127 := by
      rw [toNat_toLower, if_pos hupper]
      omega
    have hsmall : ∀ d : Char, d.toNat ≤ 127 → d.utf8Size = 1 := by
      intro d hd
      have hval : d.val ≤ 127 := hd
      simp only [Char.utf8Size]
      exact if_pos hval
    rw [hsmall _ hlow, hsmall c (by omega)]
  · rw [toLower_of_not_upper hupper]

theorem size_lower (t : Text) : t.lower.size = t.size := by
  induction t with
  | nil => rfl
  | cons c t ih =>
      show size (c.toLower :: lower t) = size (c :: t)
      rw [size_cons, size_cons, utf8Size_toLower, ih]

theorem Same.length_eq {a b : Text} (h : Same a b) : a.length = b.length := by
  have hlengths := congrArg List.length h
  simpa only [lower, List.length_map] using hlengths

theorem Same.size_eq {a b : Text} (h : Same a b) : a.size = b.size := by
  rw [← size_lower a, ← size_lower b, h]

end Text

namespace Scope

/-! ## Events -/

/-- What changes the names in effect. -/
inductive Event where
  /-- A namespace is entered. -/
  | enter (name : Option Text)
  /-- Something is imported. -/
  | imported (clause : Import)

/-- The scope after an event. -/
def follow (s : Scope) : Event → Scope
  | .enter name => s.enter name
  | .imported clause => s.withImport clause

/-- The scope after events from the start of a file. -/
def ofEvents (events : List Event) : Scope := events.foldl follow start

theorem mem_aliases_withImport {s : Scope} {i : Import} {a : Alias}
    (h : a ∈ (s.withImport i).aliases) :
    a ∈ s.aliases ∨ a = ⟨i.shortName, i.name.dropLeading '\\'⟩ := by
  rw [withImport.eq_def] at h
  split at h
  · rcases List.mem_append.mp h with h | h
    · exact .inl (List.mem_filter.mp h).1
    · exact .inr (List.mem_singleton.mp h)
  · exact .inl h

/-- What one event leaves of the aliases, and what it adds. -/
theorem mem_aliases_follow {s : Scope} {event : Event} {a : Alias}
    (h : a ∈ (s.follow event).aliases) :
    a ∈ s.aliases ∨
      ∃ i, event = .imported i ∧ a = ⟨i.shortName, i.name.dropLeading '\\'⟩ := by
  cases event with
  | enter name => cases h
  | imported i =>
      rcases mem_aliases_withImport h with h | h
      · exact .inl h
      · exact .inr ⟨i, rfl, h⟩

/-- Every alias comes from an import. -/
theorem exists_import {events : List Event} {a : Alias} (h : a ∈ (ofEvents events).aliases) :
    ∃ i, .imported i ∈ events ∧ a = ⟨i.shortName, i.name.dropLeading '\\'⟩ := by
  have hgeneral : ∀ s : Scope, a ∈ (events.foldl follow s).aliases →
      a ∈ s.aliases ∨
        ∃ i, .imported i ∈ events ∧ a = ⟨i.shortName, i.name.dropLeading '\\'⟩ := by
    clear h
    induction events with
    | nil => exact fun s h => .inl h
    | cons event events ih =>
        intro s h
        rcases ih (s.follow event) h with h | ⟨i, hi, ha⟩
        · rcases mem_aliases_follow h with h | ⟨i, rfl, ha⟩
          · exact .inl h
          · exact .inr ⟨i, List.mem_cons_self, ha⟩
        · exact .inr ⟨i, List.mem_cons_of_mem _ hi, ha⟩
  rcases hgeneral start h with h | h
  · cases h
  · exact h

/-! ## The meaning of a name, form by form -/

variable {s : Scope}

theorem exists_of_target? {first target : Text} (h : s.target? first = some target) :
    ∃ a ∈ s.aliases, a.name.Same first ∧ a.target = target := by
  obtain ⟨a, ha, htarget⟩ := Option.map_eq_some_iff.mp h
  have hname := List.find?_some ha
  exact ⟨a, List.mem_of_find?_eq_some ha, of_decide_eq_true hname, htarget⟩

/-- Only outside of a namespace does a name stay a single word. -/
theorem qualify_of_not_mem {name : Text} (h : '\\' ∉ s.qualify name) :
    s.space = none ∧ s.qualify name = name := by
  unfold qualify at *
  split at h
  · exact absurd (List.mem_append_right _ List.mem_cons_self) h
  · next hspace => exact ⟨hspace, rfl⟩

theorem isOneOf_specialNames_of_mem {name : Text} (h : '\\' ∈ name) :
    name.isOneOf specialNames = false := by
  have hplain : ∀ word ∈ specialNames, '\\' ∉ word := by decide
  rw [Text.isOneOf, List.any_eq_false]
  intro word hword hsame
  exact hplain word hword (((of_decide_eq_true hsame).mem_iff (by decide)).mp h)

theorem resolve_of_isOneOf {name : Text} (h : name.isOneOf specialNames = true) :
    s.resolve name = name := by
  cases name with
  | nil => cases h
  | cons c t =>
      have hc : c ≠ '\\' := by
        rintro rfl
        rw [isOneOf_specialNames_of_mem List.mem_cons_self] at h
        cases h
      rw [resolve.eq_2 s _ (fun rest heq => hc (List.cons.inj heq).1), if_pos h]

/-- A word is an alias or the name of a class in the namespace. -/
theorem resolve_word {word : Text} (hmark : '\\' ∉ word)
    (hspecial : word.isOneOf specialNames = false) :
    s.resolve word = (s.target? word).getD (s.qualify word) := by
  have hroot : ∀ rest, word ≠ '\\' :: rest := by
    rintro rest rfl
    exact hmark List.mem_cons_self
  rw [resolve.eq_2 s word hroot, hspecial, if_neg Bool.false_ne_true,
    Text.splitAtFirst?_of_not_mem hmark]
  show s.resolveSegments word word none = _
  rw [resolveSegments.eq_def]
  cases s.target? word <;> rfl

/-- A first segment is the word `namespace`, an alias, or below the namespace. -/
theorem resolve_path {first : Text} (hne : first ≠ []) (hmark : '\\' ∉ first) (rest : Text) :
    s.resolve (first ++ '\\' :: rest) =
      if first.Same "namespace".toList then s.qualify rest
      else ((s.target? first).map (· ++ '\\' :: rest)).getD
        (s.qualify (first ++ '\\' :: rest)) := by
  have hspecial : (first ++ '\\' :: rest).isOneOf specialNames = false :=
    isOneOf_specialNames_of_mem (List.mem_append_right _ List.mem_cons_self)
  rw [resolve.eq_2 s _ (Text.path_ne_rooted hne hmark rest), hspecial, if_neg Bool.false_ne_true,
    Text.splitAtFirst?_append hmark]
  show (if first.Same "namespace".toList then s.qualify rest
    else s.resolveSegments (first ++ '\\' :: rest) first (some rest)) = _
  rw [resolveSegments.eq_def]
  cases s.target? first <;> rfl

/-- Below the word `namespace` a name is put into the current namespace. -/
theorem resolve_relative {first : Text} (h : first.Same "namespace".toList)
    (rest : Text) : s.resolve (first ++ '\\' :: rest) = s.qualify rest := by
  have hmark : '\\' ∉ first := fun hmem => absurd ((h.mem_iff (by decide)).mp hmem) (by decide)
  have hne : first ≠ [] := by
    rintro rfl
    exact absurd h (by decide)
  rw [resolve_path hne hmark, if_pos h]

/-- What a name is that means a single word: the word in full, an alias of it or the word
itself, or the word below `namespace` outside of any namespace. -/
theorem resolve_eq_word {name : Text} (h : '\\' ∉ s.resolve name) :
    name = '\\' :: s.resolve name ∨
      '\\' ∉ name ∧ (s.resolve name = name ∨ ∃ a ∈ s.aliases, a.target = s.resolve name) ∨
      s.space = none ∧
        ∃ first, first.Same "namespace".toList ∧ name = first ++ '\\' :: s.resolve name := by
  rcases Text.path_cases name with ⟨rest, rfl⟩ | hmark | ⟨first, rest, hne, hmark, rfl⟩
  · exact .inl rfl
  · refine .inr (.inl ⟨hmark, ?_⟩)
    cases hspecial : name.isOneOf specialNames with
    | true => exact .inl (resolve_of_isOneOf hspecial)
    | false =>
        rw [resolve_word hmark hspecial] at h ⊢
        cases htarget : s.target? name with
        | none =>
            rw [htarget] at h
            exact .inl (qualify_of_not_mem h).2
        | some target =>
            obtain ⟨a, ha, -, rfl⟩ := exists_of_target? htarget
            exact .inr ⟨a, ha, rfl⟩
  · have hrest : '\\' ∈ first ++ '\\' :: rest := List.mem_append_right _ List.mem_cons_self
    rw [resolve_path hne hmark] at h ⊢
    split at h
    · next hnamespace =>
        obtain ⟨hspace, hword⟩ := qualify_of_not_mem h
        exact .inr (.inr ⟨hspace, first, hnamespace, by rw [if_pos hnamespace, hword]⟩)
    · -- all else has a backslash in it
      exfalso
      cases htarget : s.target? first with
      | none =>
          rw [htarget] at h
          have hword : s.qualify (first ++ '\\' :: rest) = _ := (qualify_of_not_mem h).2
          exact h (hword.symm ▸ hrest)
      | some target =>
          rw [htarget] at h
          exact h (List.mem_append_right _ List.mem_cons_self)

/-! ## Case does not matter -/

theorem target?_same {a b : Text} (h : a.Same b) : s.target? a = s.target? b := by
  have htest : (fun x : Alias => decide (x.name.Same a)) = fun x => decide (x.name.Same b) :=
    funext fun x => decide_eq_decide.mpr
      ⟨fun hx => hx.trans h, fun hx => hx.trans h.symm⟩
  rw [target?, target?, htest]

theorem qualify_same {a b : Text} (h : a.Same b) : (s.qualify a).Same (s.qualify b) := by
  unfold qualify
  split
  · exact (Text.Same.refl _).append h
  · exact h

/-- Names that are the same up to case mean the same up to case. -/
theorem resolve_same {a b : Text} (h : a.Same b) : (s.resolve a).Same (s.resolve b) := by
  rcases Text.path_cases a with ⟨rest, rfl⟩ | hmark | ⟨first, rest, hne, hmark, rfl⟩
  · obtain ⟨front, rest', rfl, hfront, hrest⟩ := h.split (a := [])
    obtain rfl : front = [] := List.map_eq_nil_iff.mp hfront.symm
    exact hrest
  · have hmark' : '\\' ∉ b := fun hb => hmark ((h.mem_iff (by decide)).mpr hb)
    cases hspecial : a.isOneOf specialNames with
    | true =>
        have hspecial' := hspecial
        rw [h.isOneOf_eq] at hspecial'
        rw [resolve_of_isOneOf hspecial, resolve_of_isOneOf hspecial']
        exact h
    | false =>
        have hspecial' := hspecial
        rw [h.isOneOf_eq] at hspecial'
        rw [resolve_word hmark hspecial, resolve_word hmark' hspecial', target?_same h]
        cases s.target? b with
        | none => exact qualify_same h
        | some target => exact .refl target
  · obtain ⟨first', rest', rfl, hfirst, hrest⟩ := h.split
    have hmark' : '\\' ∉ first' := fun hb => hmark ((hfirst.mem_iff (by decide)).mpr hb)
    have hne' : first' ≠ [] := by
      rintro rfl
      exact hne (List.map_eq_nil_iff.mp hfirst)
    rw [resolve_path hne hmark, resolve_path hne' hmark', target?_same hfirst,
      if_congr (hfirst.left_iff _) rfl rfl]
    split
    · exact qualify_same hrest
    · cases s.target? first' with
      | none => exact qualify_same h
      | some target => exact (Text.Same.refl target).append hrest

end Scope

end NativeHints
