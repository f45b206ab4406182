import NativeHints.Php.Rule

/-!
# What a rule can read

`Derives grammar r f` says that a rule can read a forest, whatever stands in
front of it and behind it, and whichever alternatives come first.  It forgets
the tokens that a rule only looks at.

Running a rule stays inside this relation (`obeys_read`), and takes the tokens
of the forest it gives from the front of the list.  So what holds of every
forest that the rules of a grammar derive holds of every file that is read.
-/

namespace NativeHints

namespace Php

variable {σ : Type}

/-- The forests that a rule can read. -/
inductive Derives (grammar : σ → Rule σ) : Rule σ → Forest → Prop where
  | token {t : Terminal} {u : Token} :
      t.accepts u = true → Derives grammar (.token t) (.leaf u .nil)
  | empty : Derives grammar .empty .nil
  | seq {a b : Rule σ} {f g : Forest} :
      Derives grammar a f → Derives grammar b g → Derives grammar (.seq a b) (f ++ g)
  | altLeft {a b : Rule σ} {f : Forest} : Derives grammar a f → Derives grammar (.alt a b) f
  | altRight {a b : Rule σ} {f : Forest} : Derives grammar b f → Derives grammar (.alt a b) f
  | manyNil {r : Rule σ} : Derives grammar (.many r) .nil
  | manyCons {r : Rule σ} {f g : Forest} :
      Derives grammar r f → Derives grammar (.many r) g → Derives grammar (.many r) (f ++ g)
  | unless {r : Rule σ} : Derives grammar (.unless r) .nil
  | fresh : Derives grammar .fresh .nil
  | node {k : NodeKind} {r : Rule σ} {f : Forest} :
      Derives grammar r f → Derives grammar (.node k r) (.node k f .nil)
  | group {r : Rule σ} {f : Forest} :
      Derives grammar r f → Derives grammar (.group r) f.grouped
  | symbol {s : σ} {f : Forest} : Derives grammar (grammar s) f → Derives grammar (.symbol s) f

/-! ## Running a rule -/

/-- A reader that takes only what a rule derives. -/
def Reader.Obeys (grammar : σ → Rule σ) (r : Rule σ) (reader : Reader) : Prop :=
  ∀ ts f rest, reader ts = some (f, rest) → Derives grammar r f ∧ ts = f.tokens ++ rest

namespace Reader.Obeys

variable {grammar : σ → Rule σ} {a b r : Rule σ} {reader second : Reader}

theorem andThen (ha : Obeys grammar a reader) (hb : Obeys grammar b second) :
    Obeys grammar (.seq a b) (Reader.andThen reader second) := by
  intro ts f rest h
  unfold Reader.andThen at h
  split at h
  · simp at h
  · next f₁ rest₁ h₁ =>
      obtain ⟨⟨f₂, rest₂⟩, h₂, heq⟩ := Option.map_eq_some_iff.mp h
      obtain ⟨rfl, rfl⟩ := Prod.mk.inj heq
      obtain ⟨hd₁, rfl⟩ := ha _ _ _ h₁
      obtain ⟨hd₂, rfl⟩ := hb _ _ _ h₂
      exact ⟨.seq hd₁ hd₂, by simp⟩

theorem repeated (h : Obeys grammar r reader) (n : Nat) :
    Obeys grammar (.many r) (Reader.repeated reader n) := by
  induction n with
  | zero =>
      rintro ts f rest ⟨⟩
      exact ⟨.manyNil, rfl⟩
  | succ n ih =>
      intro ts f rest hread
      unfold Reader.repeated at hread
      split at hread
      · cases hread
        exact ⟨.manyNil, rfl⟩
      · next f₁ rest₁ h₁ =>
          obtain ⟨⟨f₂, rest₂⟩, h₂, heq⟩ := Option.map_eq_some_iff.mp hread
          obtain ⟨rfl, rfl⟩ := Prod.mk.inj heq
          obtain ⟨hd₁, rfl⟩ := h _ _ _ h₁
          obtain ⟨hd₂, rfl⟩ := ih _ _ _ h₂
          exact ⟨.manyCons hd₁ hd₂, by simp⟩

end Reader.Obeys

theorem Forest.tokens_grouped (f : Forest) : f.grouped.tokens = f.tokens := by
  unfold grouped
  split <;> simp [tokens]

/-- Running a rule is running what it derives, if that is so for symbols. -/
theorem obeys_read {grammar : σ → Rule σ} (bound : Nat) {call : σ → Reader}
    (hcall : ∀ s, (call s).Obeys grammar (.symbol s)) (r : Rule σ) :
    Reader.Obeys grammar r (r.read bound call) := by
  induction r with
  | token t =>
      intro ts f rest h
      cases ts with
      | nil => simp [Rule.read, Reader.token] at h
      | cons u ts =>
          simp only [Rule.read, Reader.token] at h
          split at h
          · next hu =>
              cases h
              exact ⟨.token hu, rfl⟩
          · simp at h
  | empty =>
      rintro ts f rest ⟨⟩
      exact ⟨.empty, rfl⟩
  | seq a b iha ihb => exact iha.andThen ihb
  | alt a b iha ihb =>
      intro ts f rest h
      simp only [Rule.read] at h
      split at h
      · next found hfound =>
          cases h
          exact (iha _ _ _ hfound).imp_left .altLeft
      · exact (ihb _ _ _ h).imp_left .altRight
  | many r ih => exact ih.repeated bound
  | «unless» r _ =>
      intro ts f rest h
      simp only [Rule.read] at h
      split at h
      · simp at h
      · cases h
        exact ⟨.unless, rfl⟩
  | fresh =>
      intro ts f rest h
      cases ts with
      | nil => simp [Rule.read, Reader.beforeFresh] at h
      | cons u ts =>
          simp only [Rule.read, Reader.beforeFresh] at h
          split at h
          · cases h
            exact ⟨.fresh, rfl⟩
          · simp at h
  | node k r ih =>
      intro ts f rest h
      obtain ⟨⟨g, rest'⟩, hg, heq⟩ := Option.map_eq_some_iff.mp h
      obtain ⟨rfl, rfl⟩ := Prod.mk.inj heq
      obtain ⟨hd, rfl⟩ := ih _ _ _ hg
      exact ⟨.node hd, by simp [Forest.tokens]⟩
  | group r ih =>
      intro ts f rest h
      obtain ⟨⟨g, rest'⟩, hg, heq⟩ := Option.map_eq_some_iff.mp h
      obtain ⟨rfl, rfl⟩ := Prod.mk.inj heq
      obtain ⟨hd, rfl⟩ := ih _ _ _ hg
      exact ⟨.group hd, by simp [Forest.tokens_grouped]⟩
  | symbol s => exact hcall s

theorem obeys_readSymbol (grammar : σ → Rule σ) (n : Nat) (s : σ) :
    Reader.Obeys grammar (.symbol s) (Rule.readSymbol grammar n s) := by
  induction n generalizing s with
  | zero =>
      intro ts f rest h
      simp [Rule.readSymbol] at h
  | succ n ih =>
      intro ts f rest h
      exact (obeys_read n ih (grammar s) _ _ _ h).imp_left .symbol

end Php

end NativeHints
