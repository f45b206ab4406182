import Mathlib.Data.List.Dedup
import NativeHints.Proofs.Search

/-!
# Where the search for signatures gets

The search for a signature turns back at a class that is already on the way.
Here parents may form cycles, and still nothing is missed.

`Graph.Answers` is the search without a bound on its steps, as a relation.  It
counts how deep the calls lie inside each other.  The classes on the way are
distinct and known, so the calls cannot lie deeper than there are known classes,
and one more (`answers_searchSignature`).

`Graph.Reaches` says that a way up leads to a class with something to say about
the method.  A way that meets a class twice can be cut short at the second
meeting (`Reaches.around`).  So whatever can be reached at all is reached by a
way on which the search does not turn back.
-/

namespace NativeHints

namespace Graph

variable {g : Graph} {method : Text}

/-! ## The search without a bound -/

/-- What the search answers at a class, with the given classes on the way and its calls
at most so deep inside each other. -/
inductive Answers (g : Graph) (method : Text) :
    List Text → Text → Option Signature → Nat → Prop where
  /-- Nothing is known of the class. -/
  | unknown {visiting : List Text} {name : Text} {depth : Nat} :
      g.isKnown name = false → Answers g method visiting name none (depth + 1)
  /-- The class is on the way already. -/
  | turned {visiting : List Text} {name : Text} {depth : Nat} :
      lookupKey name ∈ visiting → Answers g method visiting name none (depth + 1)
  /-- The class is entered, and the search goes on above its known parents. -/
  | entered {visiting : List Text} {name : Text} {depth : Nat} (above : Text → Option Signature) :
      g.isKnown name = true → lookupKey name ∉ visiting →
      (∀ p ∈ g.parentsOf name, g.isKnown p = true →
        Answers g method (lookupKey name :: visiting) p (above p) depth) →
      Answers g method visiting name (g.signatureStep method above name) (depth + 1)

/-- A search has one answer. -/
theorem Answers.unique {visiting : List Text} {name : Text} {r r' : Option Signature}
    {depth depth' : Nat} (h : g.Answers method visiting name r depth)
    (h' : g.Answers method visiting name r' depth') : r = r' := by
  induction h generalizing r' depth' with
  | unknown hk =>
      cases h' with
      | unknown _ => rfl
      | turned _ => rfl
      | entered _ hk' _ _ => simp [hk] at hk'
  | turned hv =>
      cases h' with
      | unknown _ => rfl
      | turned _ => rfl
      | entered _ _ hv' _ => exact absurd hv hv'
  | entered above hk hv _ ih =>
      cases h' with
      | unknown hk' => simp [hk] at hk'
      | turned hv' => exact absurd hv' hv
      | entered above' _ _ hparents =>
          exact signatureStep_congr fun p hp hpk => ih p hp hpk (hparents p hp hpk)

/-- The number of known classes. -/
def knownCount (g : Graph) : Nat := g.knownKeys.dedup.length

/-- Distinct known classes are no more than there are. -/
theorem length_le_knownCount {keys : List Text} (hdistinct : keys.Nodup)
    (hknown : keys ⊆ g.knownKeys) : keys.length ≤ g.knownCount := by
  have hsub : keys ⊆ g.knownKeys.dedup := fun k hk => List.mem_dedup.mpr (hknown hk)
  exact (hdistinct.subperm hsub).length_le

theorem knownCount_le (g : Graph) : g.knownCount ≤ g.parents.length := by
  have h := (List.dedup_sublist g.knownKeys).length_le
  simpa [knownCount, knownKeys] using h

/-- The step: whatever number of steps `searchSignature` is given, it answers as the search
without a bound if the classes that are not on the way are fewer than the steps. -/
theorem answers_searchSignature {depth n : Nat} (hn : depth ≤ n) {visiting : List Text}
    {name : Text} (hdistinct : visiting.Nodup) (hknown : visiting ⊆ g.knownKeys)
    (hdepth : g.knownCount < depth + visiting.length) :
    g.Answers method visiting name (g.searchSignature method n visiting name) depth := by
  induction depth generalizing n visiting name with
  | zero =>
      have hle := length_le_knownCount hdistinct hknown
      omega
  | succ depth ih =>
      obtain ⟨n, rfl⟩ : ∃ k, n = k + 1 := ⟨n - 1, by omega⟩
      rw [searchSignature_succ]
      by_cases hk : g.isKnown name = true
      · by_cases hv : lookupKey name ∈ visiting
        · simp only [hv, List.contains_iff_mem.mpr, Bool.or_true, if_true]
          exact .turned hv
        · simp only [hk, hv, List.contains_iff_mem, Bool.not_true, Bool.false_or, if_false]
          refine .entered _ hk hv fun p _ _ => ih (by omega) ?_ ?_ ?_
          · exact List.nodup_cons.mpr ⟨hv, hdistinct⟩
          · exact List.cons_subset.mpr ⟨isKnown_iff.mp hk, hknown⟩
          · simp only [List.length_cons]
            omega
      · have hk' : g.isKnown name = false := by simpa using hk
        simp only [hk', Bool.not_false, Bool.true_or, if_true]
        exact .unknown hk'

/-! ## Ways up -/

/-- A class has something to say about a method: it documents it, or a parent outside
the code base is a built-in class that has it. -/
def Documents (g : Graph) (method name : Text) : Prop :=
  (g.ownSignature? name method).isSome = true ∨
    ∃ p ∈ g.parentsOf name, g.isKnown p = false ∧ (Builtin.signature? p method).isSome = true

theorem documents_of_key {a b : Text} (h : lookupKey a = lookupKey b)
    (ha : g.Documents method a) : g.Documents method b := by
  rw [Documents, ownSignature?_of_key g h, parentsOf_of_key g h] at ha
  exact ha

/-- A way up leads from a class to one that has something to say about a method, over known
classes that are not among the given ones. -/
inductive Reaches (g : Graph) (method : Text) (closed : List Text) : Text → Prop where
  /-- The class says something itself. -/
  | here {name : Text} : g.isKnown name = true → lookupKey name ∉ closed →
      g.Documents method name → Reaches g method closed name
  /-- The way goes on at a parent. -/
  | up {name p : Text} : g.isKnown name = true → lookupKey name ∉ closed →
      p ∈ g.parentsOf name → Reaches g method closed p → Reaches g method closed name

theorem Reaches.isKnown {closed : List Text} {name : Text} (h : g.Reaches method closed name) :
    g.isKnown name = true := by
  cases h with
  | here hk _ _ => exact hk
  | up hk _ _ _ => exact hk

theorem Reaches.not_mem {closed : List Text} {name : Text} (h : g.Reaches method closed name) :
    lookupKey name ∉ closed := by
  cases h with
  | here _ hv _ => exact hv
  | up _ hv _ _ => exact hv

theorem Reaches.mono {closed closed' : List Text} (hsub : closed ⊆ closed') {name : Text}
    (h : g.Reaches method closed' name) : g.Reaches method closed name := by
  induction h with
  | here hk hv hd => exact .here hk (fun hmem => hv (hsub hmem)) hd
  | up hk hv hp _ ih => exact .up hk (fun hmem => hv (hsub hmem)) hp ih

/-- A way up from anywhere keeps clear of a class, or that class has a way of its own on
which it is not met again. -/
theorem Reaches.around {closed : List Text} {name : Text} (h : g.Reaches method closed name)
    (c : Text) :
    g.Reaches method (lookupKey c :: closed) name ∨ g.Documents method c ∨
      ∃ p ∈ g.parentsOf c, g.Reaches method (lookupKey c :: closed) p := by
  induction h with
  | @here name hk hv hd =>
      by_cases hc : lookupKey name = lookupKey c
      · exact .inr (.inl (documents_of_key hc hd))
      · exact .inl (.here hk (by simp [hc, hv]) hd)
  | @up name p hk hv hp _ ih =>
      rcases ih with hclear | hown
      · -- the way above is clear, so only this class can be the given one
        by_cases hc : lookupKey name = lookupKey c
        · rw [parentsOf_of_key g hc] at hp
          exact .inr (.inr ⟨p, hp, hclear⟩)
        · exact .inl (.up hk (by simp [hc, hv]) hp hclear)
      · exact .inr hown

/-- A class that is entered reaches what it says itself, or what a parent reaches without
coming back to it. -/
theorem reaches_iff_of_open {closed : List Text} {name : Text} (hk : g.isKnown name = true)
    (hv : lookupKey name ∉ closed) :
    g.Reaches method closed name ↔ g.Documents method name ∨
      ∃ p ∈ g.parentsOf name, g.Reaches method (lookupKey name :: closed) p := by
  constructor
  · intro h
    rcases h.around name with hclear | hrest
    · exact absurd (List.mem_cons_self ..) hclear.not_mem
    · exact hrest
  · rintro (hd | ⟨p, hp, hup⟩)
    · exact .here hk hv hd
    · exact .up hk hv hp (hup.mono (List.subset_cons_self ..))

/-! ## The search finds what can be reached -/

theorem isSome_combine (own inherited : Option Signature) :
    (combine own inherited).isSome = (own.isSome || inherited.isSome) := by
  cases own <;> cases inherited <;> rfl

/-- A step of the search gives something if the class says something itself, or if
something is found above a known parent. -/
theorem isSome_signatureStep (hm : isConstructor method = false)
    (above : Text → Option Signature) (name : Text) :
    (g.signatureStep method above name).isSome = true ↔ g.Documents method name ∨
      ∃ p ∈ g.parentsOf name, g.isKnown p = true ∧ (above p).isSome = true := by
  simp only [signatureStep, hm, Bool.false_eq_true, if_false, isSome_combine, Bool.or_eq_true,
    List.findSome?_isSome_iff, Documents]
  constructor
  · rintro (hown | ⟨p, hp, hdown⟩)
    · exact .inl (.inl hown)
    · cases hk : g.isKnown p with
      | true => exact .inr ⟨p, hp, hk, by simpa [handedDown, hk] using hdown⟩
      | false => exact .inl (.inr ⟨p, hp, hk, by simpa [handedDown, hk] using hdown⟩)
  · rintro ((hown | ⟨p, hp, hk, hbuiltin⟩) | ⟨p, hp, hk, habove⟩)
    · exact .inl hown
    · exact .inr ⟨p, hp, by simpa [handedDown, hk] using hbuiltin⟩
    · exact .inr ⟨p, hp, by simpa [handedDown, hk] using habove⟩

/-- The run: the search answers with something exactly if a way up leads to something. -/
theorem Answers.isSome_iff (hm : isConstructor method = false) {visiting : List Text}
    {name : Text} {r : Option Signature} {depth : Nat}
    (h : g.Answers method visiting name r depth) :
    r.isSome = true ↔ g.Reaches method visiting name := by
  induction h with
  | unknown hk =>
      refine ⟨fun hsome => (Bool.false_ne_true hsome).elim, fun hreach => ?_⟩
      exact absurd hreach.isKnown (by simp [hk])
  | turned hv =>
      refine ⟨fun hsome => (Bool.false_ne_true hsome).elim, fun hreach => ?_⟩
      exact absurd hv hreach.not_mem
  | entered above hk hv _ ih =>
      rw [isSome_signatureStep hm, reaches_iff_of_open hk hv]
      refine or_congr_right (exists_congr fun p => and_congr_right fun hp => ?_)
      constructor
      · rintro ⟨hpk, hsome⟩
        exact (ih p hp hpk).mp hsome
      · intro hreach
        exact ⟨hreach.isKnown, (ih p hp hreach.isKnown).mpr hreach⟩

/-- A known class stands among the parents of another. -/
def KnownParent (g : Graph) (name parent : Text) : Prop :=
  parent ∈ g.parentsOf name ∧ g.isKnown parent = true

/-- Without closed classes, a way up is any path over known classes. -/
theorem reaches_nil_iff {name : Text} :
    g.Reaches method [] name ↔ g.isKnown name = true ∧
      ∃ last, Relation.ReflTransGen g.KnownParent name last ∧ g.Documents method last := by
  constructor
  · intro h
    refine ⟨h.isKnown, ?_⟩
    induction h with
    | @here name _ _ hd => exact ⟨name, .refl, hd⟩
    | up _ _ hp hup ih =>
        obtain ⟨last, hpath, hd⟩ := ih
        exact ⟨last, .head ⟨hp, hup.isKnown⟩ hpath, hd⟩
  · rintro ⟨hk, last, hpath, hd⟩
    induction hpath using Relation.ReflTransGen.head_induction_on with
    | refl => exact .here hk List.not_mem_nil hd
    | head hstep _ ih => exact .up hk List.not_mem_nil hstep.1 (ih hstep.2)

/-- A constructor is only looked for in the class itself. -/
theorem isSome_signature?_constructor (hm : isConstructor method = true) (name : Text) :
    (g.signature? name method).isSome = true ↔
      g.isKnown name = true ∧ (g.ownSignature? name method).isSome = true := by
  rw [signature?, searchSignature_succ]
  cases hk : g.isKnown name with
  | true => simp [signatureStep, hm]
  | false => simp

/-- The search for a signature ends on every hierarchy, at most one call deeper than there
are known classes, and it misses nothing.  A method has an effective signature exactly if
its class is known and a path of known classes leads from there to one that documents
the method or has a built-in parent with it.  A constructor has one exactly if the known
class documents it. -/
theorem signature_search_complete (g : Graph) (name method : Text) :
    g.Answers method [] name (g.signature? name method) (g.knownCount + 1) ∧
    (∀ r depth, g.Answers method [] name r depth → r = g.signature? name method) ∧
    ((g.signature? name method).isSome = true ↔ g.isKnown name = true ∧
      if isConstructor method then (g.ownSignature? name method).isSome = true
      else ∃ last, Relation.ReflTransGen g.KnownParent name last ∧ g.Documents method last) := by
  have hsteps : g.knownCount + 1 ≤ g.parents.length + 1 := by
    have := knownCount_le g
    omega
  have hanswers : g.Answers method [] name (g.signature? name method) (g.knownCount + 1) :=
    answers_searchSignature hsteps List.nodup_nil (List.nil_subset _) (by simp)
  refine ⟨hanswers, fun r depth h => h.unique hanswers, ?_⟩
  cases hm : isConstructor method with
  | true => simpa using isSome_signature?_constructor hm name
  | false =>
      rw [hanswers.isSome_iff hm, reaches_nil_iff]
      simp

end Graph

end NativeHints
