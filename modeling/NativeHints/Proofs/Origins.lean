import Mathlib.Data.Finset.Card
import NativeHints.Proofs.Names
import NativeHints.Proofs.Reaching

/-!
# Where effective types come from

The search for a signature carries a bound and the classes on the way.  On a
hierarchy without cycles both can be left out: the search is the plain recursion
over parents (`Graph.plainSignature?`).  That recursion ends because a known
parent has fewer known classes above it than its child
(`Acyclic.card_ancestorKeys_lt`).

On any hierarchy, an effective signature is made of types that were written down
somewhere, each at the slot where it was written.  What the class documents
itself stays as it is.  Everything else comes from a class further up or from a
built-in one, and is named by what it means there (`Graph.Origin`).
-/

namespace NativeHints

open Relation (ReflTransGen TransGen)

open Signature (Slot)

/-! ## Built-in classes -/

namespace Builtin

/-- One built-in class has another among its parents. -/
def HasParent (name parent : Text) : Prop := parent ∈ parentsOf name

/-- What is found in a built-in class is the own signature of one above it. -/
theorem exists_own?_of_search {method : Text} {n : Nat} {name : Text} {s : Signature}
    (h : search method n name = some s) :
    ∃ ancestor, ReflTransGen HasParent name ancestor ∧ own? ancestor method = some s := by
  induction n generalizing name with
  | zero => exact ⟨name, .refl, h⟩
  | succ n ih =>
      rw [search] at h
      rcases Option.or_eq_some_iff.mp h with hown | ⟨-, habove⟩
      · exact ⟨name, .refl, hown⟩
      · obtain ⟨parent, hparent, hfound⟩ := List.exists_of_findSome?_eq_some habove
        obtain ⟨ancestor, hpath, hown⟩ := ih hfound
        exact ⟨ancestor, .head hparent hpath, hown⟩

/-- The types of built-in classes are named by what they mean. -/
theorem asResolved_of_own? {name method : Text} {s : Signature} (h : own? name method = some s)
    {i : Slot} {t : HintType} (ht : s.slot i = some t) : t.asResolved = t := by
  have hall : s.Over fun t => t.asResolved = t := over_own? (fun _ _ _ _ _ _ _ _ => rfl) h
  exact Signature.over_iff_slot.mp hall i t ht

end Builtin

namespace Graph

variable {g : Graph} {method : Text}

/-! ## Origins -/

/-- A signature that stands above a class. -/
inductive StandsAbove (g : Graph) (method name : Text) : Signature → Prop where
  /-- A known class further up documents it. -/
  | documented {ancestor : Text} {s : Signature} : TransGen g.KnownParent name ancestor →
      g.ownSignature? ancestor method = some s → StandsAbove g method name s
  /-- A built-in class has it, above a parent that is not known. -/
  | builtin {child parent ancestor : Text} {s : Signature} : ReflTransGen g.KnownParent name child →
      parent ∈ g.parentsOf child → g.isKnown parent = false →
      ReflTransGen Builtin.HasParent (parent.dropLeading '\\') ancestor →
      Builtin.own? ancestor method = some s → StandsAbove g method name s

/-- What stands above a known parent stands above the class. -/
theorem StandsAbove.up {name parent : Text} {s : Signature} (hp : g.KnownParent name parent)
    (h : g.StandsAbove method parent s) : g.StandsAbove method name s := by
  cases h with
  | documented hpath hown => exact .documented (.head hp hpath) hown
  | builtin hpath hparent hk hbuiltin hown =>
      exact .builtin (.head hp hpath) hparent hk hbuiltin hown

/-- Where a type at a slot of an effective signature comes from. -/
inductive Origin (g : Graph) (method name : Text) (i : Slot) (t : HintType) : Prop where
  /-- The class documents it. -/
  | own {s : Signature} : g.ownSignature? name method = some s → s.slot i = some t →
      Origin g method name i t
  /-- It means what stands at that slot above the class. -/
  | above {s : Signature} {u : HintType} : g.StandsAbove method name s → s.slot i = some u →
      t = u.asResolved → Origin g method name i t

/-- What comes from somewhere for a parent comes from above for the child. -/
theorem Origin.handedDown {name parent : Text} (hp : g.KnownParent name parent) {i : Slot}
    {t : HintType} (h : g.Origin method parent i t) : g.Origin method name i t.asResolved := by
  cases h with
  | own hown hslot => exact .above (.documented (.single hp) hown) hslot rfl
  | above hs hslot ht => exact .above (hs.up hp) hslot (by rw [ht]; rfl)

theorem combine_slot {own inherited : Option Signature} {s : Signature}
    (h : combine own inherited = some s) {i : Slot} {t : HintType} (ht : s.slot i = some t) :
    (∃ s', own = some s' ∧ s'.slot i = some t) ∨
      ∃ s', inherited = some s' ∧ s'.slot i = some t := by
  cases own with
  | none => exact .inr ⟨s, h, ht⟩
  | some s₁ =>
      cases inherited with
      | none => cases h; exact .inl ⟨s, rfl, ht⟩
      | some s₂ =>
          cases h
          rcases Signature.slot_merge s₁ s₂ i with hslot | hslot
          · exact .inl ⟨s₁, rfl, hslot.symm.trans ht⟩
          · exact .inr ⟨s₂, rfl, hslot.symm.trans ht⟩

/-- The step: a class adds what it documents to what comes down from its parents. -/
theorem origin_of_signatureStep {above : Text → Option Signature} {name : Text}
    (habove : ∀ p ∈ g.parentsOf name, g.isKnown p = true → ∀ s, above p = some s →
      ∀ i t, s.slot i = some t → g.Origin method p i t)
    {s : Signature} (h : g.signatureStep method above name = some s) {i : Slot} {t : HintType}
    (ht : s.slot i = some t) : g.Origin method name i t := by
  simp only [signatureStep] at h
  split at h
  · exact .own h ht
  · rcases combine_slot h ht with ⟨own, hown, hslot⟩ | ⟨inherited, hinherited, hslot⟩
    · exact .own hown hslot
    · obtain ⟨p, hp, hdown⟩ := List.exists_of_findSome?_eq_some hinherited
      cases hk : g.isKnown p with
      | true =>
          simp only [handedDown, hk, if_true] at hdown
          obtain ⟨s', hs', rfl⟩ := Option.map_eq_some_iff.mp hdown
          rw [Signature.slot_asResolved] at hslot
          obtain ⟨u, hu, rfl⟩ := Option.map_eq_some_iff.mp hslot
          exact (habove p hp hk s' hs' i u hu).handedDown ⟨hp, hk⟩
      | false =>
          simp only [handedDown, hk, Bool.false_eq_true, if_false] at hdown
          obtain ⟨ancestor, hpath, hown⟩ := Builtin.exists_own?_of_search hdown
          exact .above (.builtin .refl hp hk hpath hown) hslot
            (Builtin.asResolved_of_own? hown hslot).symm

/-- The run: all types that the search gives have an origin. -/
theorem origin_of_searchSignature {n : Nat} {visiting : List Text} {name : Text} {s : Signature}
    (h : g.searchSignature method n visiting name = some s) {i : Slot} {t : HintType}
    (ht : s.slot i = some t) : g.Origin method name i t := by
  induction n generalizing visiting name s i t with
  | zero => cases h
  | succ n ih =>
      rw [searchSignature_succ] at h
      split at h
      · cases h
      · exact origin_of_signatureStep (fun p _ _ s' hs' i u hu => ih hs' hu) h ht

/-! ## The plain recursion -/

open Classical in
/-- The keys of the known classes above a class. -/
noncomputable def ancestorKeys (g : Graph) (name : Text) : Finset Text :=
  g.knownKeys.toFinset.filter fun key =>
    ∃ ancestor, lookupKey ancestor = key ∧ TransGen g.HasParent name ancestor

theorem mem_ancestorKeys {name key : Text} :
    key ∈ g.ancestorKeys name ↔ key ∈ g.knownKeys ∧
      ∃ ancestor, lookupKey ancestor = key ∧ TransGen g.HasParent name ancestor := by
  simp [ancestorKeys]

/-- Without cycles there are fewer known classes above a known parent than above its child,
since the parent itself is not among them. -/
theorem Acyclic.card_ancestorKeys_lt (hg : g.Acyclic) {name parent : Text}
    (hp : parent ∈ g.parentsOf name) (hk : g.isKnown parent = true) :
    (g.ancestorKeys parent).card < (g.ancestorKeys name).card := by
  have hstep : g.HasParent name parent := ⟨parent, hp, rfl⟩
  apply Finset.card_lt_card
  refine ⟨fun key hkey => ?_, fun hsub => ?_⟩
  · obtain ⟨hknown, ancestor, heq, hpath⟩ := mem_ancestorKeys.mp hkey
    exact mem_ancestorKeys.mpr ⟨hknown, ancestor, heq, .head hstep hpath⟩
  · have hmem : lookupKey parent ∈ g.ancestorKeys name :=
      mem_ancestorKeys.mpr ⟨isKnown_iff.mp hk, parent, rfl, .single hstep⟩
    obtain ⟨-, ancestor, heq, hpath⟩ := mem_ancestorKeys.mp (hsub hmem)
    exact hg parent (ancestor_of_key hpath heq)

/-- The effective signature by plain recursion over parents, which ends if there are no
cycles. -/
def plainSignature? (g : Graph) (hg : g.Acyclic) (method name : Text) : Option Signature :=
  if g.isKnown name then
    if isConstructor method then g.ownSignature? name method
    else
      combine (g.ownSignature? name method) <|
        (g.parentsOf name).attach.findSome? fun ⟨parent, _⟩ =>
          if _ : g.isKnown parent = true then
            (plainSignature? g hg method parent).map Signature.asResolved
          else Builtin.signature? parent method
  else none
termination_by (g.ancestorKeys name).card
decreasing_by exact hg.card_ancestorKeys_lt ‹_› ‹_›

theorem plainSignature?_eq (hg : g.Acyclic) (name : Text) :
    g.plainSignature? hg method name =
      if g.isKnown name then g.signatureStep method (g.plainSignature? hg method) name
      else none := by
  have hparents : (g.parentsOf name).attach.findSome?
        (g.handedDown method (g.plainSignature? hg method) ∘ Subtype.val) =
      (g.parentsOf name).findSome? (g.handedDown method (g.plainSignature? hg method)) := by
    rw [← List.findSome?_map, List.attach_map_subtype_val]
  rw [plainSignature?, signatureStep, ← hparents]
  simp only [dite_eq_ite]
  rfl

theorem signature?_eq_plainSignature? (hg : g.Acyclic) (name : Text) :
    g.signature? name method = g.plainSignature? hg method name := by
  induction hcount : (g.ancestorKeys name).card using Nat.strong_induction_on generalizing name with
  | _ n ih =>
      rw [signature?_of_acyclic hg, plainSignature?_eq]
      split
      · refine signatureStep_congr fun p hp hk => ?_
        exact ih _ (hcount ▸ hg.card_ancestorKeys_lt hp hk) p rfl
      · rfl

/-- The guards of the search for signatures do not show.  Without cycles the effective
signature is the one of the plain recursion over parents.  And on every hierarchy each of
its types comes from the same slot of a signature that the class documents or that stands
above it, with the same meaning and the same `null`.  Only a type of the class itself may be
named otherwise than by what it means. -/
theorem signature_search_transparent (g : Graph) (name method : Text) :
    (∀ hg : g.Acyclic, g.signature? name method = g.plainSignature? hg method name) ∧
    ∀ effective, g.signature? name method = some effective →
      ∀ (i : Slot) (t : HintType), effective.slot i = some t →
        ∃ s u, (g.ownSignature? name method = some s ∨ g.StandsAbove method name s) ∧
          s.slot i = some u ∧ t.resolved = u.resolved ∧ t.nullable = u.nullable ∧
          (t.declared = t.resolved ∨ g.ownSignature? name method = some s ∧ t = u) := by
  refine ⟨fun hg => signature?_eq_plainSignature? hg name, ?_⟩
  intro effective heffective i t ht
  cases origin_of_searchSignature heffective ht with
  | own hown hslot => exact ⟨_, t, .inl hown, hslot, rfl, rfl, .inr ⟨hown, rfl⟩⟩
  | above habove hslot hmeans =>
      subst hmeans
      exact ⟨_, _, .inr habove, hslot, rfl, rfl, .inl rfl⟩

/-- `D` has the parents `B` and `C`, and both of them have the parent `A`.  All but `B` document
the method `m`. -/
def diamond : Graph :=
  ⟨[("a".toList, ⟨"A".toList, none,
      [("m".toList, ⟨[some ⟨"self".toList, "A".toList, false⟩],
        some (.named "object".toList false)⟩)], []⟩),
    ("c".toList, ⟨"C".toList, some "A".toList,
      [("m".toList, ⟨[some (.named "C".toList false)], some (.named "C".toList false)⟩)], []⟩),
    ("d".toList, ⟨"D".toList, some "B".toList,
      [("m".toList, ⟨[none], some ⟨"self".toList, "D".toList, false⟩⟩)], []⟩)],
    [("a".toList, []), ("b".toList, ["A".toList]), ("c".toList, ["A".toList]),
      ("d".toList, ["B".toList, "C".toList])]⟩

/-- `A` and `B` are parents of each other, and `B` documents the method `m`. -/
def ring : Graph :=
  ⟨[("b".toList, ⟨"B".toList, some "A".toList,
      [("m".toList, ⟨[], some ⟨"self".toList, "B".toList, true⟩⟩)], []⟩)],
    [("a".toList, ["B".toList]), ("b".toList, ["A".toList])]⟩

/-- In the diamond, `D` has its parameter from `A` and its result of its own.  In the ring,
`A` has its result from `B`. -/
theorem signature_search_transparent_diamond :
    (∃ hg : diamond.Acyclic, diamond.plainSignature? hg "m".toList "D".toList =
      some ⟨[some (.named "A".toList false)], some ⟨"self".toList, "D".toList, false⟩⟩) ∧
    ∃ s u, (ring.ownSignature? "A".toList "m".toList = some s ∨
        ring.StandsAbove "m".toList "A".toList s) ∧
      s.slot .result = some u ∧ "B".toList = u.resolved ∧ true = u.nullable := by
  have hacyclic : diamond.Acyclic :=
    acyclic_of_rank
      (fun k => if k = "d".toList then 0 else if k = "a".toList then 2 else 1) (by decide)
  have hdiamond : diamond.signature? "D".toList "m".toList =
      some ⟨[some (.named "A".toList false)], some ⟨"self".toList, "D".toList, false⟩⟩ := by decide
  have hring : ring.signature? "A".toList "m".toList =
      some ⟨[], some (.named "B".toList true)⟩ := by decide
  refine ⟨⟨hacyclic, ?_⟩, ?_⟩
  · rw [← (signature_search_transparent diamond _ _).1 hacyclic]
    exact hdiamond
  · obtain ⟨s, u, hsource, hslot, hresolved, hnullable, -⟩ :=
      (signature_search_transparent ring _ _).2 _ hring .result (.named "B".toList true) rfl
    exact ⟨s, u, hsource, hslot, hresolved, hnullable⟩

end Graph

end NativeHints
