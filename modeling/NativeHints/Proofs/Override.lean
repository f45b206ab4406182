import NativeHints.Proofs.Search
import NativeHints.Proofs.Due
import NativeHints.Proofs.Features

/-!
# Overriding is safe

In a hierarchy without cycles the effective signature of a method may override
the one it inherits.  Its parameters lie above those of the first parent that
contributes anything, and its result lies below.  Results are narrowed once
more at every class on the way down, so that half holds against every class on
the chain of first contributors.

The features that hints depend on are closed upwards along subtyping: whatever
`?`, `iterable` or `object` a result needs, a result above it needs as well.
So a result hint that is emitted for the parent is emitted for the child.
-/

namespace NativeHints

namespace Signature

open HintType

/-- One signature may override another: where both have a parameter its own is the
wider one, and its result is the narrower one. -/
structure Overrides (s base : Signature) : Prop where
  /-- Parameters may be widened. -/
  params : ∀ i, i < base.params.length → i < s.params.length →
    isSubtype (base.param i) (s.param i) = true
  /-- The result may be narrowed. -/
  result : isSubtype s.result base.result = true

theorem overrides_refl (s : Signature) : s.Overrides s :=
  ⟨fun _ _ _ => isSubtype_refl _, isSubtype_refl _⟩

theorem merge_overrides (own inherited : Signature) :
    (own.merge inherited).Overrides inherited where
  params := by
    intro i hinh hown
    exact isSubtype_param_merge (by simpa [merge] using hown) hinh
  result := mergeResult_isSubtype own.result inherited.result

/-- To override a signature as another class sees it is to override it. -/
theorem overrides_of_asResolved {s base : Signature} (h : s.Overrides base.asResolved) :
    s.Overrides base where
  params := by
    intro i hbase hs
    have hi := h.params i (by simpa using hbase) hs
    rwa [param_asResolved, isSubtype_asResolved_left] at hi
  result := by
    have hr := h.result
    rwa [result_asResolved, isSubtype_asResolved_right] at hr

end Signature

namespace Graph

open HintType

/-! ## First contributors -/

/-- What a parent has to say about a method: its effective signature, or the one of
the built-in table if it lies outside the code base. -/
def contribution (g : Graph) (method parent : Text) : Option Signature :=
  if g.isKnown parent then g.signature? parent method else Builtin.signature? parent method

/-- A class inherits a method from the first of its parents, in recorded order, that
has anything to say about it. -/
def InheritsFrom (g : Graph) (method name parent : Text) : Prop :=
  ∃ earlier later, g.parentsOf name = earlier ++ parent :: later ∧
    (∀ p ∈ earlier, g.contribution method p = none) ∧
    (g.contribution method parent).isSome = true

theorem contribution_of_known {g : Graph} {method name : Text} (h : g.isKnown name = true) :
    g.contribution method name = g.signature? name method :=
  if_pos h

/-- An unknown class has no effective signature. -/
theorem isKnown_of_signature? {g : Graph} {method name : Text} {s : Signature}
    (h : g.signature? name method = some s) : g.isKnown name = true := by
  cases hk : g.isKnown name with
  | true => rfl
  | false =>
      rw [signature?, searchSignature_succ, hk] at h
      cases h

theorem InheritsFrom.isKnown {g : Graph} {method name parent : Text}
    (h : g.InheritsFrom method name parent) : g.isKnown name = true := by
  obtain ⟨earlier, later, hparents, -, -⟩ := h
  have hmem : parent ∈ g.parentsOf name := by rw [hparents]; simp
  exact isKnown_of_mem_parentsOf hmem

/-- A parent hands down exactly what it contributes, as another class sees it. -/
theorem handedDown_eq_none {g : Graph} {method parent : Text}
    (h : g.contribution method parent = none) :
    g.handedDown method (g.signature? · method) parent = none := by
  unfold contribution at h
  unfold handedDown
  split at h
  · next hk => simp only [if_pos hk, h, Option.map_none]
  · next hk => rw [if_neg hk, h]

theorem handedDown_eq_some {g : Graph} {method parent : Text} {s : Signature}
    (h : g.contribution method parent = some s) :
    ∃ inherited, g.handedDown method (g.signature? · method) parent = some inherited ∧
      ∀ t : Signature, t.Overrides inherited → t.Overrides s := by
  unfold contribution at h
  unfold handedDown
  split at h
  · next hk =>
      simp only [if_pos hk, h, Option.map_some]
      exact ⟨s.asResolved, rfl, fun _ => Signature.overrides_of_asResolved⟩
  · next hk =>
      rw [if_neg hk, h]
      exact ⟨s, rfl, fun _ ht => ht⟩

/-! ## One step and many -/

/-- What is combined with an inherited signature may override it. -/
theorem combine_overrides (own : Option Signature) (inherited : Signature) :
    ∃ s, combine own (some inherited) = some s ∧ s.Overrides inherited := by
  cases own with
  | none => exact ⟨inherited, rfl, Signature.overrides_refl _⟩
  | some own => exact ⟨own.merge inherited, rfl, Signature.merge_overrides own inherited⟩

/-- The step: a method overrides what its class inherits. -/
theorem signature?_overrides {g : Graph} (hg : g.Acyclic) {method name parent : Text}
    (hm : isConstructor method = false) (h : g.InheritsFrom method name parent) {base : Signature}
    (hbase : g.contribution method parent = some base) :
    ∃ s, g.signature? name method = some s ∧ s.Overrides base := by
  have hknown := h.isKnown
  obtain ⟨earlier, later, hparents, hearlier, -⟩ := h
  obtain ⟨inherited, hhand, hover⟩ := handedDown_eq_some hbase
  have hskip : earlier.findSome? (g.handedDown method (g.signature? · method)) = none :=
    List.findSome?_eq_none_iff.mpr fun p hp => handedDown_eq_none (hearlier p hp)
  have hfound : (g.parentsOf name).findSome? (g.handedDown method (g.signature? · method)) =
      some inherited := by
    rw [hparents, List.findSome?_append, hskip, Option.none_or, List.findSome?_cons, hhand]
  obtain ⟨s, hs, hsover⟩ := combine_overrides (g.ownSignature? name method) inherited
  refine ⟨s, ?_, hover s hsover⟩
  rw [signature?_of_acyclic hg, if_pos hknown, signatureStep, hm, hfound]
  exact hs

/-- The run: results narrow along the whole chain of first contributors. -/
theorem result_isSubtype_of_chain {g : Graph} (hg : g.Acyclic) {method name ancestor : Text}
    (hm : isConstructor method = false)
    (h : Relation.ReflTransGen (g.InheritsFrom method) name ancestor) {s : Signature}
    (hs : g.contribution method name = some s) :
    ∃ base, g.contribution method ancestor = some base ∧
      isSubtype s.result base.result = true := by
  induction h with
  | refl => exact ⟨s, hs, isSubtype_refl _⟩
  | tail hchain hlast ih =>
      obtain ⟨middle, hmiddle, hsub⟩ := ih
      have hknown := hlast.isKnown
      rw [contribution_of_known hknown] at hmiddle
      obtain ⟨earlier, later, hparents, hearlier, hsome⟩ := hlast
      obtain ⟨base, hbase⟩ := Option.isSome_iff_exists.mp hsome
      obtain ⟨middle', hmiddle', hover⟩ :=
        signature?_overrides hg hm ⟨earlier, later, hparents, hearlier, hsome⟩ hbase
      obtain rfl : middle = middle' := Option.some.inj (hmiddle.symm.trans hmiddle')
      exact ⟨base, hbase, isSubtype_trans hsub hover.result⟩

end Graph

/-! ## Emitted results -/

namespace Insertion

open HintType

/-- A function-like, with the classes around it, is a certain method of a class. -/
structure IsMethodOf (f : FunctionHead) (classes : List Text) (name method : Text) : Prop where
  /-- It is a method. -/
  kind : f.kind = .method
  /-- It has the name. -/
  called : ∃ n, f.name = some n ∧ n.Same method
  /-- The class is the innermost one. -/
  inside : ∃ around outer, classes = around :: outer ∧
    Graph.lookupKey around = Graph.lookupKey name

/-- Planning puts a result hint at the end of the parameters. -/
def EmitsResult (c : Context) (s : Scope) (classes : List Text) (f : FunctionHead) : Prop :=
  ∃ plan position type, ofFunction c s classes f = .ok plan ∧
    f.signatureEnd = some position ∧ .result position type (s.display type) ∈ plan

theorem signatureFor_of_isMethodOf {f : FunctionHead} {classes : List Text} {name method : Text}
    (h : IsMethodOf f classes name method) (c : Context) (s : Scope) :
    signatureFor c s classes f = c.graph.signature? name method := by
  obtain ⟨n, hn, hsame⟩ := h.called
  obtain ⟨around, outer, rfl, hkey⟩ := h.inside
  unfold signatureFor
  rw [h.kind, hn]
  exact (Graph.signature?_of_key _ hkey n).trans (Graph.signature?_of_same hsame _ name)

/-- Parameters only get parameter hints. -/
theorem result_not_mem_ofParams (options : Options) (inClass : Bool) (s : Scope)
    (ps : List Param) (ts : List (Option HintType)) {position : Nat} {type : HintType}
    {written : Text} : .result position type written ∉ ofParams options inClass s ps ts := by
  induction ps, ts using ofParams.induct with
  | case1 ts => simp [ofParams]
  | case2 ps _ => cases ps <;> simp [ofParams]
  | case3 p ps t ts ih =>
      rw [ofParams, List.mem_append, Option.mem_toList]
      rintro (h | h)
      · rw [ofParam?_eq] at h
        obtain ⟨t', -, ht'⟩ := Option.map_eq_some_iff.mp h
        cases ht'
      · exact ih h

/-- An emitted result hint is one that the features allow. -/
theorem EmitsResult.type {c : Context} {s : Scope} {classes : List Text} {f : FunctionHead}
    (h : EmitsResult c s classes f) {signature : Signature}
    (hs : signatureFor c s classes f = some signature) :
    ∃ t t', signature.result = some t ∧
      resultType? c.options (!classes.isEmpty) t = some t' := by
  obtain ⟨plan, position, type, hplan, hend, hmem⟩ := h
  rw [ofFunction_of_signature hs, ofResult_of_end c s classes hend] at hplan
  cases hplan
  rcases List.mem_append.mp hmem with hparam | hresult
  · exact (result_not_mem_ofParams _ _ _ _ _ hparam).elim
  · obtain ⟨t', hdue, -⟩ := Option.map_eq_some_iff.mp (Option.mem_toList.mp hresult)
    obtain ⟨-, t, ht, hallowed⟩ := due_eq_some_iff.mp hdue
    exact ⟨t, t', ht, hallowed⟩

/-- A result that the features allow is emitted where it has a place. -/
theorem emitsResult_of_type {c : Context} {s : Scope} {classes : List Text} {f : FunctionHead}
    {signature : Signature} {t : HintType} {position : Nat}
    (hs : signatureFor c s classes f = some signature) (ht : signature.result = some t)
    (hallowed : resultType? c.options (!classes.isEmpty) t = some t) (hopen : f.result = none)
    (hend : f.signatureEnd = some position) : EmitsResult c s classes f := by
  have hdue : due f.result signature.result (resultType? c.options (!classes.isEmpty)) = some t :=
    due_eq_some_iff.mpr ⟨hopen, t, ht, hallowed⟩
  refine ⟨ofParams c.options (!classes.isEmpty) s f.params signature.params ++
    [.result position t (s.display t)], position, t, ?_, hend, by simp⟩
  rw [ofFunction_of_signature hs, ofResult_of_end c s classes hend, hdue]
  rfl

end Insertion

/-! ## Override safety -/

/-- Effective signatures override safely.  Let a class inherit a method, no constructor,
from a known parent in a hierarchy without cycles.  Then it has an effective
signature that may override the parent's.  Its result lies below that of every
class further up the chain of first contributors.  And under all features, where
the result hint of the parent's method is emitted, so is that of its own. -/
theorem effective_signature_overrides {g : Graph} (hg : g.Acyclic)
    {name parent method : Text} (hm : Graph.isConstructor method = false)
    (hparent : g.InheritsFrom method name parent) {base : Signature}
    (hbase : g.signature? parent method = some base) :
    ∃ s, g.signature? name method = some s ∧
      (∀ i, i < base.params.length → i < s.params.length →
        HintType.isSubtype (base.param i) (s.param i) = true) ∧
      HintType.isSubtype s.result base.result = true ∧
      (∀ ancestor, Relation.ReflTransGen (g.InheritsFrom method) parent ancestor →
        ∃ above, g.contribution method ancestor = some above ∧
          HintType.isSubtype s.result above.result = true) ∧
      ∀ (options : Options) (path path' : Text) (scope scope' : Scope)
        (classes classes' : List Text) (f f' : FunctionHead),
        Insertion.IsMethodOf f classes parent method →
        Insertion.IsMethodOf f' classes' name method →
        f'.result = none → f'.signatureEnd.isSome = true →
        Insertion.EmitsResult ⟨g, options, path⟩ scope classes f →
        Insertion.EmitsResult ⟨g, options, path'⟩ scope' classes' f' := by
  have hcontributes : g.contribution method parent = some base := by
    rw [Graph.contribution_of_known (Graph.isKnown_of_signature? hbase)]
    exact hbase
  obtain ⟨s, hs, hover⟩ := Graph.signature?_overrides hg hm hparent hcontributes
  refine ⟨s, hs, hover.params, hover.result, ?_, ?_⟩
  · intro ancestor hchain
    obtain ⟨above, habove, hsub⟩ := Graph.result_isSubtype_of_chain hg hm hchain hcontributes
    exact ⟨above, habove, HintType.isSubtype_trans hover.result hsub⟩
  · intro options path path' scope scope' classes classes' f f' hf hf' hopen hend hemits
    obtain ⟨position, hend⟩ := Option.isSome_iff_exists.mp hend
    have hsig := (Insertion.signatureFor_of_isMethodOf hf ⟨g, options, path⟩ scope).trans hbase
    have hsig' := (Insertion.signatureFor_of_isMethodOf hf' ⟨g, options, path'⟩ scope').trans hs
    obtain ⟨t, t', ht, hallowed⟩ := hemits.type hsig
    have hsub := hover.result
    rw [ht] at hsub
    obtain ⟨around, outer, rfl, -⟩ := hf.inside
    obtain ⟨around', outer', rfl, -⟩ := hf'.inside
    cases hown : s.result with
    | none => rw [hown] at hsub; cases hsub
    | some own =>
        rw [hown] at hsub
        have hallowed' := Insertion.resultType?_of_isSubtype hsub hallowed
        exact Insertion.emitsResult_of_type hsig' hown hallowed' hopen hend

/-- `Circle` extends `Shape`, which extends `Figure`.  All three document the method
`area`, and `Countable` is known to say nothing about it. -/
def shapes : Graph :=
  ⟨[("circle".toList, ⟨"Circle".toList, some "Shape".toList,
      [("area".toList, ⟨[some (.named "int".toList true)], some (.named "string".toList false)⟩)],
      []⟩),
    ("figure".toList, ⟨"Figure".toList, none,
      [("area".toList, ⟨[some (.named "int".toList false)], some (.named "object".toList true)⟩)],
      []⟩),
    ("shape".toList, ⟨"Shape".toList, some "Figure".toList,
      [("area".toList, ⟨[none], some (.named "Number".toList false)⟩)], []⟩)],
    [("circle".toList, ["Countable".toList, "Shape".toList]), ("figure".toList, []),
      ("shape".toList, ["Figure".toList])]⟩

/-- A method `area` without hints. -/
def areaMethod : FunctionHead := ⟨.method, some "area".toList, 0, none, [], some 15, none⟩

/-- The result `string` is no `Number`, so `Circle` gets the one of `Shape`, and a hint for
it where `Shape` has one. -/
theorem effective_signature_overrides_circle :
    ∃ s, shapes.signature? "Circle".toList "area".toList = some s ∧
      s.param 0 = some (.named "int".toList true) ∧
      HintType.isSubtype s.result (some (.named "object".toList true)) = true ∧
      Insertion.EmitsResult ⟨shapes, fun _ => false, []⟩ .start ["Circle".toList] areaMethod := by
  have hacyclic : shapes.Acyclic :=
    Graph.acyclic_of_rank
      (fun k => if k = "circle".toList then 0 else if k = "shape".toList then 1 else 2) (by decide)
  have hparent : shapes.InheritsFrom "area".toList "Circle".toList "Shape".toList :=
    ⟨["Countable".toList], [], by decide, by decide, by decide⟩
  have hgrandparent : shapes.InheritsFrom "area".toList "Shape".toList "Figure".toList :=
    ⟨[], [], by decide, by decide, by decide⟩
  have hbase : shapes.signature? "Shape".toList "area".toList =
      some ⟨[some (.named "int".toList false)], some (.named "Number".toList false)⟩ := by decide
  obtain ⟨s, hs, -, -, hchain, hemits⟩ :=
    effective_signature_overrides hacyclic (by decide) hparent hbase
  have hsig : shapes.signature? "Circle".toList "area".toList =
      some ⟨[some (.named "int".toList true)], some (.named "Number".toList false)⟩ := by decide
  obtain rfl := Option.some.inj (hs.symm.trans hsig)
  refine ⟨_, hs, rfl, ?_, ?_⟩
  · obtain ⟨above, habove, hsub⟩ := hchain _ (.single hgrandparent)
    have hfigure : shapes.contribution "area".toList "Figure".toList =
        some ⟨[some (.named "int".toList false)], some (.named "object".toList true)⟩ := by decide
    obtain rfl := Option.some.inj (habove.symm.trans hfigure)
    exact hsub
  · refine hemits _ [] _ .start _ ["Shape".toList] _ areaMethod _
      ⟨rfl, ⟨_, rfl, rfl⟩, _, _, rfl, rfl⟩ ⟨rfl, ⟨_, rfl, rfl⟩, _, _, rfl, rfl⟩ rfl rfl ?_
    exact Insertion.emitsResult_of_type hbase rfl (by decide) rfl rfl

end NativeHints
