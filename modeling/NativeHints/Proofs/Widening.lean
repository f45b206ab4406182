import NativeHints.Codebase.Sources
import NativeHints.Proofs.Contract
import NativeHints.Proofs.Override

/-!
# Hints of overriding parameters

The effective signature of a method widens the parameters of the one it overrides.
Which hints are then inserted is decided at each declaration, with its own default
values.  Where the overriding method gets a parameter hint, so does the overridden
one, of a type below it, unless that hint would need a `?` that the features do not
allow (`param_hint_widens_override`).

It does happen that it needs one: the overriding method may have `null` as default, and
its hint goes without `?` then.  Nor does anything hold of parameters that the signature
of the overridden method does not reach, or of constructors
(`param_hints_narrow_override`).
-/

namespace NativeHints

/-! ## Hints by index -/

/-- The type that a parameter of a type is hinted with.  A default `null` speaks for
itself. -/
def Param.hinted (p : Param) (t : HintType) : HintType :=
  if t.nullable && p.nullDefault then t.notNullable else t

namespace Insertion

open HintType

theorem isSupported_hinted (options : Options) (inClass : Bool) (p : Param) (t : HintType) :
    isSupported options inClass (p.hinted t) = isSupported options inClass t := by
  unfold Param.hinted
  split <;> rfl

/-- A type stays below another one when it loses its `null`. -/
theorem isSubtype_hinted {t u : HintType} (h : isSubtype (some u) (some t) = true) (q : Param) :
    isSubtype (some (q.hinted u)) (some t) = true := by
  unfold Param.hinted
  split
  · rw [isSubtype_some_iff] at h ⊢
    exact ⟨fun hnull => Bool.noConfusion hnull, h.2⟩
  · exact h

/-- The hint that a function-like gets for the parameter at an index. -/
def paramHint? (c : Context) (s : Scope) (classes : List Text) (f : FunctionHead) (i : Nat) :
    Option Insertion := do
  let signature ← signatureFor c s classes f
  let p ← f.params[i]?
  ofParam? c.options (!classes.isEmpty) s p (signature.param i)

theorem ofParam?_none (options : Options) (inClass : Bool) (s : Scope) (p : Param) :
    ofParam? options inClass s p none = none := by
  rw [ofParam?_eq]
  cases p.hint <;> rfl

/-- Parameters are planned for index by index. -/
theorem ofParams_eq_filterMap (options : Options) (inClass : Bool) (s : Scope) (ps : List Param)
    (ts : List (Option HintType)) :
    ofParams options inClass s ps ts = (List.range ps.length).filterMap fun i =>
      ps[i]?.bind fun p => ofParam? options inClass s p ts[i]?.join := by
  induction ps, ts using ofParams.induct with
  | case1 ts => rfl
  | case2 ps hne =>
      rw [ofParams, eq_comm, List.filterMap_eq_nil_iff]
      · intro i _
        simp [ofParam?_none]
      · exact hne
  | case3 p ps t ts ih =>
      rw [ofParams, ih, List.length_cons, List.range_succ_eq_map, List.filterMap_cons,
        List.filterMap_map]
      cases hfirst : ofParam? options inClass s p t <;> simp [hfirst]

/-- The hints of a function-like are those of its parameters, index by index, and that of
its result. -/
theorem ofFunction_eq_paramHints {c : Context} {s : Scope} {classes : List Text}
    {f : FunctionHead} {signature : Signature}
    (h : signatureFor c s classes f = some signature) :
    ofFunction c s classes f = (ofResult c s classes f signature.result).map
      ((List.range f.params.length).filterMap (paramHint? c s classes f) ++ ·) := by
  rw [ofFunction_of_signature h, ofParams_eq_filterMap]
  unfold paramHint?
  rw [h]
  rfl

theorem mem_ofFunction_of_paramHint? {c : Context} {s : Scope} {classes : List Text}
    {f : FunctionHead} {i : Nat} {hint : Insertion} (h : paramHint? c s classes f i = some hint)
    {is : List Insertion} (his : ofFunction c s classes f = .ok is) : hint ∈ is := by
  obtain ⟨signature, hsignature, hparam⟩ := Option.bind_eq_some_iff.mp h
  obtain ⟨p, hp, -⟩ := Option.bind_eq_some_iff.mp hparam
  rw [ofFunction_eq_paramHints hsignature] at his
  cases hresult : ofResult c s classes f signature.result with
  | error e => rw [hresult] at his; cases his
  | ok result =>
      rw [hresult] at his
      cases his
      obtain ⟨hi, -⟩ := List.getElem?_eq_some_iff.mp hp
      exact List.mem_append_left _ (List.mem_filterMap.mpr ⟨i, List.mem_range.mpr hi, h⟩)

end Insertion

/-! ## Declared methods -/

namespace Codebase

/-- The hierarchy of sources. -/
def hierarchy (sources : List Source) : Graph := graphOf (sources.map Source.parse)

/-- A declaration of a method of a class, in one of the sources of a code base. -/
structure DeclaredMethod (sources : List Source) (name method : Text) where
  /-- The source. -/
  source : Source
  /-- Its outline. -/
  outline : FileOutline
  /-- Where it stands in the outline. -/
  visit : Visit
  /-- The method itself. -/
  head : FunctionHead
  source_mem : source ∈ sources
  outline?_eq : Php.outline? source.text = some outline
  visit_mem : visit ∈ outline.decls.visits .start []
  item_eq : visit.item = .function head
  isMethodOf : Insertion.IsMethodOf head (visit.classes source.path) name method

namespace DeclaredMethod

variable {sources : List Source} {name method : Text} (m : DeclaredMethod sources name method)

/-- What planning for its file depends on. -/
def context (options : Options) : Insertion.Context :=
  ⟨hierarchy sources, options, m.source.path⟩

/-- The hint that adding hints inserts for the parameter at an index. -/
def paramHint? (options : Options) (i : Nat) : Option Insertion :=
  Insertion.paramHint? (m.context options) m.visit.scope (m.visit.classes m.source.path) m.head i

/-- Adding hints to the code base inserts a hint in the file. -/
def Inserts (options : Options) (hint : Insertion) : Prop :=
  ∃ is, Insertion.planFile (m.context options) m.outline = .ok is ∧ hint ∈ is

theorem inserts_of_paramHint? {options : Options} {i : Nat} {hint : Insertion}
    (h : m.paramHint? options i = some hint) : m.Inserts options hint := by
  obtain ⟨out, hout⟩ := exists_addHints (m.context options) (Php.sound_outline? m.outline?_eq)
  obtain ⟨is, hplan, -⟩ := addHints_eq_ok_iff.mp hout
  refine ⟨is, hplan, ?_⟩
  obtain ⟨hints, hhints, rfl⟩ := Insertion.planFile_eq_ok_iff.mp hplan
  obtain ⟨here, hhere, hmem⟩ := mem_of_gather hhints m.visit_mem
  refine List.mem_append_right _ (hmem hint ?_)
  rw [Insertion.planVisit, m.item_eq] at hhere
  exact Insertion.mem_ofFunction_of_paramHint? h hhere

/-- The hint for a parameter of a type, as it is written there. -/
def hintFor (p : Param) (t : HintType) : Insertion :=
  .parameter p.hintAt (p.hinted t) (m.visit.scope.display (p.hinted t))

section Signature

variable {s : Signature} (hs : (hierarchy sources).signature? name method = some s)
  {options : Options} {i : Nat}

include hs

/-- The hint for a parameter is what is due of its type in the effective signature. -/
theorem paramHint?_eq :
    m.paramHint? options i = m.head.params[i]?.bind fun p =>
      (Insertion.due p.hint (s.param i) fun t => Insertion.resultType? options true (p.hinted t)).map
        fun t => .parameter p.hintAt t (m.visit.scope.display t) := by
  have hsignature := (Insertion.signatureFor_of_isMethodOf m.isMethodOf (m.context options)
    m.visit.scope).trans hs
  obtain ⟨around, outer, hclasses, -⟩ := m.isMethodOf.inside
  unfold paramHint? Insertion.paramHint?
  rw [hsignature, hclasses]
  show m.head.params[i]?.bind _ = _
  exact Option.bind_congr fun p _ => Insertion.ofParam?_eq ..

/-- A hint that is inserted is one for the type, and the type may be written. -/
theorem exists_of_paramHint? {hint : Insertion} (h : m.paramHint? options i = some hint) :
    ∃ p t, m.head.params[i]? = some p ∧ s.param i = some t ∧ hint = m.hintFor p t ∧
      Insertion.isSupported options true t = true := by
  rw [m.paramHint?_eq hs] at h
  obtain ⟨p, hp, h⟩ := Option.bind_eq_some_iff.mp h
  obtain ⟨written, hdue, rfl⟩ := Option.map_eq_some_iff.mp h
  obtain ⟨-, t, ht, hallowed⟩ := Insertion.due_eq_some_iff.mp hdue
  obtain ⟨rfl, -, hsupported⟩ := Insertion.resultType?_eq_some_iff.mp hallowed
  rw [Insertion.isSupported_hinted] at hsupported
  exact ⟨p, t, hp, ht, rfl, hsupported⟩

/-- Only a `?` keeps a type that may be written from being inserted. -/
theorem paramHint?_of_isSupported {q : Param} (hq : m.head.params[i]? = some q)
    (hopen : q.hint = none) {u : HintType} (hu : s.param i = some u)
    (hsupported : Insertion.isSupported options true u = true) :
    m.paramHint? options i =
      if (q.hinted u).nullable && !options .nullableTypes then none
      else some (m.hintFor q u) := by
  rw [m.paramHint?_eq hs, hq, Option.bind_some, hopen, hu]
  show (Insertion.resultType? options true (q.hinted u)).map _ = _
  rw [Insertion.resultType?, Insertion.isSupported_hinted, hsupported]
  cases (q.hinted u).nullable <;> cases options .nullableTypes <;> rfl

end Signature

end DeclaredMethod

/-- A parameter hint of an overriding method widens.  Let a class inherit a method, no
constructor, from a known parent in a hierarchy without cycles, and let both declare it.
Suppose that adding hints inserts one for a parameter of the class's method, and that the
parent's effective signature reaches as far as this parameter.  Then the parent's signature
has a type for it that lies below the type behind the hint.  If the parameter of the parent's
method has no hint yet, one of that type is inserted there as well, unless it needs a `?`
and nullable types are not allowed.  In that case it stays without. -/
theorem param_hint_widens_override {sources : List Source} (hg : (hierarchy sources).Acyclic)
    {name parent method : Text} (hm : Graph.isConstructor method = false)
    (hparent : (hierarchy sources).InheritsFrom method name parent) {base : Signature}
    (hbase : (hierarchy sources).signature? parent method = some base)
    (child : DeclaredMethod sources name method)
    (overridden : DeclaredMethod sources parent method) (options : Options) {i : Nat}
    (hi : i < base.params.length) {hint : Insertion}
    (hhint : child.paramHint? options i = some hint) :
    ∃ s p t u, (hierarchy sources).signature? name method = some s ∧ s.param i = some t ∧
      child.head.params[i]? = some p ∧ hint = child.hintFor p t ∧
      base.param i = some u ∧ HintType.isSubtype (some u) (some t) = true ∧
      ∀ q, overridden.head.params[i]? = some q → q.hint = none →
        HintType.isSubtype (some (q.hinted u)) (some t) = true ∧
        if (q.hinted u).nullable && !options .nullableTypes then
          overridden.paramHint? options i = none
        else overridden.Inserts options (overridden.hintFor q u) := by
  have hcontributes : (hierarchy sources).contribution method parent = some base := by
    rw [Graph.contribution_of_known (Graph.isKnown_of_signature? hbase)]
    exact hbase
  obtain ⟨s, hs, hover⟩ := Graph.signature?_overrides hg hm hparent hcontributes
  obtain ⟨p, t, hp, ht, rfl, hsupported⟩ := child.exists_of_paramHint? hs hhint
  have hsub := hover.params i hi (Signature.lt_of_param ht)
  rw [ht] at hsub
  cases hu : base.param i with
  | none => rw [hu] at hsub; cases hsub
  | some u =>
      rw [hu] at hsub
      refine ⟨s, p, t, u, hs, ht, hp, rfl, rfl, hsub, fun q hq hopen => ?_⟩
      refine ⟨Insertion.isSubtype_hinted hsub q, ?_⟩
      -- A feature that allows a type also allows the types below it.  The `?` is another
      -- matter, since each method has its own default.
      have hhint' := overridden.paramHint?_of_isSupported hbase hq hopen hu
        (Insertion.isSupported_of_isSubtype hsub hsupported)
      split
      · next hnull => rw [hhint', if_pos hnull]
      · next hnull =>
          rw [if_neg hnull] at hhint'
          exact overridden.inserts_of_paramHint? hhint'

/-! ## A parent and a child -/

/-- A class with a method, a method of a known interface, and a constructor. -/
def parentSource : Source :=
  ⟨"a.php".toList, "<?php class P implements Countable \x7b ".toList ++
    "/** @param int|null $x */ function m($x) \x7b\x7d ".toList ++
    "function count($b = 0) \x7b\x7d ".toList ++
    "/** @param int $s */ function __construct($s) \x7b\x7d \x7d".toList⟩

/-- A class that overrides all three. -/
def childSource : Source :=
  ⟨"b.php".toList, "<?php class C extends P \x7b function m($x = null) \x7b\x7d ".toList ++
    "/** @param int $b */ function count($b = 0) \x7b\x7d ".toList ++
    "/** @param string $s */ function __construct($s) \x7b\x7d \x7d".toList⟩

/-- The code base of the two. -/
def family : List Source := [parentSource, childSource]

/-- The class of `parentSource`. -/
def parentHead : ClassHead := ⟨.ordinary, some "P".toList, 6, [], ["Countable".toList]⟩

/-- The class of `childSource`. -/
def childHead : ClassHead := ⟨.ordinary, some "C".toList, 6, ["P".toList], []⟩

/-- The method `m` of the parent. -/
def parentMethod : FunctionHead :=
  ⟨.method, some "m".toList, 63, some "/** @param int|null $x */".toList,
    [⟨"x".toList, ⟨74, 76⟩, 74, none, false⟩], some 77, none⟩

/-- The method `m` of the child, with a default and without a doc comment. -/
def childMethod : FunctionHead :=
  ⟨.method, some "m".toList, 26, none, [⟨"x".toList, ⟨37, 46⟩, 37, none, true⟩], some 47, none⟩

/-- The outline of `parentSource`. -/
def parentOutline : FileOutline :=
  ⟨some ⟨0, 5⟩, none, false, .classLike parentHead
    (.functionLike parentMethod .empty <|
      .functionLike ⟨.method, some "count".toList, 81, none,
        [⟨"b".toList, ⟨96, 102⟩, 96, none, false⟩], some 103, none⟩ .empty <|
      .functionLike ⟨.method, some "__construct".toList, 128, some "/** @param int $s */".toList,
        [⟨"s".toList, ⟨149, 151⟩, 149, none, false⟩], some 152, none⟩ .empty .empty)
    .empty⟩

/-- The outline of `childSource`. -/
def childOutline : FileOutline :=
  ⟨some ⟨0, 5⟩, none, false, .classLike childHead
    (.functionLike childMethod .empty <|
      .functionLike ⟨.method, some "count".toList, 72, some "/** @param int $b */".toList,
        [⟨"b".toList, ⟨87, 93⟩, 87, none, false⟩], some 94, none⟩ .empty <|
      .functionLike ⟨.method, some "__construct".toList, 122, some "/** @param string $s */".toList,
        [⟨"s".toList, ⟨143, 145⟩, 143, none, false⟩], some 146, none⟩ .empty .empty)
    .empty⟩

theorem outline?_parentSource : Php.outline? parentSource.text = some parentOutline := by
  decide +kernel

theorem outline?_childSource : Php.outline? childSource.text = some childOutline := by
  decide +kernel

/-- The hierarchy of the family. -/
def twoClasses : Graph :=
  ⟨[("c".toList, ⟨"C".toList, some "P".toList,
      [("__construct".toList, ⟨[some (.named "string".toList false)], none⟩),
        ("count".toList, ⟨[some (.named "int".toList false)], none⟩)], []⟩),
    ("p".toList, ⟨"P".toList, none,
      [("__construct".toList, ⟨[some (.named "int".toList false)], none⟩),
        ("m".toList, ⟨[some (.named "int".toList true)], none⟩)], []⟩)],
    [("c".toList, ["P".toList]), ("p".toList, ["Countable".toList])]⟩

theorem map_parse_family : family.map Source.parse =
    [⟨parentSource, some parentOutline⟩, ⟨childSource, some childOutline⟩] := by
  rw [family, List.map_cons, List.map_cons, List.map_nil, Source.parse, Source.parse,
    outline?_parentSource, outline?_childSource]

theorem hierarchy_family : hierarchy family = twoClasses := by
  rw [hierarchy, map_parse_family]
  decide +kernel

theorem acyclic_twoClasses : twoClasses.Acyclic :=
  Graph.acyclic_of_rank
    (fun key => if key = "c".toList then 0 else if key = "p".toList then 1 else 2) (by decide)

theorem inheritsFrom_twoClasses {method : Text}
    (h : (twoClasses.contribution method "P".toList).isSome = true) :
    twoClasses.InheritsFrom method "C".toList "P".toList :=
  ⟨[], [], by decide, by simp, h⟩

/-- The method `m` of the parent as a declaration of the family. -/
def declaredParentMethod : DeclaredMethod family "P".toList "m".toList where
  source := parentSource
  outline := parentOutline
  visit := ⟨.start, [(parentHead, .start)], .function parentMethod⟩
  head := parentMethod
  source_mem := .head _
  outline?_eq := outline?_parentSource
  visit_mem := List.mem_of_getElem? (i := 0) rfl
  item_eq := rfl
  isMethodOf := ⟨rfl, ⟨_, rfl, rfl⟩, _, _, rfl, rfl⟩

/-- The method `m` of the child as a declaration of the family. -/
def declaredChildMethod : DeclaredMethod family "C".toList "m".toList where
  source := childSource
  outline := childOutline
  visit := ⟨.start, [(childHead, .start)], .function childMethod⟩
  head := childMethod
  source_mem := .tail _ (.head _)
  outline?_eq := outline?_childSource
  visit_mem := List.mem_of_getElem? (i := 0) rfl
  item_eq := rfl
  isMethodOf := ⟨rfl, ⟨_, rfl, rfl⟩, _, _, rfl, rfl⟩

/-- With all features the parent's parameter becomes `?int $x`, the child's `int $x = null`. -/
theorem param_hint_widens_override_optional :
    (hierarchy family).Acyclic ∧
    (hierarchy family).InheritsFrom "m".toList "C".toList "P".toList ∧
    declaredChildMethod.paramHint? (fun _ => true) 0 =
      some (.parameter 37 (.named "int".toList false) "int".toList) ∧
    declaredParentMethod.Inserts (fun _ => true)
      (.parameter 74 (.named "int".toList true) "?int".toList) := by
  have hg : (hierarchy family).Acyclic := by
    rw [hierarchy_family]
    exact acyclic_twoClasses
  have hparent : (hierarchy family).InheritsFrom "m".toList "C".toList "P".toList := by
    rw [hierarchy_family]
    exact inheritsFrom_twoClasses (by decide)
  have hbase : (hierarchy family).signature? "P".toList "m".toList =
      some ⟨[some (.named "int".toList true)], none⟩ := by
    rw [hierarchy_family]
    decide
  have hchild : (hierarchy family).signature? "C".toList "m".toList =
      some ⟨[some (.named "int".toList true)], none⟩ := by
    rw [hierarchy_family]
    decide
  have hhint : declaredChildMethod.paramHint? (fun _ => true) 0 =
      some (.parameter 37 (.named "int".toList false) "int".toList) := by
    rw [DeclaredMethod.paramHint?_eq _ hchild]
    rfl
  obtain ⟨_, _, _, u, -, -, -, -, hu, -, hbelow⟩ := param_hint_widens_override hg rfl hparent hbase
    declaredChildMethod declaredParentMethod (fun _ => true) Nat.zero_lt_one hhint
  cases hu
  exact ⟨hg, hparent, hhint, (hbelow _ rfl rfl).2⟩

/-- Parameter hints of an overriding method may narrow.  Without nullable types the child's
`m` takes an `int` where the parent's takes anything, since only its own default is `null`.
Its `count` gets a hint for a parameter that the parent's signature does not have.  The
constructors get what each documents. -/
theorem param_hints_narrow_override :
    Php.outline? parentSource.text = some parentOutline ∧
    Php.outline? childSource.text = some childOutline ∧
    (hierarchy family).Acyclic ∧
    (∀ method ∈ ["m".toList, "count".toList, "__construct".toList],
      (hierarchy family).InheritsFrom method "C".toList "P".toList ∧
      ((hierarchy family).signature? "P".toList method).isSome = true) ∧
    Insertion.planFile ⟨hierarchy family, fun _ => false, parentSource.path⟩ parentOutline = .ok
      [.parameter 149 (.named "int".toList false) "int".toList] ∧
    Insertion.planFile ⟨hierarchy family, fun _ => false, childSource.path⟩ childOutline = .ok
      [.parameter 37 (.named "int".toList false) "int".toList,
        .parameter 87 (.named "int".toList false) "int".toList,
        .parameter 143 (.named "string".toList false) "string".toList] ∧
    HintType.isSubtype (some (.named "int".toList false)) (some (.named "string".toList false)) =
      false := by
  refine ⟨outline?_parentSource, outline?_childSource, ?_⟩
  rw [hierarchy_family]
  refine ⟨acyclic_twoClasses, fun method hmethod => ?_, by decide +kernel⟩
  have hall : ∀ m ∈ ["m".toList, "count".toList, "__construct".toList],
      (twoClasses.contribution m "P".toList).isSome = true ∧
      (twoClasses.signature? "P".toList m).isSome = true := by decide
  exact ⟨inheritsFrom_twoClasses (hall method hmethod).1, (hall method hmethod).2⟩

end Codebase

end NativeHints
