import NativeHints.Php.Reading
import NativeHints.Proofs.Deletions

/-!
# What removing hints leaves

The removable ranges of an outline are those of its result hints, those of its scalar
parameter hints, and the question marks of the other parameter hints with a default
`null`, whatever function-likes are nested in others.  Removing deletes these ranges and
nothing else.  The outline of what is left has all positions moved with the text, and the
hints without what was deleted of them (`Outline.stripped`).  In it there is nothing to
remove (`stripHints_exact`).
-/

namespace NativeHints

/-! ## Removable ranges -/

/-- What removing deletes of the hint of a parameter: all of a scalar one, and the question
mark of another one if there is a default `null`. -/
def Param.removable? (p : Param) : Option Span :=
  p.hint.bind fun h =>
    if h.isScalar then some ⟨h.span.start, h.next⟩
    else if h.isNullable && p.nullDefault then some ⟨h.span.start, h.span.start + 1⟩
    else none

/-- What removing deletes of the hints of a function-like, without its body. -/
def FunctionHead.removable (f : FunctionHead) : List Span :=
  f.resultRange?.toList ++ f.params.filterMap Param.removable?

/-- What removing deletes. -/
def Outline.removable (o : Outline) : List Span := o.functions.flatMap FunctionHead.removable

/-- A function-like with a result hint has an end of its parameters, from which the hint can
be removed. -/
def FunctionHead.Ended (f : FunctionHead) : Prop :=
  f.result.isSome = true → f.signatureEnd.isSome = true

instance (f : FunctionHead) : Decidable f.Ended := inferInstanceAs (Decidable (_ → _))

namespace Removal

theorem ofParam_eq (p : Param) : ofParam p = p.removable?.toList.map Span.deletion := by
  unfold ofParam Param.removable?
  cases p.hint with
  | none => rfl
  | some h =>
      simp only [Option.bind_some]
      split
      · rfl
      · split
        · simp [Span.deletion, Edit.deleteRange]
        · rfl

theorem ofResult_eq (path : Text) {f : FunctionHead} (hended : f.Ended) :
    ofResult path f = .ok (f.resultRange?.toList.map Span.deletion) := by
  unfold ofResult FunctionHead.resultRange?
  cases hresult : f.result with
  | none => cases f.signatureEnd <;> rfl
  | some h =>
      obtain ⟨position, hposition⟩ := Option.isSome_iff_exists.mp (hended (by rw [hresult]; rfl))
      rw [hposition]
      rfl

theorem ofFunction_eq (path : Text) {f : FunctionHead} (hended : f.Ended) :
    ofFunction path f = .ok (f.removable.map Span.deletion) := by
  have hparams : f.params.flatMap ofParam =
      (f.params.filterMap Param.removable?).map Span.deletion := by
    rw [List.filterMap_eq_flatMap_toList, List.map_flatMap]
    exact List.flatMap_congr fun p _ => ofParam_eq p
  rw [ofFunction, ofResult_eq path hended, FunctionHead.removable, List.map_append, ← hparams]
  rfl

/-- The plan for an outline deletes the removable ranges, at every depth. -/
theorem plan_eq (path : Text) {o : Outline} (hended : ∀ f ∈ o.functions, f.Ended) :
    plan path o = .ok (o.removable.map Span.deletion) := by
  unfold Outline.removable
  induction o with
  | empty => rfl
  | namespaceLine name rest ih => exact ih hended
  | namespaceBlock name body rest ihb ihr =>
      obtain ⟨hbody, hrest⟩ := List.forall_mem_append.mp hended
      rw [plan, ihb hbody, ihr hrest, Outline.functions, List.flatMap_append, List.map_append]
      rfl
  | imports clauses rest ih => exact ih hended
  | classLike head members rest ihm ihr =>
      obtain ⟨hmembers, hrest⟩ := List.forall_mem_append.mp hended
      rw [plan, ihm hmembers, ihr hrest, Outline.functions, List.flatMap_append, List.map_append]
      rfl
  | functionLike head body rest ihb ihr =>
      obtain ⟨hhead, hinner⟩ := List.forall_mem_cons.mp hended
      obtain ⟨hbody, hrest⟩ := List.forall_mem_append.mp hinner
      rw [plan, ofFunction_eq path hhead, ihb hbody, ihr hrest, Outline.functions,
        List.flatMap_cons, List.flatMap_append, List.map_append, List.map_append,
        ← List.append_assoc]
      rfl
  | property decl rest ih => exact ih hended
  | traitUse names rest ih => exact ih hended

end Removal

/-! ## The outline of what is left -/

section Stripped

variable (ss : List Span)

/-- A range after the ranges are deleted. -/
def Span.stripped (s : Span) : Span := ⟨Span.moved ss s.start, Span.moved ss s.stop⟩

/-- A hint after the ranges are deleted, with what is left of its text. -/
def WrittenHint.stripped (h : WrittenHint) (text : Text) : WrittenHint :=
  ⟨h.span.stripped ss, text, Span.moved ss h.next⟩

/-- The hint of a parameter after the removable ranges are deleted. -/
def Param.strippedHint (p : Param) : Option WrittenHint :=
  p.hint.bind fun h =>
    if h.isScalar then none
    else if h.isNullable && p.nullDefault then some (h.stripped ss h.text.tail)
    else some (h.stripped ss h.text)

/-- A parameter after the removable ranges are deleted. -/
def Param.stripped (p : Param) : Param :=
  { p with
    span := p.span.stripped ss
    hintAt := Span.moved ss p.hintAt
    hint := p.strippedHint ss }

/-- A function-like after the removable ranges are deleted. -/
def FunctionHead.stripped (f : FunctionHead) : FunctionHead :=
  { f with
    start := Span.moved ss f.start
    params := f.params.map (·.stripped ss)
    signatureEnd := f.signatureEnd.map (Span.moved ss)
    result := none }

/-- A property declaration after the removable ranges are deleted.  Its hint stays. -/
def Property.stripped (p : Property) : Property :=
  { p with
    hint := p.hint.map fun h => h.stripped ss h.text
    elements := p.elements.map fun e => { e with start := Span.moved ss e.start } }

/-- An outline after the removable ranges are deleted. -/
def Outline.stripped : Outline → Outline
  | .empty => .empty
  | .namespaceLine name rest => .namespaceLine name rest.stripped
  | .namespaceBlock name body rest => .namespaceBlock name body.stripped rest.stripped
  | .imports clauses rest => .imports clauses rest.stripped
  | .classLike head members rest =>
      .classLike { head with start := Span.moved ss head.start } members.stripped rest.stripped
  | .functionLike head body rest =>
      .functionLike (head.stripped ss) body.stripped rest.stripped
  | .property decl rest => .property (decl.stripped ss) rest.stripped
  | .traitUse names rest => .traitUse names rest.stripped

/-- The outline of a file after the removable ranges are deleted. -/
def FileOutline.stripped (f : FileOutline) : FileOutline :=
  ⟨f.openTag.map (·.stripped ss), f.shebangEnd.map (Span.moved ss), f.hasStrictTypes,
    f.decls.stripped ss⟩

theorem Outline.functions_stripped (o : Outline) :
    (o.stripped ss).functions = o.functions.map (·.stripped ss) := by
  induction o with
  | empty => rfl
  | namespaceLine name rest ih => exact ih
  | namespaceBlock name body rest ihb ihr => simp [stripped, functions, ihb, ihr]
  | imports clauses rest ih => exact ih
  | classLike head members rest ihm ihr => simp [stripped, functions, ihm, ihr]
  | functionLike head body rest ihb ihr => simp [stripped, functions, ihb, ihr]
  | property decl rest ih => exact ih
  | traitUse names rest ih => exact ih

end Stripped

/-! ## Nothing is left to remove -/

section Mark

variable {h : WrittenHint} (hnull : h.isNullable = true) (ss : List Span)

include hnull

/-- The question mark says nothing about whether a hint is scalar. -/
theorem WrittenHint.isScalar_tail : (h.stripped ss h.text.tail).isScalar = h.isScalar := by
  obtain ⟨rest, hrest⟩ := Text.startsWith_iff.mp hnull
  have hdrop : Text.dropLeading '?' ('?' :: rest) = Text.dropLeading '?' rest :=
    List.dropWhile_cons_of_pos (by decide)
  show (Text.trim (Text.dropLeading '?' h.text.tail)).isOneOf _ = _
  rw [isScalar, hrest]
  show _ = (Text.trim (Text.dropLeading '?' ('?' :: rest))).isOneOf _
  rw [hdrop]
  rfl

theorem WrittenHint.isNullable_tail (hmarks : h.text.startsWith "??".toList = false) :
    (h.stripped ss h.text.tail).isNullable = false := by
  obtain ⟨rest, hrest⟩ := Text.startsWith_iff.mp hnull
  rw [← Bool.not_eq_true]
  intro hagain
  obtain ⟨rest', hrest'⟩ := Text.startsWith_iff.mp hagain
  have htail : rest = '?' :: rest' := by
    simpa [stripped, hrest] using hrest'
  have htwo : h.text.startsWith "??".toList = true :=
    Text.startsWith_iff.mpr ⟨rest', by rw [hrest, htail]; rfl⟩
  cases hmarks.symm.trans htwo

end Mark

/-- What is left of the hint of a parameter is not removable, if the hint begins with one
question mark at most. -/
theorem Param.removable?_stripped {p : Param}
    (hmarks : ∀ h ∈ p.hint, h.text.startsWith "??".toList = false) (ss : List Span) :
    (p.stripped ss).removable? = none := by
  unfold removable?
  show (p.strippedHint ss).bind _ = none
  unfold strippedHint
  cases hhint : p.hint with
  | none => rfl
  | some h =>
      rw [Option.bind_some]
      split
      · rfl
      · next hscalar =>
          split
          · next hnull =>
              obtain ⟨hnullable, -⟩ := Bool.and_eq_true_iff.mp hnull
              have hscalar' := h.isScalar_tail hnullable ss
              have hnullable' := h.isNullable_tail hnullable ss (hmarks h hhint)
              rw [Option.bind_some, hscalar', hnullable', if_neg hscalar, Bool.false_and,
                if_neg Bool.false_ne_true]
          · next hnull =>
              show (if h.isScalar = true then _ else if _ then _ else none) = none
              rw [if_neg hscalar]
              exact if_neg hnull

theorem FunctionHead.removable_stripped {f : FunctionHead}
    (hmarks : ∀ p ∈ f.params, ∀ h ∈ p.hint, h.text.startsWith "??".toList = false)
    (ss : List Span) : (f.stripped ss).removable = [] := by
  have hresult : (f.stripped ss).resultRange? = none := by
    show (f.signatureEnd.map _).bind (fun _ => none) = none
    exact Option.bind_fun_none _
  have hparams : (f.params.map (·.stripped ss)).filterMap Param.removable? = [] := by
    rw [List.filterMap_map, List.filterMap_eq_nil_iff]
    exact fun p hp => Param.removable?_stripped (hmarks p hp) ss
  rw [removable, hresult]
  exact hparams

/-- Nothing is removable in the outline of what is left. -/
theorem Removal.plan_stripped (path : Text) {o : Outline}
    (hmarks : ∀ f ∈ o.functions, ∀ p ∈ f.params, ∀ h ∈ p.hint,
      h.text.startsWith "??".toList = false) (ss : List Span) :
    plan path (o.stripped ss) = .ok [] := by
  have hended : ∀ f ∈ (o.stripped ss).functions, f.Ended := by
    rw [Outline.functions_stripped]
    exact List.forall_mem_map.mpr fun f _ hresult => absurd hresult Bool.false_ne_true
  have hnone : (o.stripped ss).removable = [] := by
    rw [Outline.removable, Outline.functions_stripped, List.flatMap_map, List.flatMap_eq_nil_iff]
    exact fun f hf => FunctionHead.removable_stripped (hmarks f hf) ss
  rw [plan_eq path hended, hnone]
  rfl

/-! ## Removing -/

/-- The removable ranges of an outline can be deleted from a text: each has two ends that cut
no character, and they are not empty and apart. -/
structure Outline.Strippable (source : Text) (o : Outline) : Prop where
  /-- A result hint has a place to be removed from. -/
  ended : ∀ f ∈ o.functions, f.Ended
  /-- The ranges are not empty. -/
  pos : ∀ s ∈ o.removable, s.start < s.stop
  /-- The ranges are apart. -/
  apart : o.removable.Pairwise Span.Apart
  /-- The ranges lie in the text and cut no character. -/
  cut : ∀ s ∈ o.removable, source.isBoundary s.start = true ∧ source.isBoundary s.stop = true
  /-- The hint of a parameter begins with one question mark at most. -/
  marks : ∀ f ∈ o.functions, ∀ p ∈ f.params, ∀ h ∈ p.hint,
    h.text.startsWith "??".toList = false

/-- Removing hints deletes exactly the removable ranges, at every depth.  The positions of
the outline of what is left have moved with the text: the part of the source in front of a
position leaves as much as the position has become.  Removing from what is left changes
nothing. -/
theorem stripHints_exact (path : Text) {source : Text} {f : FileOutline}
    (h : f.decls.Strippable source) :
    stripHints path source f = .ok (source.outside f.decls.removable 0) ∧
      (∀ front back : Text, source = front ++ back →
        source.outside f.decls.removable 0 =
          front.outside f.decls.removable 0 ++ back.outside f.decls.removable front.size ∧
        (front.outside f.decls.removable 0).size = Span.moved f.decls.removable front.size) ∧
      stripHints path (source.outside f.decls.removable 0) (f.stripped f.decls.removable) =
        .ok (source.outside f.decls.removable 0) := by
  refine ⟨?_, fun front back hsource => ⟨?_, ?_⟩, ?_⟩
  · exact stripHints_eq_ok (Removal.plan_eq path h.ended)
      (Edit.applyAll_deletions h.pos h.apart h.cut)
  · have happend : Text.outside f.decls.removable 0 (front ++ back) = _ :=
      Text.outside_append front back
    rwa [← hsource, Nat.zero_add] at happend
  · exact Text.size_outside h.apart h.cut hsource
  · exact stripHints_eq_ok (Removal.plan_stripped path h.marks _) rfl

/-- A method with hints of every form, and an arrow function with hints inside of it. -/
def hintedSource : Text :=
  "<?php class A \x7b function m(?int $é, ?B $b = null): ?C \x7b ".toList ++
    "return fn(string $s, ?B $x): B => 0; \x7d public int $p; \x7d".toList

/-- The outline of that source. -/
def hintedFile : FileOutline :=
  ⟨some ⟨0, 5⟩, none, false,
    .classLike ⟨.ordinary, some "A".toList, 6, [], []⟩
      (.functionLike
        ⟨.method, some "m".toList, 16, none,
          [⟨"é".toList, ⟨27, 35⟩, 32, some ⟨⟨27, 31⟩, "?int".toList, 32⟩, false⟩,
            ⟨"b".toList, ⟨37, 49⟩, 40, some ⟨⟨37, 39⟩, "?B".toList, 40⟩, true⟩],
          some 50, some ⟨⟨52, 54⟩, "?C".toList, 55⟩⟩
        (.functionLike
          ⟨.arrow, none, 64, none,
            [⟨"s".toList, ⟨67, 76⟩, 74, some ⟨⟨67, 73⟩, "string".toList, 74⟩, false⟩,
              ⟨"x".toList, ⟨78, 83⟩, 81, some ⟨⟨78, 80⟩, "?B".toList, 81⟩, false⟩],
            some 84, some ⟨⟨86, 87⟩, "B".toList, 88⟩⟩
          .empty .empty) <|
      .property ⟨none, some ⟨⟨103, 106⟩, "int".toList, 107⟩, [⟨"p".toList, 107⟩]⟩ .empty)
    .empty⟩

/-- What is left of it. -/
def unhintedSource : Text :=
  "<?php class A \x7b function m($é, B $b = null) \x7b ".toList ++
    "return fn($s, ?B $x) => 0; \x7d public int $p; \x7d".toList

/-- Here the outline of what is left is also what is read from it. -/
theorem stripHints_exact_hinted :
    Php.outline? hintedSource = some hintedFile ∧ hintedFile.decls.Strippable hintedSource ∧
      stripHints "a.php".toList hintedSource hintedFile = .ok unhintedSource ∧
      Php.outline? unhintedSource = some (hintedFile.stripped hintedFile.decls.removable) ∧
      stripHints "a.php".toList unhintedSource (hintedFile.stripped hintedFile.decls.removable) =
        .ok unhintedSource := by
  have hstrippable : hintedFile.decls.Strippable hintedSource :=
    ⟨by decide, by decide, by decide, by decide +kernel, by decide⟩
  have hleft : hintedSource.outside hintedFile.decls.removable 0 = unhintedSource := by
    decide +kernel
  obtain ⟨hstrip, -, hagain⟩ := stripHints_exact "a.php".toList hstrippable
  rw [hleft] at hstrip hagain
  exact ⟨by decide +kernel, hstrippable, hstrip, by decide +kernel, hagain⟩

end NativeHints
