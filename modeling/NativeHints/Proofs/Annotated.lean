import NativeHints.Proofs.Places

/-!
# The outline of an annotated file

When insertions have been made in a file, its outline is the old one with two
changes.  Every position counts the text inserted in front of it, and every
inserted hint is the hint of its parameter, function-like or property.

A text inserted at a position stands in front of what begins there and behind
what ends there.  So there are two ways to move a position, `startAfter` and
`endAfter`.  A parameter begins with its hint, so its own start does not move
behind the hint.
-/

namespace NativeHints

namespace Insertion

/-! ## Looking up an insertion -/

/-- The insertion at a place. -/
def at? (is : List Insertion) (p : Place) : Option Insertion :=
  is.find? fun i => decide (i.place = p)

theorem mem_of_at? {is : List Insertion} {p : Place} {i : Insertion} (h : at? is p = some i) :
    i ∈ is := List.mem_of_find?_eq_some h

theorem place_of_at? {is : List Insertion} {p : Place} {i : Insertion} (h : at? is p = some i) :
    i.place = p := by simpa using List.find?_some h

theorem at?_eq_none_iff {is : List Insertion} {p : Place} :
    at? is p = none ↔ p ∉ is.map place := by
  simp [at?]

theorem at?_cons_self (i : Insertion) (is : List Insertion) : at? (i :: is) i.place = some i := by
  simp [at?]

theorem at?_cons_of_ne {i : Insertion} {p : Place} (h : i.place ≠ p) (is : List Insertion) :
    at? (i :: is) p = at? is p := by
  simp [at?, h]

/-- Insertions at distinct places are found again, place by place. -/
theorem filterMap_at? {is : List Insertion} {ps : List Place}
    (hsub : (is.map place).Sublist ps) (hdistinct : ps.Nodup) : ps.filterMap (at? is) = is := by
  induction ps generalizing is with
  | nil =>
      cases is with
      | nil => rfl
      | cons i is => cases hsub
  | cons p ps ih =>
      obtain ⟨hp, hps⟩ := List.nodup_cons.mp hdistinct
      cases is with
      | nil => exact List.filterMap_eq_nil_iff.mpr fun q _ => rfl
      | cons i is =>
          rw [List.map_cons] at hsub
          cases hsub with
          | cons _ hsub =>
              have hnone : at? (i :: is) p = none :=
                at?_eq_none_iff.mpr fun hmem => hp (hsub.subset hmem)
              rw [List.filterMap_cons_none hnone]
              exact ih hsub hps
          | cons_cons _ hsub =>
              rw [List.filterMap_cons_some (at?_cons_self i is)]
              have hrest : ps.filterMap (at? (i :: is)) = ps.filterMap (at? is) := by
                refine List.filterMap_congr fun q hq => at?_cons_of_ne ?_ is
                rintro rfl
                exact hp hq
              rw [hrest, ih hsub hps]

/-- The hint that is written. -/
def written : Insertion → Text
  | strictTypes _ => []
  | parameter _ _ written | result _ _ written | property _ _ written => written

/-- Whether the insertion is the hint of a parameter. -/
def isParameter : Insertion → Bool
  | parameter _ _ _ => true
  | _ => false

/-- Whether the insertion declares `strict_types`. -/
def isStrictTypes : Insertion → Bool
  | strictTypes _ => true
  | _ => false

/-! ## Moving positions -/

/-- Where something ends that ended at a position before the insertions. -/
def endAfter (is : List Insertion) (position : Nat) : Nat :=
  position + Edit.sizeBefore (is.map edit) position

/-- Where something begins that began at a position before the insertions. -/
def startAfter (is : List Insertion) (position : Nat) : Nat :=
  position + Edit.sizeBefore (is.map edit) (position + 1)

end Insertion

open Insertion (at? startAfter endAfter)

/-- A range after insertions. -/
def Span.annotated (is : List Insertion) (s : Span) : Span :=
  ⟨startAfter is s.start, endAfter is s.stop⟩

/-- An old hint after insertions. -/
def WrittenHint.annotated (is : List Insertion) (h : WrittenHint) : WrittenHint :=
  ⟨h.span.annotated is, h.text, startAfter is h.next⟩

/-- A new hint that begins at a position, with a text of the given size between it and the
next token. -/
def WrittenHint.new (position : Nat) (text : Text) (gap : Nat) : WrittenHint :=
  ⟨⟨position, position + text.size⟩, text, position + text.size + gap⟩

/-- A parameter after insertions. -/
def Param.annotated (is : List Insertion) (p : Param) : Param :=
  { p with
    span := ⟨endAfter is p.span.start, endAfter is p.span.stop⟩
    hintAt := endAfter is p.hintAt
    hint := match p.hint with
      | some h => some (h.annotated is)
      | none =>
          (at? is (.parameter p.hintAt)).map fun i => .new (endAfter is p.hintAt) i.written 1 }

theorem Param.hint_annotated (is : List Insertion) {p : Param} (h : p.hint = none) :
    (p.annotated is).hint =
      (at? is (.parameter p.hintAt)).map fun i => .new (endAfter is p.hintAt) i.written 1 := by
  rw [annotated, h]

theorem Param.isSome_hint_annotated (is : List Insertion) (p : Param) :
    (p.annotated is).hint.isSome = (p.hint.isSome || (at? is (.parameter p.hintAt)).isSome) := by
  cases hhint : p.hint with
  | none => rw [hint_annotated is hhint, Option.isSome_map]; rfl
  | some hint => rw [annotated, hhint]; rfl

namespace FunctionHead

/-- The result hint of a function-like after insertions. -/
def annotatedResult (is : List Insertion) (f : FunctionHead) : Option WrittenHint :=
  match f.result, f.signatureEnd with
  | some h, _ => some (h.annotated is)
  | none, some e => (at? is (.result e)).map fun i => .new (endAfter is e + 3) i.written 0
  | none, none => none

theorem annotatedResult_of_end (is : List Insertion) {f : FunctionHead} {e : Nat}
    (h : f.result = none) (hend : f.signatureEnd = some e) :
    f.annotatedResult is =
      (at? is (.result e)).map fun i => .new (endAfter is e + 3) i.written 0 := by
  rw [annotatedResult, h, hend]

theorem isSome_annotatedResult (is : List Insertion) {f : FunctionHead} {e : Nat}
    (hend : f.signatureEnd = some e) :
    (f.annotatedResult is).isSome = (f.result.isSome || (at? is (.result e)).isSome) := by
  cases hhint : f.result with
  | none => rw [annotatedResult_of_end is hhint hend, Option.isSome_map]; rfl
  | some hint => rw [annotatedResult, hhint]; rfl

/-- A function-like after insertions. -/
def annotated (is : List Insertion) (f : FunctionHead) : FunctionHead :=
  { f with
    start := startAfter is f.start
    params := f.params.map (·.annotated is)
    signatureEnd := f.signatureEnd.map (endAfter is)
    result := f.annotatedResult is }

end FunctionHead

/-- A variable of a property declaration after insertions. -/
def PropertyElement.annotated (is : List Insertion) (e : PropertyElement) : PropertyElement :=
  { e with start := startAfter is e.start }

namespace Property

/-- The hint of a property declaration after insertions. -/
def annotatedHint (is : List Insertion) (p : Property) : Option WrittenHint :=
  match p.hint, p.elements with
  | some h, _ => some (h.annotated is)
  | none, [e] => (at? is (.property e.start)).map fun i => .new (endAfter is e.start) i.written 1
  | none, _ => none

theorem isSome_annotatedHint (is : List Insertion) {p : Property} {e : PropertyElement}
    (helements : p.elements = [e]) :
    (p.annotatedHint is).isSome = (p.hint.isSome || (at? is (.property e.start)).isSome) := by
  cases hhint : p.hint with
  | none => rw [annotatedHint, hhint, helements, Option.isSome_map]; rfl
  | some hint => rw [annotatedHint, hhint]; rfl

/-- A property declaration after insertions. -/
def annotated (is : List Insertion) (p : Property) : Property :=
  { p with
    hint := p.annotatedHint is
    elements := p.elements.map (·.annotated is) }

end Property

/-- A class-like after insertions. -/
def ClassHead.annotated (is : List Insertion) (c : ClassHead) : ClassHead :=
  { c with start := startAfter is c.start }

/-- An outline after insertions. -/
def Outline.annotated (is : List Insertion) : Outline → Outline
  | .empty => .empty
  | .namespaceLine name rest => .namespaceLine name (rest.annotated is)
  | .namespaceBlock name body rest =>
      .namespaceBlock name (body.annotated is) (rest.annotated is)
  | .imports clauses rest => .imports clauses (rest.annotated is)
  | .classLike head members rest =>
      .classLike (head.annotated is) (members.annotated is) (rest.annotated is)
  | .functionLike head body rest =>
      .functionLike (head.annotated is) (body.annotated is) (rest.annotated is)
  | .property decl rest => .property (decl.annotated is) (rest.annotated is)
  | .traitUse names rest => .traitUse names (rest.annotated is)

/-- The outline of a file after insertions. -/
def FileOutline.annotated (is : List Insertion) (f : FileOutline) : FileOutline :=
  ⟨f.openTag.map (·.annotated is), f.shebangEnd.map (endAfter is),
    f.hasStrictTypes || is.any Insertion.isStrictTypes, f.decls.annotated is⟩

/-! ## Visits -/

/-- A visit after insertions. -/
def Visit.annotated (is : List Insertion) (v : Visit) : Visit :=
  ⟨v.scope, v.around.map fun c => (c.1.annotated is, c.2),
    match v.item with
    | .function head => .function (head.annotated is)
    | .property decl => .property (decl.annotated is)⟩

namespace Outline

theorem scopeAfter_annotated (is : List Insertion) (o : Outline) (s : Scope) :
    (o.annotated is).scopeAfter s = o.scopeAfter s := by
  induction o generalizing s with
  | empty => rfl
  | namespaceLine name rest ih => exact ih _
  | namespaceBlock name body rest ihbody ihrest =>
      rw [annotated, scopeAfter, scopeAfter, ihbody, ihrest]
  | imports clauses rest ih => exact ih _
  | classLike head members rest ihmembers ihrest =>
      rw [annotated, scopeAfter, scopeAfter, ihmembers, ihrest]
  | functionLike head body rest ihbody ihrest =>
      rw [annotated, scopeAfter, scopeAfter, ihbody, ihrest]
  | property decl rest ih => exact ih _
  | traitUse names rest ih => exact ih _

/-- The way through the outline stays the same. -/
theorem visits_annotated (is : List Insertion) (o : Outline) (s : Scope)
    (around : List (ClassHead × Scope)) :
    (o.annotated is).visits s (around.map fun c => (c.1.annotated is, c.2)) =
      (o.visits s around).map (Visit.annotated is) := by
  induction o generalizing s around with
  | empty => rfl
  | namespaceLine name rest ih => exact ih _ _
  | namespaceBlock name body rest ihbody ihrest =>
      rw [annotated, visits, visits, ihbody, ihrest, scopeAfter_annotated, List.map_append]
  | imports clauses rest ih => exact ih _ _
  | classLike head members rest ihmembers ihrest =>
      have hmembers := ihmembers s ((head, s) :: around)
      rw [List.map_cons] at hmembers
      rw [annotated, visits, visits, hmembers, ihrest, scopeAfter_annotated, List.map_append]
  | functionLike head body rest ihbody ihrest =>
      rw [annotated, visits, visits, ihbody, ihrest, scopeAfter_annotated, List.map_cons,
        List.map_append]
      rfl
  | property decl rest ih =>
      rw [annotated, visits, visits, ih, List.map_cons]
      rfl
  | traitUse names rest ih => exact ih _ _

end Outline

end NativeHints
