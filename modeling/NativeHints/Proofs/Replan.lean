import NativeHints.Proofs.TwinGraph

/-!
# Planning again

Planning for an annotated file, with the hierarchy of the annotated code base,
gives what is left of the plan for the original file: the places that have got
their text drop out, and the others move with the text (`planFile_annotated`).
Either both plans fail or none does.

The places of the file have to be apart.  Otherwise the text at one place would
move another one.
-/

namespace NativeHints

open HintType (BothAlike)
open Insertion (at? startAfter endAfter)

namespace Insertion

/-! ## What is left of a plan -/

/-- What is left of a plan when insertions have been made, as edits of the new text. -/
def left (is plan : List Insertion) : List Edit :=
  (plan.filter fun i => (at? is i.place).isNone).map fun i => Edit.after (is.map edit) 0 i.edit

theorem left_append (is a b : List Insertion) : left is (a ++ b) = left is a ++ left is b := by
  rw [left, List.filter_append, List.map_append]
  rfl

theorem left_of_some {is : List Insertion} {i j : Insertion} (h : at? is i.place = some j) :
    left is [i] = [] := by
  simp [left, h]

theorem left_of_none {is : List Insertion} {i : Insertion} (h : at? is i.place = none) :
    left is [i] = [.insert (endAfter is i.position) i.text] := by
  simp only [left, List.filter_cons, h, Option.isNone_none, if_true, List.filter_nil, List.map_cons,
    List.map_nil, Edit.after, position_edit, text_edit, Nat.zero_add, endAfter]
  rfl

/-! ## What is due again -/

section Due

variable {hint hint' : Option WrittenHint} {type type' : Option HintType}
  (htype : BothAlike type type') {allowed : HintType → Option HintType}
  (hallowed : ∀ t t', t.Alike t' → BothAlike (allowed t) (allowed t'))

include htype hallowed

theorem due_alike (hhint : hint'.isSome = hint.isSome) :
    BothAlike (due hint type allowed) (due hint' type' allowed) := by
  cases hint with
  | some h =>
      rw [due_of_isSome rfl, due_of_isSome hhint]
      exact .none
  | none =>
      cases hint' with
      | some h' => cases hhint
      | none => exact rel_bind htype hallowed

/-- What is due after insertions is left of what was due before.  Either the place has got
its hint, or the hint is due again, where the place has moved. -/
theorem map_edit_due {is : List Insertion} {place : Place}
    (hhint : hint'.isSome = (hint.isSome || (at? is place).isSome))
    {make make' : HintType → Insertion} (hplace : ∀ t, (make t).place = place)
    (hmoved : at? is place = none → ∀ t t', due hint type allowed = some t → t.Alike t' →
      (make' t').edit = .insert (endAfter is place.position) (make t).text) :
    ((due hint' type' allowed).map make').toList.map edit =
      left is ((due hint type allowed).map make).toList := by
  cases hfound : at? is place with
  | some j =>
      rw [hfound, Option.isSome_some, Bool.or_true] at hhint
      rw [due_of_isSome hhint]
      cases due hint type allowed with
      | none => rfl
      | some t => exact (left_of_some (hplace t ▸ hfound)).symm
  | none =>
      rw [hfound, Option.isSome_none, Bool.or_false] at hhint
      have halike := due_alike htype hallowed hhint
      cases hdue : due hint type allowed with
      | none =>
          rw [hdue] at halike
          rw [eq_none_of_rel_none halike]
          rfl
      | some t =>
          obtain ⟨t', hdue', ht⟩ := exists_of_rel_some (hdue ▸ halike)
          have hnone : at? is (make t).place = none := (hplace t).symm ▸ hfound
          have hposition : (make t).position = place.position := by
            rw [← hplace t, position_place]
          rw [hdue']
          simp only [Option.map_some, Option.toList_some, List.map_cons, List.map_nil]
          rw [left_of_none hnone, hposition, hmoved hfound t t' hdue ht]

end Due

/-! ## Parameters -/

theorem ofParam?_annotated (is : List Insertion) (options : Options) (inClass : Bool) (s : Scope)
    (p : Param) {type type' : Option HintType} (h : BothAlike type type') :
    (ofParam? options inClass s (p.annotated is) type').toList.map edit =
      left is (ofParam? options inClass s p type).toList := by
  rw [ofParam?_eq, ofParam?_eq]
  refine map_edit_due h (fun _ _ ht => parameterType?_alike ht options inClass p)
    (p.isSome_hint_annotated is) (fun _ => rfl) ?_
  intro _ t t' _ ht
  rw [ht.display_eq s]
  rfl

theorem ofParams_annotated (is : List Insertion) (options : Options) (inClass : Bool) (s : Scope)
    (ps : List Param) {types types' : List (Option HintType)}
    (h : List.Forall₂ BothAlike types types') :
    (ofParams options inClass s (ps.map (·.annotated is)) types').map edit =
      left is (ofParams options inClass s ps types) := by
  induction ps generalizing types types' with
  | nil => rw [List.map_nil, ofParams, ofParams]; rfl
  | cons p ps ih =>
      cases h with
      | nil => rfl
      | cons htype hrest =>
          rw [List.map_cons, ofParams, ofParams, List.map_append, left_append,
            ofParam?_annotated is options inClass s p htype, ih hrest]

/-! ## Results -/

variable {changes : Changes} {g g' : Graph} (options : Options) (path : Text)

theorem ofResult_annotated (g g' : Graph) (is : List Insertion) (s : Scope)
    {classes classes' : List Text} (hclasses : classes'.isEmpty = classes.isEmpty)
    (f : FunctionHead) {type type' : Option HintType} (h : BothAlike type type') :
    (ofResult ⟨g', options, path⟩ s classes' (f.annotated is) type').toOption.map (List.map edit) =
      (ofResult ⟨g, options, path⟩ s classes f type).toOption.map (left is) := by
  have hallowed : ∀ t t', HintType.Alike t t' →
      BothAlike (resultType? options (!classes.isEmpty) t)
        (resultType? options (!classes.isEmpty) t') :=
    fun _ _ ht => resultType?_alike ht options _
  cases hend : f.signatureEnd with
  | none =>
      -- a result that is due fails both times
      have hend' : (f.annotated is).signatureEnd = none := by
        rw [FunctionHead.annotated, hend]; rfl
      have hhint : (f.annotated is).result.isSome = f.result.isSome := by
        rw [FunctionHead.annotated, FunctionHead.annotatedResult, hend]
        cases f.result <;> rfl
      have halike := due_alike h hallowed hhint
      rw [ofResult_of_no_end ⟨g, options, path⟩ s classes hend,
        ofResult_of_no_end ⟨g', options, path⟩ s classes' hend', hclasses]
      generalize due f.result type (resultType? options (!classes.isEmpty)) = found at halike
      generalize due (f.annotated is).result type' (resultType? options (!classes.isEmpty)) =
        found' at halike
      cases halike with
      | none => rfl
      | some ht => rfl
  | some e =>
      have hend' : (f.annotated is).signatureEnd = some (endAfter is e) := by
        rw [FunctionHead.annotated, hend]; rfl
      rw [ofResult_of_end ⟨g, options, path⟩ s classes hend,
        ofResult_of_end ⟨g', options, path⟩ s classes' hend', hclasses]
      refine congrArg some (map_edit_due h hallowed (f.isSome_annotatedResult is hend)
        (fun _ => rfl) ?_)
      intro _ t t' _ ht
      rw [ht.display_eq s]
      rfl

/-! ## Function-likes and properties -/

theorem signatureFor_annotated (is : List Insertion) (hgraph : GraphTwin changes g g')
    (s : Scope) {classes classes' : List Text}
    (hclasses : List.Forall₂ (Twin changes) classes classes') (f : FunctionHead) :
    Option.Rel Signature.Alike (signatureFor ⟨g, options, path⟩ s classes f)
      (signatureFor ⟨g', options, path⟩ s classes' (f.annotated is)) := by
  have hhead : Option.Rel (Twin changes) classes.head? classes'.head? := by
    cases hclasses with
    | nil => exact .none
    | cons h _ => exact .some h
  have hkind : (f.annotated is).kind = f.kind := rfl
  have hname : (f.annotated is).name = f.name := rfl
  have hdoc : (f.annotated is).doc = f.doc := rfl
  have hparams : (f.annotated is).params.map Param.name = f.params.map Param.name := by
    rw [FunctionHead.annotated, List.map_map]
    rfl
  unfold signatureFor
  rw [hkind, hname, hdoc, hparams]
  split
  · refine rel_bind hhead fun a a' ha => ?_
    cases f.name with
    | none => exact .none
    | some name => exact hgraph.signature?_twin ha name
  · cases f.doc with
    | none => exact .none
    | some doc =>
        simp only [bind, Option.bind_some]
        split
        · exact .none
        · exact .some (.refl _)

theorem ofFunction_annotated (is : List Insertion) (hgraph : GraphTwin changes g g')
    (s : Scope) {classes classes' : List Text}
    (hclasses : List.Forall₂ (Twin changes) classes classes') (f : FunctionHead) :
    (ofFunction ⟨g', options, path⟩ s classes' (f.annotated is)).toOption.map (List.map edit) =
      (ofFunction ⟨g, options, path⟩ s classes f).toOption.map (left is) := by
  have hempty : classes'.isEmpty = classes.isEmpty := by
    cases hclasses <;> rfl
  have halike := signatureFor_annotated options path is hgraph s hclasses f
  cases hsignature : signatureFor ⟨g, options, path⟩ s classes f with
  | none =>
      have hsignature' : signatureFor ⟨g', options, path⟩ s classes' (f.annotated is) = none := by
        rw [hsignature] at halike
        exact eq_none_of_rel_none halike
      rw [ofFunction_of_none hsignature, ofFunction_of_none hsignature']
      rfl
  | some signature =>
      obtain ⟨signature', hsignature', hs⟩ := exists_of_rel_some (hsignature ▸ halike)
      have hresult := ofResult_annotated options path g g' is s hempty f hs.result
      have hparams : (ofParams options (!classes'.isEmpty) s (f.annotated is).params
            signature'.params).map edit =
          left is (ofParams options (!classes.isEmpty) s f.params signature.params) := by
        rw [hempty]
        exact ofParams_annotated is options _ s f.params hs.params
      rw [ofFunction_of_signature hsignature, ofFunction_of_signature hsignature']
      exact toOption_map_append (left_append is) (fun _ _ => List.map_append) hparams hresult

theorem startAfter_eq_endAfter {is : List Insertion} {position : Nat}
    (h : ∀ i ∈ is, i.position ≠ position) : startAfter is position = endAfter is position := by
  have hedits : ∀ e ∈ is.map edit, e.position ≠ position := by
    intro e he
    obtain ⟨i, hi, rfl⟩ := List.mem_map.mp he
    exact h i hi
  rw [startAfter, endAfter, Edit.sizeBefore_succ hedits]

theorem ofProperty_annotated {is : List Insertion} (hgraph : GraphTwin changes g g')
    (s : Scope) {classes classes' : List Text}
    (hclasses : List.Forall₂ (Twin changes) classes classes') {p : Property}
    (hapart : options .propertyTypes = true → ∀ place ∈ p.place?, ∀ i ∈ is,
      i.position = place.position → i.place = place) :
    (ofProperty ⟨g', options, path⟩ s classes' (p.annotated is)).map edit =
      left is (ofProperty ⟨g, options, path⟩ s classes p) := by
  by_cases hsingle : ∃ e around outer, p.elements = [e] ∧ classes = around :: outer
  · obtain ⟨e, around, outer, helements, rfl⟩ := hsingle
    cases hclasses with
    | @cons _ around' _ outer' ha houter =>
        have helements' : (p.annotated is).elements = [e.annotated is] := by
          rw [Property.annotated, helements]; rfl
        rw [ofProperty_of_single ⟨g, options, path⟩ s around outer helements,
          ofProperty_of_single ⟨g', options, path⟩ s around' outer' helements']
        refine map_edit_due (hgraph.property?_twin ha e.name)
          (fun _ _ ht => propertyType?_alike ht options true) (p.isSome_annotatedHint is helements)
          (fun _ => rfl) ?_
        intro hnone t t' hdue ht
        obtain ⟨hhint, u, -, hu⟩ := due_eq_some_iff.mp hdue
        have hplace : p.place? = some (.property e.start) := by
          rw [Property.place?, hhint, helements]
        -- nothing was inserted at the place, so nothing moves it
        have hfree : ∀ i ∈ is, i.position ≠ e.start := by
          intro i hi hposition
          have hsame := hapart (propertyType?_eq_some_iff.mp hu).2.1 _ hplace i hi hposition
          exact at?_eq_none_iff.mp hnone (hsame ▸ List.mem_map_of_mem hi)
        rw [ht.display_eq s, PropertyElement.annotated, startAfter_eq_endAfter hfree]
        rfl
  · have hempty : ofProperty ⟨g, options, path⟩ s classes p = [] :=
      (ofProperty_cases _ s classes p).resolve_right hsingle
    have hempty' : ofProperty ⟨g', options, path⟩ s classes' (p.annotated is) = [] := by
      refine (ofProperty_cases _ s classes' (p.annotated is)).resolve_right ?_
      rintro ⟨e', around', outer', helements', rfl⟩
      obtain ⟨e, helements, -⟩ := List.map_eq_singleton_iff.mp helements'
      cases hclasses with
      | @cons around _ outer _ ha houter => exact hsingle ⟨e, around, outer, helements, rfl⟩
    rw [hempty, hempty']
    rfl

end Insertion

/-! ## Visits -/

namespace Outline

theorem plain_scopeAfter {o : Outline} (ho : o.Plain) {s : Scope} (hs : s.Plain) :
    (o.scopeAfter s).Plain := by
  induction o generalizing s with
  | empty => exact hs
  | namespaceLine name rest ih => exact ih ho.2 (Scope.plain_enter s ho.1)
  | namespaceBlock name body rest ihbody ihrest =>
      exact ihrest ho.2.2 (Scope.plain_enter s fun n hn => by cases hn)
  | imports clauses rest ih => exact ih ho.2 (Scope.plain_importAll hs ho.1)
  | classLike head members rest ihmembers ihrest => exact ihrest ho.2.2 (ihmembers ho.2.1 hs)
  | functionLike head body rest ihbody ihrest => exact ihrest ho.2 (ihbody ho.1 hs)
  | property decl rest ih => exact ih ho hs
  | traitUse names rest ih => exact ih ho.2 hs

/-- All class-likes around the declarations of a plain outline are plain. -/
theorem plain_around {o : Outline} (ho : o.Plain) {s : Scope} (hs : s.Plain)
    {around : List (ClassHead × Scope)} (haround : ∀ a ∈ around, a.1.Plain ∧ a.2.Plain)
    {v : Visit} (hv : v ∈ o.visits s around) : ∀ a ∈ v.around, a.1.Plain ∧ a.2.Plain := by
  induction o generalizing s around with
  | empty => cases hv
  | namespaceLine name rest ih => exact ih ho.2 (Scope.plain_enter s ho.1) haround hv
  | namespaceBlock name body rest ihbody ihrest =>
      rcases List.mem_append.mp hv with hv | hv
      · exact ihbody ho.2.1 (Scope.plain_enter s ho.1) haround hv
      · exact ihrest ho.2.2 (Scope.plain_enter s fun n hn => by cases hn) haround hv
  | imports clauses rest ih => exact ih ho.2 (Scope.plain_importAll hs ho.1) haround hv
  | classLike head members rest ihmembers ihrest =>
      rcases List.mem_append.mp hv with hv | hv
      · refine ihmembers ho.2.1 hs ?_ hv
        intro a ha
        rcases List.mem_cons.mp ha with rfl | ha
        · exact ⟨ho.1, hs⟩
        · exact haround a ha
      · exact ihrest ho.2.2 (plain_scopeAfter ho.2.1 hs) haround hv
  | functionLike head body rest ihbody ihrest =>
      rcases List.mem_cons.mp hv with rfl | hv
      · exact haround
      · rcases List.mem_append.mp hv with hv | hv
        · exact ihbody ho.1 hs haround hv
        · exact ihrest ho.2 (plain_scopeAfter ho.1 hs) haround hv
  | property decl rest ih =>
      rcases List.mem_cons.mp hv with rfl | hv
      · exact haround
      · exact ih ho hs haround hv
  | traitUse names rest ih => exact ih ho.2 hs haround hv

end Outline

theorem Visit.classes_twin {changes : Changes} {path : Text} {is : List Insertion}
    (hfile : (path, is) ∈ changes) {v : Visit} (hplain : ∀ a ∈ v.around, a.1.Plain ∧ a.2.Plain) :
    List.Forall₂ (Twin changes) (v.classes path) ((v.annotated is).classes path) := by
  rw [Visit.classes, Visit.classes, Visit.annotated, List.map_map]
  refine List.forall₂_map_left_iff.mpr (List.forall₂_map_right_iff.mpr ?_)
  refine List.forall₂_same.mpr fun a ha => ?_
  exact Collect.key_twin hfile (hplain a ha).1 (hplain a ha).2

namespace Insertion

variable {changes : Changes} {g g' : Graph} {options : Options} {path : Text} {is : List Insertion}

theorem planVisit_annotated (hfile : (path, is) ∈ changes) (hgraph : GraphTwin changes g g')
    {v : Visit} (hplain : ∀ a ∈ v.around, a.1.Plain ∧ a.2.Plain)
    (hapart : ∀ p ∈ v.places options, ∀ i ∈ is, i.position = p.position → i.place = p) :
    (planVisit ⟨g', options, path⟩ (v.annotated is)).toOption.map (List.map edit) =
      (planVisit ⟨g, options, path⟩ v).toOption.map (left is) := by
  have hclasses := Visit.classes_twin hfile hplain
  obtain ⟨s, around, item⟩ := v
  cases item with
  | function head =>
      exact ofFunction_annotated options path is hgraph s hclasses head
  | property decl =>
      refine congrArg some ?_
      refine ofProperty_annotated options path hgraph s hclasses ?_
      intro hallowed p hp
      refine hapart p ?_
      rw [Visit.places]
      simpa [hallowed] using hp

/-! ## Files -/

theorem le_startAfter (is : List Insertion) (position : Nat) : position ≤ startAfter is position :=
  Nat.le_add_right _ _

theorem le_endAfter (is : List Insertion) (position : Nat) : position ≤ endAfter is position :=
  Nat.le_add_right _ _

/-- A position in front of all insertions does not move. -/
theorem endAfter_eq_self {is : List Insertion} {position : Nat}
    (h : ∀ i ∈ is, position ≤ i.position) : endAfter is position = position := by
  have hedits : ∀ e ∈ is.map edit, position ≤ e.position := by
    intro e he
    obtain ⟨i, hi, rfl⟩ := List.mem_map.mp he
    exact h i hi
  rw [endAfter, Edit.sizeBefore_eq_zero hedits, Nat.add_zero]

theorem startAfter_eq_self {is : List Insertion} {position : Nat}
    (h : ∀ i ∈ is, position < i.position) : startAfter is position = position := by
  rw [startAfter_eq_endAfter fun i hi => Nat.ne_of_gt (h i hi),
    endAfter_eq_self fun i hi => Nat.le_of_lt (h i hi)]

theorem isStrictTypes_iff {i : Insertion} : i.isStrictTypes = true ↔ ∃ p, i = .strictTypes p := by
  cases i <;> simp [isStrictTypes]

theorem openTag_of_strictTypesAt {f : FileOutline} {p : Nat} (h : f.strictTypesAt = some p) :
    ∃ tag, f.openTag = some tag ∧ tag.stop = p := by
  rw [FileOutline.strictTypesAt] at h
  split at h
  · cases h
  · next tag htag =>
      split at h
      · exact ⟨tag, htag, Option.some.inj h⟩
      · cases h

/-- The place of `strict_types` stays if nothing was inserted before the end of the open tag. -/
theorem strictTypesAt_annotated {f : FileOutline}
    (htag : ∀ tag ∈ f.openTag, ∀ i ∈ is, tag.stop ≤ i.position) :
    (f.annotated is).strictTypesAt = f.strictTypesAt := by
  cases hopen : f.openTag with
  | none =>
      have hopen' : (f.annotated is).openTag = none := by rw [FileOutline.annotated, hopen]; rfl
      rw [FileOutline.strictTypesAt, FileOutline.strictTypesAt, hopen, hopen']
  | some tag =>
      have htag := htag tag hopen
      have hopen' : (f.annotated is).openTag = some (tag.annotated is) := by
        rw [FileOutline.annotated, hopen]; rfl
      have hshebang : (f.annotated is).shebangEnd = f.shebangEnd.map (endAfter is) := rfl
      have hstop : endAfter is tag.stop = tag.stop := endAfter_eq_self htag
      rw [FileOutline.strictTypesAt, FileOutline.strictTypesAt, hopen, hopen', hshebang]
      simp only [Span.annotated, hstop]
      by_cases hlt : tag.start < tag.stop
      · have hstart : startAfter is tag.start = tag.start :=
          startAfter_eq_self fun i hi => Nat.lt_of_lt_of_le hlt (htag i hi)
        have hline : f.shebangEnd.map (endAfter is) = some tag.start ↔
            f.shebangEnd = some tag.start := by
          cases f.shebangEnd with
          | none => exact Iff.rfl
          | some e =>
              rw [Option.map_some, Option.some.injEq, Option.some.injEq]
              by_cases he : e ≤ tag.stop
              · rw [endAfter_eq_self fun i hi => Nat.le_trans he (htag i hi)]
              · have hle := le_endAfter is e
                omega
        simp only [hstart, hline]
      · have hle := le_startAfter is tag.start
        have hfirst : ¬ tag.stop = startAfter is tag.start + 5 := by omega
        have hsecond : ¬ tag.stop = tag.start + 5 := by omega
        rw [if_neg fun h => hfirst h.1, if_neg fun h => hsecond h.1]

theorem strictTypes_notMem_places {v : Visit} {p : Nat} :
    .strictTypes p ∉ v.places options := by
  intro h
  obtain ⟨s, around, item⟩ := v
  cases item with
  | function head =>
      rcases List.mem_append.mp h with h | h
      · obtain ⟨param, -, hplace⟩ := List.mem_filterMap.mp h
        rw [Param.place?] at hplace
        split at hplace <;> cases hplace
      · have hplace := Option.mem_toList.mp h
        rw [FunctionHead.resultPlace?] at hplace
        split at hplace
        · obtain ⟨e, -, he⟩ := Option.map_eq_some_iff.mp hplace
          cases he
        · cases hplace
  | property decl =>
      simp only [Visit.places] at h
      split at h
      · have hplace := Option.mem_toList.mp h
        rw [Property.place?] at hplace
        split at hplace <;> cases hplace
      · cases h

theorem strictTypesAt_of_place {f : FileOutline} {p : Nat}
    (h : .strictTypes p ∈ f.places options) : f.strictTypesAt = some p := by
  rw [FileOutline.places, Outline.places_eq_flatMap options f.decls .start [],
    List.mem_append] at h
  rcases h with h | h
  · split at h
    · cases hat : f.strictTypesAt with
      | none => rw [hat] at h; cases h
      | some q =>
          rw [hat] at h
          cases List.mem_singleton.mp h
          rfl
    · cases h
  · obtain ⟨v, -, hv⟩ := List.mem_flatMap.mp h
    exact absurd hv strictTypes_notMem_places

/-- The declaration stands at the only place for one. -/
theorem any_isStrictTypes {f : FileOutline} (hplaces : ∀ i ∈ is, i.place ∈ f.places options)
    {p : Nat} (hp : f.strictTypesAt = some p) :
    is.any isStrictTypes = (at? is (.strictTypes p)).isSome := by
  cases hfound : at? is (.strictTypes p) with
  | some i =>
      have hplace := place_of_at? hfound
      refine List.any_eq_true.mpr ⟨i, mem_of_at? hfound, ?_⟩
      cases i with
      | strictTypes q => rfl
      | _ => cases hplace
  | none =>
      refine List.any_eq_false.mpr fun i hi hstrict => ?_
      obtain ⟨q, rfl⟩ := isStrictTypes_iff.mp hstrict
      obtain rfl : p = q := Option.some.inj (hp.symm.trans (strictTypesAt_of_place (hplaces _ hi)))
      exact at?_eq_none_iff.mp hfound (List.mem_map_of_mem hi)

theorem ofFile_annotated {f : FileOutline} (hplaces : ∀ i ∈ is, i.place ∈ f.places options)
    (htag : ∀ tag ∈ f.openTag, ∀ i ∈ is, tag.stop ≤ i.position) :
    (ofFile options (f.annotated is)).map edit = left is (ofFile options f) := by
  have hat := strictTypesAt_annotated htag
  have hhas : (f.annotated is).hasStrictTypes = (f.hasStrictTypes || is.any isStrictTypes) := rfl
  rw [ofFile, ofFile, hat, hhas]
  cases hp : f.strictTypesAt with
  | none => split <;> split <;> rfl
  | some p =>
      rw [any_isStrictTypes hplaces hp]
      cases hfound : at? is (.strictTypes p) with
      | some i =>
          have hdone : ¬ (options .strictTypes && !(f.hasStrictTypes || (some i).isSome)) = true := by
            simp
          rw [if_neg hdone]
          split
          · exact (left_of_some (i := .strictTypes p) hfound).symm
          · rfl
      | none =>
          have hsame : endAfter is p = p := by
            obtain ⟨tag, htagged, rfl⟩ := openTag_of_strictTypesAt hp
            exact endAfter_eq_self (htag tag htagged)
          rw [Option.isSome_none, Bool.or_false]
          split
          · have hleft := left_of_none (i := .strictTypes p) hfound
            rw [show (Insertion.strictTypes p).position = p from rfl, hsame] at hleft
            exact hleft.symm
          · rfl

/-- Planning for an annotated file gives what is left of the plan for the original. -/
theorem planFile_annotated (hfile : (path, is) ∈ changes) (hgraph : GraphTwin changes g g')
    {f : FileOutline} (hplain : f.decls.Plain) (hplaces : ∀ i ∈ is, i.place ∈ f.places options)
    (hapart : ∀ p ∈ f.places options, ∀ i ∈ is, i.position = p.position → i.place = p)
    (htag : ∀ tag ∈ f.openTag, ∀ i ∈ is, tag.stop ≤ i.position) :
    (planFile ⟨g', options, path⟩ (f.annotated is)).toOption.map (List.map edit) =
      (planFile ⟨g, options, path⟩ f).toOption.map (left is) := by
  have hhead := ofFile_annotated hplaces htag
  have hhints : (gather (planVisit ⟨g', options, path⟩)
        ((f.annotated is).decls.visits .start [])).toOption.map (List.map edit) =
      (gather (planVisit ⟨g, options, path⟩)
        (f.decls.visits .start [])).toOption.map (left is) := by
    have hvisits := Outline.visits_annotated is f.decls .start []
    rw [List.map_nil] at hvisits
    have hdecls : (f.annotated is).decls = f.decls.annotated is := rfl
    rw [hdecls, hvisits]
    have hnil : List.map edit [] = left is [] := rfl
    refine gather_toOption (left_append is) (fun _ _ => List.map_append) hnil ?_
    intro v hv
    refine planVisit_annotated hfile hgraph ?_ ?_
    · exact Outline.plain_around hplain Scope.plain_start (fun a ha => by cases ha) hv
    · intro p hp
      refine hapart p ?_
      rw [FileOutline.places, Outline.places_eq_flatMap options f.decls .start []]
      exact List.mem_append_right _ (List.mem_flatMap.mpr ⟨v, hv, hp⟩)
  rw [planFile_eq_gather, planFile_eq_gather]
  exact toOption_map_append (left_append is) (fun _ _ => List.map_append) hhead hhints

end Insertion

end NativeHints
