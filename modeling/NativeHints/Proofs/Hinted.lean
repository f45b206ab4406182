import NativeHints.Proofs.Log
import NativeHints.Proofs.Replan
import NativeHints.Proofs.Sites

/-!
# Files that have got their hints

A plan is made with a hierarchy and carried out.  Planning for the new text with the same
hierarchy mostly finds nothing to do: what was due has been inserted, and what was not due
is not due now.  The one thing that may change is the key of an anonymous class, since the
class may have moved.  If nothing is recorded under its new key, its members have no types
and get no hints.  So the second plan is empty unless an anonymous class has moved to a key
that is known (`planFile_hinted`).

The hints of an outline matter to a plan only by standing there (`planFile_blanked`).
-/

namespace NativeHints

open Insertion (at? startAfter endAfter)

/-! ## Hints that stand there -/

/-- A hint of which nothing is known. -/
def WrittenHint.blank : WrittenHint := ⟨⟨0, 0⟩, [], 0⟩

/-- A parameter with its hint blanked, and then also the place for one. -/
def Param.blanked (p : Param) : Param :=
  match p.hint with
  | none => p
  | some _ => { p with hintAt := 0, hint := some .blank }

/-- A function-like with its hints blanked. -/
def FunctionHead.blanked (f : FunctionHead) : FunctionHead :=
  { f with params := f.params.map Param.blanked, result := f.result.map fun _ => .blank }

/-- A property declaration with its hint blanked. -/
def Property.blanked (p : Property) : Property := { p with hint := p.hint.map fun _ => .blank }

/-- An outline with its hints blanked. -/
def Outline.blanked : Outline → Outline
  | .empty => .empty
  | .namespaceLine name rest => .namespaceLine name rest.blanked
  | .namespaceBlock name body rest => .namespaceBlock name body.blanked rest.blanked
  | .imports clauses rest => .imports clauses rest.blanked
  | .classLike head members rest => .classLike head members.blanked rest.blanked
  | .functionLike head body rest => .functionLike head.blanked body.blanked rest.blanked
  | .property decl rest => .property decl.blanked rest.blanked
  | .traitUse names rest => .traitUse names rest.blanked

/-- The outline of a file with its hints blanked. -/
def FileOutline.blanked (f : FileOutline) : FileOutline := { f with decls := f.decls.blanked }

theorem Param.name_blanked (p : Param) : p.blanked.name = p.name := by
  unfold Param.blanked
  split <;> rfl

namespace Insertion

variable (c : Context) (s : Scope) (classes : List Text)

theorem due_blanked (hint : Option WrittenHint) (type : Option HintType)
    (allowed : HintType → Option HintType) :
    due (hint.map fun _ => .blank) type allowed = due hint type allowed := by
  cases hint <;> rfl

theorem ofParams_blanked (options : Options) (inClass : Bool) (ps : List Param)
    (types : List (Option HintType)) :
    ofParams options inClass s (ps.map Param.blanked) types =
      ofParams options inClass s ps types := by
  induction ps generalizing types with
  | nil => rfl
  | cons p ps ih =>
      cases types with
      | nil => rfl
      | cons type types =>
          have hparam : ofParam? options inClass s p.blanked type =
              ofParam? options inClass s p type := by
            unfold Param.blanked
            split
            · rfl
            · next hint hhint => rw [ofParam?_eq, ofParam?_eq, hhint]; rfl
          rw [List.map_cons, ofParams, ofParams, ih, hparam]

theorem ofFunction_blanked (f : FunctionHead) :
    ofFunction c s classes f.blanked = ofFunction c s classes f := by
  have hsignature : signatureFor c s classes f.blanked = signatureFor c s classes f := by
    have hparams : f.blanked.params.map Param.name = f.params.map Param.name := by
      rw [FunctionHead.blanked, List.map_map]
      exact List.map_congr_left fun p _ => p.name_blanked
    unfold signatureFor
    rw [hparams]
    rfl
  have hresult : ∀ type, ofResult c s classes f.blanked type = ofResult c s classes f type := by
    intro type
    rw [ofResult_eq, ofResult_eq, FunctionHead.blanked, due_blanked]
  rw [ofFunction, ofFunction, hsignature]
  cases signatureFor c s classes f with
  | none => rfl
  | some signature =>
      have hparams : f.blanked.params = f.params.map Param.blanked := rfl
      simp only [hresult, hparams, ofParams_blanked]

theorem ofProperty_blanked (p : Property) :
    ofProperty c s classes p.blanked = ofProperty c s classes p := by
  rw [Property.blanked, ofProperty.eq_def, ofProperty.eq_def]
  cases p.hint <;> rfl

theorem plan_blanked (o : Outline) : plan c o.blanked s classes = plan c o s classes := by
  induction o generalizing s classes with
  | empty => rfl
  | namespaceLine name rest ih => exact ih _ _
  | namespaceBlock name body rest ihbody ihrest => simp only [Outline.blanked, plan, ihbody, ihrest]
  | imports clauses rest ih => exact ih _ _
  | classLike head members rest ihmembers ihrest =>
      simp only [Outline.blanked, plan, ihmembers, ihrest]
  | functionLike head body rest ihbody ihrest =>
      simp only [Outline.blanked, plan, ofFunction_blanked, ihbody, ihrest]
  | property decl rest ih => simp only [Outline.blanked, plan, ofProperty_blanked, ih]
  | traitUse names rest ih => exact ih _ _

/-- A plan does not depend on what hints stand in the file. -/
theorem planFile_blanked (f : FileOutline) : planFile c f.blanked = planFile c f := by
  simp only [planFile, FileOutline.blanked, plan_blanked]
  rfl

/-! ## Nothing is due again -/

theorem isSome_at?_of_mem {is : List Insertion} {i : Insertion} (h : i ∈ is) :
    (at? is i.place).isSome = true := by
  rw [Option.isSome_iff_ne_none, Ne, at?_eq_none_iff, not_not]
  exact List.mem_map_of_mem h

section Again

variable {is : List Insertion}

/-- What was due has been inserted, so it is not due now. -/
theorem due_again {place : Place} {hint hint' : Option WrittenHint} {type : Option HintType}
    {allowed : HintType → Option HintType}
    (hhint : hint'.isSome = (hint.isSome || (at? is place).isSome))
    (hmade : ∀ t, due hint type allowed = some t → (at? is place).isSome = true) :
    due hint' type allowed = none := by
  cases hhint' : hint' with
  | some h => exact due_of_isSome rfl ..
  | none =>
      rw [hhint', Option.isSome_none, eq_comm, Bool.or_eq_false_iff] at hhint
      have hnone : hint = none := by simpa using hhint.1
      cases hdue : due none type allowed with
      | none => rfl
      | some t =>
          have hmade := hmade t (hnone ▸ hdue)
          rw [hhint.2] at hmade
          cases hmade

theorem ofParams_hinted (options : Options) (inClass : Bool) {ps : List Param}
    {types : List (Option HintType)} (h : ∀ i ∈ ofParams options inClass s ps types, i ∈ is) :
    ofParams options inClass s (ps.map (·.annotated is)) types = [] := by
  induction ps generalizing types with
  | nil => rfl
  | cons p ps ih =>
      cases types with
      | nil => rfl
      | cons type types =>
          rw [ofParams] at h
          obtain ⟨hfirst, hrest⟩ := List.forall_mem_append.mp h
          have hparam : ofParam? options inClass s (p.annotated is) type = none := by
            rw [ofParam?_eq, Option.map_eq_none_iff]
            refine due_again (p.isSome_hint_annotated is) fun t ht => ?_
            have hdue : due p.hint type (parameterType? options inClass p) = some t := ht
            refine isSome_at?_of_mem (hfirst (.parameter p.hintAt t (s.display t)) ?_)
            rw [ofParam?_eq, hdue]
            exact List.mem_singleton.mpr rfl
          rw [List.map_cons, ofParams, hparam, ih hrest]
          rfl

variable {classes} {classes' : List Text} {c}

theorem ofResult_hinted (hempty : classes'.isEmpty = classes.isEmpty) {f : FunctionHead}
    {type : Option HintType} {here : List Insertion}
    (h : ofResult c s classes f type = .ok here) (hhere : ∀ i ∈ here, i ∈ is) :
    ofResult c s classes' (f.annotated is) type = .ok [] := by
  have hdue :
      due (f.annotatedResult is) type (resultType? c.options (!classes.isEmpty)) = none := by
    cases hend : f.signatureEnd with
    | some e =>
        rw [ofResult_of_end c s classes hend] at h
        cases h
        refine due_again (f.isSome_annotatedResult is hend) fun t ht => ?_
        refine isSome_at?_of_mem (hhere (.result e t (s.display t)) ?_)
        rw [ht]
        exact List.mem_singleton.mpr rfl
    | none =>
        -- a result that is due would have failed the first time
        rw [ofResult_of_no_end c s classes hend] at h
        have hnot : ¬ (due f.result type (resultType? c.options (!classes.isEmpty))).isSome := by
          intro hsome
          rw [if_pos hsome] at h
          cases h
        have hnone : due f.result type (resultType? c.options (!classes.isEmpty)) = none := by
          simpa using hnot
        rw [FunctionHead.annotatedResult, hend]
        cases hresult : f.result with
        | some hint => rfl
        | none => rwa [hresult] at hnone
  rw [ofResult_eq, hempty]
  rw [show (f.annotated is).result = f.annotatedResult is from rfl, hdue]

/-- A function-like that has its hints, with the signature that they come from or with none. -/
theorem ofFunction_hinted (hempty : classes'.isEmpty = classes.isEmpty) {f : FunctionHead}
    (hsignature : signatureFor c s classes' (f.annotated is) = signatureFor c s classes f ∨
      signatureFor c s classes' (f.annotated is) = none) {here : List Insertion}
    (h : ofFunction c s classes f = .ok here) (hhere : ∀ i ∈ here, i ∈ is) :
    ofFunction c s classes' (f.annotated is) = .ok [] := by
  rcases hsignature with hsame | hnone
  · rcases ofFunction_eq_ok_iff.mp h with ⟨hnone, rfl⟩ | ⟨signature, result, hsome, hresult, rfl⟩
    · exact ofFunction_of_none (hsame.trans hnone)
    · obtain ⟨hparams, hresult'⟩ := List.forall_mem_append.mp hhere
      rw [ofFunction_of_signature (hsame.trans hsome), ofResult_hinted s hempty hresult hresult',
        hempty]
      have hnothing := ofParams_hinted s c.options (!classes.isEmpty) hparams
      exact congrArg (fun front => Except.ok (front ++ [])) hnothing
  · exact ofFunction_of_none hnone

/-- A property that has its hint, with the type that it comes from or with none. -/
theorem ofProperty_hinted {around around' : Text} {outer outer' : List Text} {p : Property}
    (htype : ∀ x, c.graph.property? around' x = c.graph.property? around x ∨
      c.graph.property? around' x = none)
    (hhere : ∀ i ∈ ofProperty c s (around :: outer) p, i ∈ is) :
    ofProperty c s (around' :: outer') (p.annotated is) = [] := by
  rcases ofProperty_cases c s (around' :: outer') (p.annotated is) with hnothing | hsingle
  · exact hnothing
  · obtain ⟨e', -, -, helements', -⟩ := hsingle
    obtain ⟨e, helements, rfl⟩ := List.map_eq_singleton_iff.mp helements'
    have hdue : due (p.annotatedHint is) (c.graph.property? around' e.name)
        (propertyType? c.options true) = none := by
      rcases htype e.name with hsame | hnone
      · rw [hsame]
        refine due_again (p.isSome_annotatedHint is helements) fun t ht => ?_
        refine isSome_at?_of_mem (hhere (.property e.start t (s.display t)) ?_)
        rw [ofProperty_of_single c s around outer helements, ht]
        exact List.mem_singleton.mpr rfl
      · rw [hnone]
        cases p.annotatedHint is <;> rfl
    rw [ofProperty_of_single c s around' outer' helements']
    rw [show (p.annotated is).hint = p.annotatedHint is from rfl,
      show (e.annotated is).name = e.name from rfl, hdue]
    rfl

end Again

end Insertion

/-! ## Classes that nothing is recorded for -/

namespace Graph

/-- Every class with an entry is known. -/
theorem isKnown_of_class? {files : List (Text × Outline)} {name : Text} {e : ClassEntry}
    (h : (ofOutlines files).class? name = some e) : (ofOutlines files).isKnown name = true := by
  rw [class?, ofOutlines, find?_classes_ofFacts] at h
  obtain ⟨f, hf, he⟩ := List.mem_flatMap.mp (List.mem_of_getLast? h)
  obtain ⟨file, hfile, rfl⟩ := List.mem_map.mp hf
  obtain ⟨he, hkey⟩ := List.mem_filter.mp he
  rw [Outline.classes_facts] at he
  obtain ⟨c, hc, rfl⟩ := List.mem_map.mp he
  have hedge : (c.key file.1, c.parents) ∈ (file.2.facts file.1).edges :=
    (file.2.edges_facts file.1).mem_iff.mpr
      (List.mem_flatMap.mpr ⟨c, hc, List.mem_cons_self ..⟩)
  rw [ofOutlines, isKnown_ofFacts_iff]
  refine ⟨_, List.mem_map_of_mem hfile, _, hedge, ?_⟩
  rw [← c.key_entry]
  exact of_decide_eq_true hkey

theorem signature?_of_unknown {g : Graph} {name : Text} (h : g.isKnown name = false)
    (method : Text) : g.signature? name method = none := by
  rw [signature?, searchSignature_succ, h]
  rfl

/-- A class without an entry and without parents has no types of properties. -/
theorem property?_of_unknown {g : Graph} {name : Text} (h : g.isKnown name = false)
    (hclass : g.class? name = none) (property : Text) : g.property? name property = none := by
  rw [property?, searchProperty, parentsOf_of_unknown h, searchParents, ownProperty?, hclass]
  rfl

/-- A class has kept its name, or the new one has no types. -/
def KeptOrLost (g : Graph) (name name' : Text) : Prop :=
  name' = name ∨
    (∀ method, g.signature? name' method = none) ∧ ∀ property, g.property? name' property = none

theorem keptOrLost_of_unknown {files : List (Text × Outline)} (name : Text) {name' : Text}
    (h : (ofOutlines files).isKnown name' = false) : (ofOutlines files).KeptOrLost name name' := by
  have hclass : (ofOutlines files).class? name' = none := by
    cases hentry : (ofOutlines files).class? name' with
    | none => rfl
    | some e => cases h.symm.trans (isKnown_of_class? hentry)
  exact .inr ⟨signature?_of_unknown h, property?_of_unknown h hclass⟩

end Graph

/-! ## Files -/

namespace Insertion

section Visits

variable {c : Context} {is : List Insertion}

/-- A method has the signature it had, or none if its class has lost its types. -/
theorem signatureFor_hinted (s : Scope) {classes classes' : List Text}
    (hhead : Option.Rel c.graph.KeptOrLost classes.head? classes'.head?) (f : FunctionHead) :
    signatureFor c s classes' (f.annotated is) = signatureFor c s classes f ∨
      signatureFor c s classes' (f.annotated is) = none := by
  have hparams : (f.annotated is).params.map Param.name = f.params.map Param.name := by
    rw [FunctionHead.annotated, List.map_map]
    rfl
  unfold signatureFor
  rw [hparams]
  rw [show (f.annotated is).kind = f.kind from rfl, show (f.annotated is).name = f.name from rfl,
    show (f.annotated is).doc = f.doc from rfl]
  split
  · generalize classes.head? = around at hhead ⊢
    generalize classes'.head? = around' at hhead ⊢
    cases hhead with
    | none => exact .inl rfl
    | some h =>
        rcases h with rfl | ⟨hlost, -⟩
        · exact .inl rfl
        · refine .inr ?_
          cases f.name with
          | none => rfl
          | some name => exact hlost name
  · exact .inl rfl

theorem planVisit_hinted {v : Visit}
    (hhead : Option.Rel c.graph.KeptOrLost (v.classes c.path).head?
      ((v.annotated is).classes c.path).head?)
    {here : List Insertion} (h : planVisit c v = .ok here) (hhere : ∀ i ∈ here, i ∈ is) :
    planVisit c (v.annotated is) = .ok [] := by
  obtain ⟨s, around, item⟩ := v
  cases item with
  | function head =>
      refine ofFunction_hinted s ?_ (signatureFor_hinted s hhead head) h hhere
      cases around <;> rfl
  | property decl =>
      refine congrArg Except.ok ?_
      cases h
      cases around with
      | nil =>
          refine (ofProperty_cases c s _ (decl.annotated is)).resolve_right ?_
          rintro ⟨e, around, outer, -, hclasses⟩
          cases hclasses
      | cons a around =>
          refine ofProperty_hinted s (fun x => ?_) hhere
          rcases Option.rel_some_some.mp hhead with hkept | ⟨-, hlost⟩
          · exact .inl (congrArg (c.graph.property? · x) hkept)
          · exact .inr (hlost x)

end Visits

/-- Carrying out a plan for a file disturbs no keys.  It begins behind the open tag, and no
anonymous class moves to where another class is known. -/
structure Calm (c : Context) (f : FileOutline) (is : List Insertion) : Prop where
  behind : ∀ tag ∈ f.openTag, ∀ i ∈ is, tag.stop ≤ i.position
  anonymous : ∀ site ∈ f.decls.classSites .start, site.head.name = none →
    startAfter is site.head.start = site.head.start ∨
      c.graph.isKnown (anonymousName c.path (startAfter is site.head.start)) = false

theorem gather_eq_nil {f : Visit → Except Error (List Insertion)} {vs : List Visit}
    (h : ∀ v ∈ vs, f v = .ok []) : gather f vs = .ok [] := by
  induction vs with
  | nil => rfl
  | cons v vs ih =>
      obtain ⟨hfirst, hrest⟩ := List.forall_mem_cons.mp h
      exact gather_cons_eq_ok.mpr ⟨[], [], hfirst, ih hrest, rfl⟩

theorem left_of_subset {is part : List Insertion} (h : ∀ i ∈ part, i ∈ is) :
    left is part = [] := by
  rw [left, List.map_eq_nil_iff, List.filter_eq_nil_iff]
  intro i hi
  rw [Option.isNone_iff_eq_none, ← Ne, ← Option.isSome_iff_ne_none]
  exact isSome_at?_of_mem (h i hi)

section Files

variable {files : List (Text × Outline)} {options : Options} {path : Text} {f : FileOutline}
  {is : List Insertion}

/-- The innermost class around a declaration has kept its key or has lost its types. -/
theorem Calm.keptOrLost (hcalm : Calm ⟨.ofOutlines files, options, path⟩ f is) {v : Visit}
    (hv : v ∈ f.decls.visits .start []) :
    Option.Rel (Graph.ofOutlines files).KeptOrLost (v.classes path).head?
      ((v.annotated is).classes path).head? := by
  obtain ⟨s, around, item⟩ := v
  cases around with
  | nil => exact .none
  | cons a around =>
      refine .some ?_
      rcases Outline.around_visits hv (List.mem_cons_self ..) with h | ⟨site, hsite, rfl⟩
      · cases h
      · show (Graph.ofOutlines files).KeptOrLost (site.head.key path site.scope)
          ((site.head.annotated is).key path site.scope)
        cases hname : site.head.name with
        | some name =>
            refine .inl ?_
            have hname' : (site.head.annotated is).name = some name := hname
            rw [ClassHead.key_of_name hname, ClassHead.key_of_name hname']
        | none =>
            have hname' : (site.head.annotated is).name = none := hname
            rw [ClassHead.key_of_anonymous hname, ClassHead.key_of_anonymous hname',
              show (site.head.annotated is).start = startAfter is site.head.start from rfl]
            rcases hcalm.anonymous site hsite hname with hsame | hunknown
            · exact .inl (congrArg (anonymousName path) hsame)
            · exact Graph.keptOrLost_of_unknown _ hunknown

/-- Planning again for a file that has its hints finds nothing to do. -/
theorem planFile_hinted (h : planFile ⟨.ofOutlines files, options, path⟩ f = .ok is)
    (hcalm : Calm ⟨.ofOutlines files, options, path⟩ f is) :
    planFile ⟨.ofOutlines files, options, path⟩ (f.annotated is) = .ok [] := by
  have hplaces : ∀ i ∈ is, i.place ∈ f.places options := fun i hi =>
    (planFile_places h).subset (List.mem_map_of_mem hi)
  obtain ⟨hints, hhints, his⟩ := planFile_eq_ok_iff.mp h
  have hfile : ofFile options (f.annotated is) = [] := by
    have hedits := ofFile_annotated hplaces hcalm.behind
    have hdone : left is (ofFile options f) = [] :=
      left_of_subset fun i hi => his ▸ List.mem_append_left _ hi
    exact List.map_eq_nil_iff.mp (hedits.trans hdone)
  have hvisits := Outline.visits_annotated is f.decls .start []
  rw [List.map_nil] at hvisits
  refine planFile_eq_ok_iff.mpr ⟨[], ?_, by rw [hfile]; rfl⟩
  rw [show (f.annotated is).decls = f.decls.annotated is from rfl, hvisits]
  refine gather_eq_nil fun v' hv' => ?_
  obtain ⟨v, hv, rfl⟩ := List.mem_map.mp hv'
  obtain ⟨here, hhere, hmem⟩ := mem_of_gather hhints hv
  refine planVisit_hinted (hcalm.keptOrLost hv) hhere fun i hi => ?_
  rw [his]
  exact List.mem_append_right _ (hmem i hi)

end Files

end Insertion

end NativeHints
