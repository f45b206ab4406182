import NativeHints.Proofs.Due
import NativeHints.Proofs.Edits
import NativeHints.Proofs.Features
import NativeHints.Proofs.Walk

/-!
# The places of insertions

A file has a fixed list of *places* where something may be inserted: behind the
open tag, in front of each parameter without a hint, behind the parameters of
each function-like without a result hint, and in front of each property that
stands alone and has no hint.  Planning goes through the outline in the order of
that list and uses each place at most once.

So adding hints never overlaps, and it fails only for two reasons: a place that
is no boundary of the source, or a result hint without a place.
-/

namespace NativeHints

/-- A place of a file where something may be inserted. -/
inductive Place where
  /-- Behind the open tag. -/
  | strictTypes (position : Nat)
  /-- In front of a parameter. -/
  | parameter (position : Nat)
  /-- Behind the parameters. -/
  | result (position : Nat)
  /-- In front of a property. -/
  | property (position : Nat)
deriving DecidableEq, Repr

namespace Place

/-- The position of a place. -/
def position : Place → Nat
  | strictTypes p | parameter p | result p | property p => p

end Place

namespace Insertion

/-- The place of an insertion. -/
def place : Insertion → Place
  | strictTypes p => .strictTypes p
  | parameter p _ _ => .parameter p
  | result p _ _ => .result p
  | property p _ _ => .property p

@[simp] theorem position_place (i : Insertion) : i.place.position = i.position := by
  cases i <;> rfl

@[simp] theorem position_edit (i : Insertion) : i.edit.position = i.position := rfl

@[simp] theorem text_edit (i : Insertion) : i.edit.text = i.text := rfl

theorem onlyInserts_map_edit (is : List Insertion) : Edit.OnlyInserts (is.map edit) := by
  intro e he
  obtain ⟨i, -, rfl⟩ := List.mem_map.mp he
  rfl

theorem onlyInserts_sort (is : List Insertion) : Edit.OnlyInserts (Edit.sort (is.map edit)) := by
  intro e he
  exact onlyInserts_map_edit is e ((Edit.sort_perm _).mem_iff.mp he)

end Insertion

/-! ## The places of a file -/

/-- The place of a parameter without a hint. -/
def Param.place? (p : Param) : Option Place :=
  match p.hint with
  | none => some (.parameter p.hintAt)
  | some _ => none

namespace FunctionHead

/-- The place of the result of a function-like without a result hint. -/
def resultPlace? (f : FunctionHead) : Option Place :=
  match f.result with
  | none => f.signatureEnd.map .result
  | some _ => none

/-- The places of a function-like, without its body. -/
def places (f : FunctionHead) : List Place :=
  f.params.filterMap Param.place? ++ f.resultPlace?.toList

end FunctionHead

/-- The place of a property that stands alone and has no hint. -/
def Property.place? (p : Property) : Option Place :=
  match p.hint, p.elements with
  | none, [element] => some (.property element.start)
  | _, _ => none

namespace Outline

/-- The places of an outline.  Those of properties need the feature. -/
def places (options : Options) : Outline → List Place
  | .empty => []
  | .namespaceLine _ rest => rest.places options
  | .namespaceBlock _ body rest => body.places options ++ rest.places options
  | .imports _ rest => rest.places options
  | .classLike _ members rest => members.places options ++ rest.places options
  | .functionLike head body rest => head.places ++ (body.places options ++ rest.places options)
  | .property decl rest =>
      (if options .propertyTypes then decl.place?.toList else []) ++ rest.places options
  | .traitUse _ rest => rest.places options

/-- All function-likes of an outline. -/
def functions : Outline → List FunctionHead
  | .empty => []
  | .namespaceLine _ rest => rest.functions
  | .namespaceBlock _ body rest => body.functions ++ rest.functions
  | .imports _ rest => rest.functions
  | .classLike _ members rest => members.functions ++ rest.functions
  | .functionLike head body rest => head :: (body.functions ++ rest.functions)
  | .property _ rest => rest.functions
  | .traitUse _ rest => rest.functions

end Outline

/-- The places of a file.  That of `strict_types` needs the feature. -/
def FileOutline.places (options : Options) (f : FileOutline) : List Place :=
  (if options .strictTypes && !f.hasStrictTypes then
    (f.strictTypesAt.map Place.strictTypes).toList
  else []) ++ f.decls.places options

/-! ## Places and visits -/

/-- The places of a visit. -/
def Visit.places (options : Options) (v : Visit) : List Place :=
  match v.item with
  | .function head => head.places
  | .property decl => if options .propertyTypes then decl.place?.toList else []

theorem Outline.places_eq_flatMap (options : Options) (o : Outline) (s : Scope)
    (around : List (ClassHead × Scope)) :
    o.places options = (o.visits s around).flatMap (Visit.places options) := by
  induction o generalizing s around with
  | empty => rfl
  | namespaceLine name rest ih => exact ih (s.enter name) around
  | namespaceBlock name body rest ihbody ihrest =>
      rw [Outline.places, Outline.visits, List.flatMap_append, ← ihbody, ← ihrest]
  | imports clauses rest ih => exact ih (s.importAll clauses) around
  | classLike head members rest ihmembers ihrest =>
      rw [Outline.places, Outline.visits, List.flatMap_append, ← ihmembers, ← ihrest]
  | functionLike head body rest ihbody ihrest =>
      rw [Outline.places, Outline.visits, List.flatMap_cons, List.flatMap_append, ← ihbody,
        ← ihrest]
      rfl
  | property decl rest ih =>
      rw [Outline.places, Outline.visits, List.flatMap_cons, ← ih]
      rfl
  | traitUse names rest ih => exact ih s around

/-- The function-likes that are visited are those of the outline. -/
theorem Outline.mem_functions_of_visit {o : Outline} {s : Scope}
    {around : List (ClassHead × Scope)} {v : Visit} (hv : v ∈ o.visits s around)
    {head : FunctionHead} (hhead : v.item = .function head) : head ∈ o.functions := by
  induction o generalizing s around with
  | empty => cases hv
  | namespaceLine name rest ih => exact ih hv
  | namespaceBlock name body rest ihbody ihrest =>
      rcases List.mem_append.mp hv with hv | hv
      · exact List.mem_append_left _ (ihbody hv)
      · exact List.mem_append_right _ (ihrest hv)
  | imports clauses rest ih => exact ih hv
  | classLike first members rest ihmembers ihrest =>
      rcases List.mem_append.mp hv with hv | hv
      · exact List.mem_append_left _ (ihmembers hv)
      · exact List.mem_append_right _ (ihrest hv)
  | functionLike first body rest ihbody ihrest =>
      rcases List.mem_cons.mp hv with rfl | hv
      · cases hhead; exact List.mem_cons_self ..
      · rcases List.mem_append.mp hv with hv | hv
        · exact List.mem_cons_of_mem _ (List.mem_append_left _ (ihbody hv))
        · exact List.mem_cons_of_mem _ (List.mem_append_right _ (ihrest hv))
  | property decl rest ih =>
      rcases List.mem_cons.mp hv with rfl | hv
      · cases hhead
      · exact ih hv
  | traitUse names rest ih => exact ih hv

/-! ## One visit -/

namespace Insertion

theorem ofParam?_place {options : Options} {inClass : Bool} {s : Scope} {p : Param}
    {type : Option HintType} {i : Insertion} (h : ofParam? options inClass s p type = some i) :
    p.place? = some i.place := by
  rw [ofParam?_eq] at h
  obtain ⟨t, ht, rfl⟩ := Option.map_eq_some_iff.mp h
  obtain ⟨hhint, -⟩ := due_eq_some_iff.mp ht
  rw [Param.place?, hhint]
  rfl

theorem ofParams_places (options : Options) (inClass : Bool) (s : Scope) (ps : List Param)
    (ts : List (Option HintType)) :
    ((ofParams options inClass s ps ts).map place).Sublist (ps.filterMap Param.place?) := by
  induction ps, ts using ofParams.induct with
  | case1 ts => exact .slnil
  | case2 ps _ => cases ps <;> exact List.nil_sublist _
  | case3 p ps t ts ih =>
      rw [ofParams, List.map_append]
      cases h : ofParam? options inClass s p t with
      | none =>
          refine ih.trans ?_
          rw [List.filterMap_cons]
          cases p.place? with
          | none => exact List.Sublist.refl _
          | some place => exact List.sublist_cons_self ..
      | some i =>
          rw [List.filterMap_cons, ofParam?_place h]
          exact ih.cons_cons i.place

theorem ofResult_places {c : Context} {s : Scope} {classes : List Text} {f : FunctionHead}
    {type : Option HintType} {is : List Insertion} (h : ofResult c s classes f type = .ok is) :
    (is.map place).Sublist f.resultPlace?.toList := by
  cases hend : f.signatureEnd with
  | none =>
      rw [ofResult_of_no_end c s classes hend] at h
      split at h
      · cases h
      · cases h; exact List.nil_sublist _
  | some e =>
      rw [ofResult_of_end c s classes hend] at h
      cases hdue : due f.result type (resultType? c.options (!classes.isEmpty)) with
      | none => rw [hdue] at h; cases h; exact List.nil_sublist _
      | some t =>
          rw [hdue] at h
          cases h
          obtain ⟨hhint, -⟩ := due_eq_some_iff.mp hdue
          rw [FunctionHead.resultPlace?, hhint, hend]
          exact List.Sublist.refl _

theorem ofFunction_places {c : Context} {s : Scope} {classes : List Text} {f : FunctionHead}
    {is : List Insertion} (h : ofFunction c s classes f = .ok is) :
    (is.map place).Sublist f.places := by
  rcases ofFunction_eq_ok_iff.mp h with ⟨-, rfl⟩ | ⟨signature, result, -, hresult, rfl⟩
  · exact List.nil_sublist _
  · rw [List.map_append]
    exact (ofParams_places ..).append (ofResult_places hresult)

theorem ofProperty_places (c : Context) (s : Scope) (classes : List Text) (p : Property) :
    ((ofProperty c s classes p).map place).Sublist
      (if c.options .propertyTypes then p.place?.toList else []) := by
  rcases ofProperty_cases c s classes p with h | ⟨e, around, outer, helements, rfl⟩
  · rw [h]; exact List.nil_sublist _
  · rw [ofProperty_of_single c s around outer helements]
    cases hdue : due p.hint (c.graph.property? around e.name) (propertyType? c.options true) with
    | none => exact List.nil_sublist _
    | some t =>
        obtain ⟨hhint, found, -, hfound⟩ := due_eq_some_iff.mp hdue
        have hallowed : c.options .propertyTypes = true := (propertyType?_eq_some_iff.mp hfound).2.1
        rw [if_pos hallowed, Property.place?, hhint, helements]
        exact List.Sublist.refl _

theorem planVisit_places {c : Context} {v : Visit} {is : List Insertion}
    (h : planVisit c v = .ok is) : (is.map place).Sublist (v.places c.options) := by
  obtain ⟨s, around, item⟩ := v
  cases item with
  | function head => exact ofFunction_places h
  | property decl => cases h; exact ofProperty_places ..

/-! ## All visits -/

/-- The run: planning uses the places in order, each at most once. -/
theorem gather_places {c : Context} {vs : List Visit} {is : List Insertion}
    (h : gather (planVisit c) vs = .ok is) :
    (is.map place).Sublist (vs.flatMap (Visit.places c.options)) := by
  induction vs generalizing is with
  | nil => cases h; exact .slnil
  | cons v vs ih =>
      obtain ⟨here, there, hhere, hthere, rfl⟩ := gather_cons_eq_ok.mp h
      rw [List.map_append, List.flatMap_cons]
      exact (planVisit_places hhere).append (ih hthere)

theorem ofFile_places (options : Options) (f : FileOutline) :
    (ofFile options f).map place =
      if options .strictTypes && !f.hasStrictTypes then
        (f.strictTypesAt.map Place.strictTypes).toList
      else [] := by
  unfold ofFile
  split
  · cases f.strictTypesAt <;> rfl
  · rfl

theorem planFile_places {c : Context} {f : FileOutline} {is : List Insertion}
    (h : planFile c f = .ok is) : (is.map place).Sublist (f.places c.options) := by
  obtain ⟨hints, hhints, rfl⟩ := planFile_eq_ok_iff.mp h
  rw [List.map_append, ofFile_places, FileOutline.places, Outline.places_eq_flatMap _ _ .start []]
  exact (List.Sublist.refl _).append (gather_places hhints)

/-- If the places of a file are apart, so are the insertions of a plan. -/
theorem planFile_nodup {c : Context} {f : FileOutline} {is : List Insertion}
    (h : planFile c f = .ok is) (hdistinct : ((f.places c.options).map Place.position).Nodup) :
    ((is.map edit).map Edit.position).Nodup := by
  have hpositions : (is.map edit).map Edit.position = (is.map place).map Place.position := by
    rw [List.map_map, List.map_map]
    exact List.map_congr_left fun i _ => (position_place i).symm
  rw [hpositions]
  exact hdistinct.sublist ((planFile_places h).map _)

/-- If all places of a file are boundaries of its text, a plan can be carried out. -/
theorem exists_applyAll_of_plan {c : Context} {f : FileOutline} {is : List Insertion}
    (h : planFile c f = .ok is) {source : Text}
    (hplaces : ∀ p ∈ f.places c.options, source.isBoundary p.position = true) :
    ∃ out, Edit.applyAll source (is.map edit) = .ok out := by
  refine Edit.exists_applyAll (onlyInserts_map_edit is) ?_
  intro e he
  obtain ⟨i, hi, rfl⟩ := List.mem_map.mp he
  rw [position_edit, ← position_place]
  exact hplaces _ ((planFile_places h).subset (List.mem_map_of_mem hi))

/-! ## Failure -/

theorem planVisit_error {c : Context} {v : Visit} {e : Error} (h : planVisit c v = .error e) :
    ∃ head, v.item = .function head ∧ head.signatureEnd = none ∧
      e = .missingDelimiter c.path head.start := by
  obtain ⟨s, around, item⟩ := v
  cases item with
  | function head => exact ⟨head, rfl, ofFunction_error h⟩
  | property decl => cases h

/-- Only a function-like whose parameters do not end anywhere makes a plan fail. -/
theorem planFile_error {c : Context} {f : FileOutline} {e : Error}
    (h : planFile c f = .error e) :
    ∃ head ∈ f.decls.functions, head.signatureEnd = none ∧
      e = .missingDelimiter c.path head.start := by
  rw [planFile_eq_gather] at h
  cases hhints : gather (planVisit c) (f.decls.visits .start []) with
  | ok hints => rw [hhints] at h; cases h
  | error e' =>
      rw [hhints] at h
      cases h
      obtain ⟨v, hv, herror⟩ := exists_of_gather_eq_error hhints
      obtain ⟨head, hitem, hcause⟩ := planVisit_error herror
      exact ⟨head, Outline.mem_functions_of_visit hv hitem, hcause⟩

theorem planFile_ok (c : Context) {f : FileOutline}
    (hends : ∀ head ∈ f.decls.functions, head.signatureEnd.isSome = true) :
    ∃ is, planFile c f = .ok is := by
  cases hplan : planFile c f with
  | ok is => exact ⟨is, rfl⟩
  | error e =>
      obtain ⟨head, hhead, hend, -⟩ := planFile_error hplan
      have hsome := hends head hhead
      rw [hend] at hsome
      cases hsome

end Insertion

/-! ## Adding hints -/

/-- A result is what the planned insertions make of the source. -/
theorem addHints_eq_ok_iff {c : Insertion.Context} {source out : Text} {f : FileOutline} :
    addHints c source f = .ok out ↔
      ∃ is, Insertion.planFile c f = .ok is ∧
        Edit.applyAll source (is.map Insertion.edit) = .ok out := by
  unfold addHints
  cases Insertion.planFile c f with
  | error e =>
      constructor
      · intro h; cases h
      · rintro ⟨is, h, -⟩; cases h
  | ok is =>
      cases hout : Edit.applyAll source (is.map Insertion.edit) with
      | error e =>
          constructor
          · intro h; simp only [bind, Except.bind, hout] at h; cases h
          · rintro ⟨is', h, h'⟩; cases h; rw [hout] at h'; cases h'
      | ok text =>
          constructor
          · intro h; simp only [bind, Except.bind, hout] at h; cases h; exact ⟨is, rfl, hout⟩
          · rintro ⟨is', h, h'⟩
            cases h
            rw [hout] at h'
            cases h'
            simp only [bind, Except.bind, hout]
            rfl

theorem addHints_ne_overlap (c : Insertion.Context) (source : Text) (f : FileOutline)
    (first second : Nat) : addHints c source f ≠ .error (.edit (.overlap first second)) := by
  intro h
  unfold addHints at h
  cases hplan : Insertion.planFile c f with
  | error e =>
      rw [hplan] at h
      cases h
      obtain ⟨head, -, -, h⟩ := Insertion.planFile_error hplan
      cases h
  | ok is =>
      rw [hplan] at h
      cases hout : Edit.applyAll source (is.map Insertion.edit) with
      | ok out => simp only [bind, Except.bind, hout] at h; cases h
      | error e =>
          simp only [bind, Except.bind, hout] at h
          cases h
          exact Edit.applyFrom_ne_overlap (Insertion.onlyInserts_sort is) (Edit.sort_inOrder _)
            (fun e _ => Nat.zero_le _) first second hout

/-- Adding hints keeps every byte of the source.  A result is the source with the
planned texts inserted, one at most for each place of the file and none elsewhere.
Insertions never overlap.  And there is a result if all places are boundaries of the
source and every function-like says where its parameters end. -/
theorem addHints_only_inserts (c : Insertion.Context) (source : Text) (f : FileOutline) :
    (∀ out, addHints c source f = .ok out →
      ∃ is edits, Insertion.planFile c f = .ok is ∧
        (is.map Insertion.place).Sublist (f.places c.options) ∧
        edits.Perm (is.map Insertion.edit) ∧ Edit.OnlyInserts edits ∧
        Edit.Yields 0 source edits out) ∧
    (∀ first second, addHints c source f ≠ .error (.edit (.overlap first second))) ∧
    ((∀ p ∈ f.places c.options, source.isBoundary p.position = true) →
      (∀ head ∈ f.decls.functions, head.signatureEnd.isSome = true) →
      ∃ out, addHints c source f = .ok out) := by
  refine ⟨?_, addHints_ne_overlap c source f, ?_⟩
  · intro out h
    obtain ⟨is, hplan, hout⟩ := addHints_eq_ok_iff.mp h
    exact ⟨is, _, hplan, Insertion.planFile_places hplan, Edit.sort_perm _,
      Insertion.onlyInserts_sort is, Edit.applyAll_eq_ok_iff.mp hout⟩
  · intro hplaces hends
    obtain ⟨is, hplan⟩ := Insertion.planFile_ok c hends
    obtain ⟨out, hout⟩ := Insertion.exists_applyAll_of_plan hplan hplaces
    exact ⟨out, addHints_eq_ok_iff.mpr ⟨is, hplan, hout⟩⟩

end NativeHints
