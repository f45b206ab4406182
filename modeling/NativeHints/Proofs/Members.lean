import NativeHints.Proofs.Sites
import NativeHints.Proofs.Tables

/-!
# The members of a class

Which members belong to a class-like can be said without a walk: the declarations under it
that have no other class-like in between.  They are listed by `Outline.ownVisits`, in order
and each with the names in effect at it.  An anonymous class in the body of a method does not
show in this list, but a namespace or an import in it does, by the names in effect behind it.

Collecting threads one frame through the members of a class-like.  The frame is changed by
these declarations alone, one after the other (`Outline.documents_eq_foldl`).  What a declaration
documents depends on the key of the class and on what `parent` means in it, and these
never change (`Frame.enclosing_withVisit`).  So each declaration can be read by itself
(`Visit.method?`, `Visit.property?`), and of two under one name the later one stays
(`Table.find?_putAll`).
-/

namespace NativeHints

/-! ## Declarations with no class-like in between -/

namespace Outline

/-- The declarations of an outline that are in none of its class-likes, in order. -/
def ownVisits (o : Outline) (s : Scope) : List Visit :=
  (o.visits s []).filter fun v => v.around.isEmpty

/-- The class-likes around an outline are around each of its declarations. -/
theorem suffix_around {o : Outline} {s : Scope} {around : List (ClassHead × Scope)} {v : Visit}
    (hv : v ∈ o.visits s around) : around <:+ v.around := by
  induction o generalizing s around with
  | empty => cases hv
  | namespaceLine name rest ih => exact ih hv
  | namespaceBlock name body rest ihbody ihrest =>
      rcases List.mem_append.mp hv with hv | hv
      · exact ihbody hv
      · exact ihrest hv
  | imports clauses rest ih => exact ih hv
  | classLike head members rest ihmembers ihrest =>
      rcases List.mem_append.mp hv with hv | hv
      · exact (List.suffix_cons _ around).trans (ihmembers hv)
      · exact ihrest hv
  | functionLike head body rest ihbody ihrest =>
      rcases List.mem_cons.mp hv with rfl | hv
      · exact List.suffix_refl around
      · rcases List.mem_append.mp hv with hv | hv
        · exact ihbody hv
        · exact ihrest hv
  | property decl rest ih =>
      rcases List.mem_cons.mp hv with rfl | hv
      · exact List.suffix_refl around
      · exact ih hv
  | traitUse names rest ih => exact ih hv

/-- A class-like hides its members. -/
theorem ownVisits_classLike (head : ClassHead) (members rest : Outline) (s : Scope) :
    (classLike head members rest).ownVisits s = rest.ownVisits (members.scopeAfter s) := by
  have hhidden : (members.visits s [(head, s)]).filter (fun v => v.around.isEmpty) = [] := by
    rw [List.filter_eq_nil_iff]
    intro v hv hempty
    have hsuffix := suffix_around hv
    rw [List.isEmpty_iff.mp hempty, List.suffix_nil] at hsuffix
    cases hsuffix
  rw [ownVisits, visits, List.filter_append, hhidden, List.nil_append]
  rfl

theorem ownVisits_functionLike (head : FunctionHead) (body rest : Outline) (s : Scope) :
    (functionLike head body rest).ownVisits s =
      ⟨s, [], .function head⟩ :: (body.ownVisits s ++ rest.ownVisits (body.scopeAfter s)) := by
  rw [ownVisits, visits, List.filter_cons_of_pos rfl, List.filter_append]
  rfl

theorem ownVisits_namespaceBlock (name : Option Text) (body rest : Outline) (s : Scope) :
    (namespaceBlock name body rest).ownVisits s = body.ownVisits (s.enter name) ++
      rest.ownVisits ((body.scopeAfter (s.enter name)).enter none) := by
  rw [ownVisits, visits, List.filter_append]
  rfl

end Outline

/-! ## What a declaration documents -/

namespace Visit

/-- The method that a declaration documents in a class, by its name in lower case.  It has to be
a method with a name and a doc comment, and the comment is not an inherited one. -/
def method? (c : Doc.Enclosing) (v : Visit) : Option (Text × Signature) :=
  match v.item with
  | .property _ => none
  | .function head =>
      match head.kind, head.name, head.doc with
      | .method, some name, some doc =>
          if Doc.isInherited doc then none
          else some (name.lower, Doc.signature v.scope (some c) (head.params.map Param.name) doc)
      | _, _, _ => none

/-- The property that a declaration documents in a class.  It has to be declared alone, with a
doc comment that gives a type. -/
def property? (c : Doc.Enclosing) (v : Visit) : Option (Text × HintType) :=
  match v.item with
  | .function _ => none
  | .property decl =>
      match decl.elements, decl.doc with
      | [element], some doc =>
          (Doc.propertyType? v.scope (some c) doc).map fun type => (element.name, type)
      | _, _ => none

end Visit

namespace Collect

/-- The frame with what the doc comment of a declaration says. -/
def Frame.withVisit (f : Frame) (v : Visit) : Frame :=
  match v.item with
  | .function head => f.withMethod v.scope head
  | .property decl => f.withProperty v.scope decl

namespace Frame

variable (f : Frame) (v : Visit)

/-- The step: a declaration adds what it documents, and the rest of the frame stays. -/
theorem withVisit_eq :
    f.withVisit v =
      { f with
        entry := { f.entry with
          methods := (v.method? f.enclosing).elim f.entry.methods fun m =>
            f.entry.methods.put m.1 m.2
          properties := (v.property? f.enclosing).elim f.entry.properties fun p =>
            f.entry.properties.put p.1 p.2 } } := by
  obtain ⟨s, around, item⟩ := v
  cases item with
  | function head =>
      obtain ⟨kind, name, start, doc, params, signatureEnd, result⟩ := head
      cases kind with
      | method =>
          cases name with
          | none => rfl
          | some name =>
              cases doc with
              | none => rfl
              | some doc =>
                  simp only [withVisit, withMethod, Visit.method?, Visit.property?]
                  split <;> rfl
      | _ => rfl
  | property decl =>
      obtain ⟨doc, hint, elements⟩ := decl
      match elements, doc with
      | [], _ | _ :: _ :: _, _ | [_], none => rfl
      | [element], some doc =>
          simp only [withVisit, withProperty, Visit.method?, Visit.property?]
          cases Doc.propertyType? s (some f.enclosing) doc <;> rfl

theorem enclosing_withVisit : (f.withVisit v).enclosing = f.enclosing := by
  rw [withVisit_eq]
  rfl

theorem enclosing_foldl (vs : List Visit) :
    (vs.foldl withVisit f).enclosing = f.enclosing := by
  induction vs generalizing f with
  | nil => rfl
  | cons v vs ih => rw [List.foldl_cons, ih, enclosing_withVisit]

/-- The run: a table of the frame into which each declaration puts what is read from it takes up
what is read from all of them, each by itself. -/
theorem table_foldl {α : Type} (table : Frame → Table α)
    (read : Doc.Enclosing → Visit → Option (Text × α))
    (hstep : ∀ f v, table (f.withVisit v) =
      (read f.enclosing v).elim (table f) fun entry => (table f).put entry.1 entry.2)
    (vs : List Visit) :
    table (vs.foldl withVisit f) =
      (vs.filterMap (read f.enclosing)).foldl (fun t entry => t.put entry.1 entry.2)
        (table f) := by
  induction vs generalizing f with
  | nil => rfl
  | cons v vs ih =>
      rw [List.foldl_cons, ih, enclosing_withVisit, List.filterMap_cons, hstep]
      cases read f.enclosing v <;> rfl

end Frame

end Collect

open Collect (Frame openFrame)

/-- The frame of a class-like takes up the declarations that have no class-like in between, and
no others. -/
theorem Outline.documents_eq_foldl (o : Outline) (s : Scope) (f : Frame) :
    o.documents s f = (o.ownVisits s).foldl Frame.withVisit f := by
  induction o generalizing s f with
  | empty => rfl
  | namespaceLine name rest ih => exact ih _ _
  | namespaceBlock name body rest ihbody ihrest =>
      rw [documents, ihbody, ihrest, ownVisits_namespaceBlock, List.foldl_append]
  | imports clauses rest ih => exact ih _ _
  | classLike head members rest _ ihrest => rw [documents, ihrest, ownVisits_classLike]
  | functionLike head body rest ihbody ihrest =>
      rw [documents, ihbody, ihrest, ownVisits_functionLike, List.foldl_cons, List.foldl_append]
      rfl
  | property decl rest ih => exact ih _ _
  | traitUse names rest ih => exact ih _ _

/-! ## Entries -/

namespace ClassSite

/-- The class, as the doc comments of its members see it. -/
def enclosing (path : Text) (c : ClassSite) : Doc.Enclosing := ⟨c.key path, c.head.parent c.scope⟩

/-- The members of a class-like, in order: the declarations under it with no other class-like in
between. -/
def ownVisits (c : ClassSite) : List Visit := c.members.ownVisits c.scope

/-- An entry says of a class-like what stands in the file.  Its key and what `parent` means are
read in the names in effect at the class-like.  The methods and properties are those that its
members document, each read in the names in effect at the member, and of several with one
name the last. -/
structure IsDescribedBy (path : Text) (c : ClassSite) (e : ClassEntry) : Prop where
  key : e.key = c.head.key path c.scope
  parent : e.parent = c.head.parent c.scope
  methods : ∀ name, e.methods.find? name =
    ((c.ownVisits.filterMap (Visit.method? (c.enclosing path))).filter
      fun m => m.1 = name).getLast?.map Prod.snd
  properties : ∀ name, e.properties.find? name =
    ((c.ownVisits.filterMap (Visit.property? (c.enclosing path))).filter
      fun p => p.1 = name).getLast?.map Prod.snd

theorem isDescribedBy_entry (path : Text) (c : ClassSite) : c.IsDescribedBy path (c.entry path) := by
  have hentry : c.entry path =
      (c.ownVisits.foldl Frame.withVisit (openFrame path c.scope c.head)).entry := by
    rw [entry, Outline.documents_eq_foldl, ownVisits]
  have hclass := Frame.enclosing_foldl (openFrame path c.scope c.head) c.ownVisits
  rw [hentry]
  refine ⟨congrArg Doc.Enclosing.name hclass, congrArg Doc.Enclosing.parent hclass, fun name => ?_,
    fun name => ?_⟩
  · rw [Frame.table_foldl _ (fun f => f.entry.methods) Visit.method?
      (fun f v => by rw [Frame.withVisit_eq]), Table.find?_putAll]
    exact Option.or_none
  · rw [Frame.table_foldl _ (fun f => f.entry.properties) Visit.property?
      (fun f v => by rw [Frame.withVisit_eq]), Table.find?_putAll]
    exact Option.or_none

end ClassSite

/-- What is collected from a file goes to the innermost class-like.  There is one entry for each
class-like, and it is made from the class-like and from the members under it that have no other
class-like in between.  The parent lists are one for each class-like and, for each trait name that
it uses in such a place, one more with the same parents. -/
theorem Outline.facts_by_innermost_class (o : Outline) (path : Text) :
    List.Forall₂ (ClassSite.IsDescribedBy path) (o.classSites .start) (o.facts path).classes ∧
      (o.facts path).edges.Perm ((o.classSites .start).flatMap fun c =>
        (c.key path, c.parents) :: c.usedTraits.map fun t => (t, c.parents)) := by
  refine ⟨?_, o.edges_facts path⟩
  rw [classes_facts, List.forall₂_map_right_iff]
  exact List.forall₂_same.mpr fun c _ => c.isDescribedBy_entry path

end NativeHints
