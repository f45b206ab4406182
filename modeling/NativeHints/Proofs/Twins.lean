import NativeHints.Proofs.Alike
import NativeHints.Proofs.Annotated

/-!
# The facts of annotated files

Insertions move the anonymous classes of a file, and with them their made-up
names.  Such a name and the one after the insertions are *twins*, and so is a
plain name with itself.  Everything else that the hierarchy records of a file
stays the same: collecting keeps the names twins and the types alike, declaration
by declaration (`collect_twin`).

Twin names are looked up under keys that are in one-to-one correspondence, as
long as the paths of the files differ in more than case.
-/

namespace NativeHints

open HintType (BothAlike)

/-- The insertions made in each file, by its path. -/
abbrev Changes := List (Text × List Insertion)

/-- A name of a class before insertions and after them. -/
inductive Twin (changes : Changes) : Text → Text → Prop where
  /-- A plain name stays. -/
  | plain {name : Text} : name.Plain → Twin changes name name
  /-- An anonymous class moves with its position. -/
  | anonymous {path : Text} {is : List Insertion} (h : (path, is) ∈ changes) (start : Nat) :
      Twin changes (anonymousName path start)
        (anonymousName path (Insertion.startAfter is start))

namespace Twin

variable {changes : Changes} {a b : Text}

theorem alike (h : Twin changes a b) : a.Alike b := by
  cases h with
  | plain => exact .inl rfl
  | anonymous h start => exact .inr ⟨not_plain_anonymousName _ _, not_plain_anonymousName _ _⟩

end Twin

theorem Insertion.startAfter_lt {is : List Insertion} {n m : Nat} (h : n < m) :
    startAfter is n < startAfter is m := by
  have hle := Edit.sizeBefore_mono (is.map edit) (Nat.add_le_add_right (Nat.le_of_lt h) 1)
  simp only [startAfter]
  omega

theorem Insertion.startAfter_inj {is : List Insertion} {n m : Nat} :
    startAfter is n = startAfter is m ↔ n = m := by
  refine ⟨fun h => ?_, fun h => by rw [h]⟩
  rcases Nat.lt_trichotomy n m with hlt | heq | hgt
  · exact absurd h (Nat.ne_of_lt (startAfter_lt hlt))
  · exact heq
  · exact absurd h.symm (Nat.ne_of_lt (startAfter_lt hgt))

/-- The paths of the files differ in more than case. -/
def Changes.Distinct (changes : Changes) : Prop := (changes.map fun c => c.1.lower).Nodup

theorem Changes.Distinct.eq {changes : Changes} (h : changes.Distinct) {a b : Text × List Insertion}
    (ha : a ∈ changes) (hb : b ∈ changes) (hab : a.1.lower = b.1.lower) : a = b :=
  List.inj_on_of_nodup_map h ha hb hab

/-- Twins have the same key exactly if their twins do. -/
theorem Twin.lookupKey_eq_iff {changes : Changes} (hdistinct : changes.Distinct) {a a' b b' : Text}
    (ha : Twin changes a a') (hb : Twin changes b b') :
    Graph.lookupKey a = Graph.lookupKey b ↔ Graph.lookupKey a' = Graph.lookupKey b' := by
  have hapart : ∀ {name path : Text} {start : Nat}, name.Plain →
      Graph.lookupKey name ≠ Graph.lookupKey (anonymousName path start) := by
    intro name path start hname h
    have hkey : (Graph.lookupKey (anonymousName path start)).Plain :=
      h ▸ Graph.plain_lookupKey_iff.mpr hname
    exact not_plain_anonymousName _ _ (Graph.plain_lookupKey_iff.mp hkey)
  cases ha with
  | plain ha =>
      cases hb with
      | plain hb => exact Iff.rfl
      | anonymous hb start =>
          exact ⟨fun h => absurd h (hapart ha), fun h => absurd h (hapart ha)⟩
  | anonymous ha start =>
      cases hb with
      | plain hb =>
          exact ⟨fun h => absurd h.symm (hapart hb), fun h => absurd h.symm (hapart hb)⟩
      | anonymous hb start' =>
          rw [Graph.lookupKey_anonymousName_eq_iff, Graph.lookupKey_anonymousName_eq_iff]
          refine and_congr_right fun hpath => ?_
          cases hdistinct.eq ha hb hpath
          exact Insertion.startAfter_inj.symm

/-! ## Class entries -/

/-- An entry of a class and that of its twin. -/
structure EntryTwin (changes : Changes) (e e' : ClassEntry) : Prop where
  key : Twin changes e.key e'.key
  parent : e.parent = e'.parent
  plainParent : ∀ p ∈ e.parent, Text.Plain p
  methods : ∀ name, Option.Rel Signature.Alike (e.methods.find? name) (e'.methods.find? name)
  properties : ∀ name, BothAlike (e.properties.find? name) (e'.properties.find? name)
  plainMethods : e.key.Plain → ∀ name, ∀ s ∈ e.methods.find? name, Signature.Plain s
  plainProperties : e.key.Plain → ∀ name, ∀ t ∈ e.properties.find? name, HintType.Plain t

namespace EntryTwin

variable {changes : Changes} {e e' : ClassEntry}

theorem withMethod (h : EntryTwin changes e e') (name : Text) {s s' : Signature} (hs : s.Alike s')
    (hplain : e.key.Plain → s.Plain) :
    EntryTwin changes (e.withMethod name s) (e'.withMethod name s') := by
  refine ⟨h.key, h.parent, h.plainParent, fun other => ?_, h.properties, fun hkey other => ?_,
    h.plainProperties⟩
  · simp only [ClassEntry.withMethod, Table.find?_put]
    split
    · exact .some hs
    · exact h.methods other
  · simp only [ClassEntry.withMethod, Table.find?_put]
    split
    · intro t ht
      cases ht
      exact hplain hkey
    · exact h.plainMethods hkey other

theorem withProperty (h : EntryTwin changes e e') (name : Text) {t t' : HintType} (ht : t.Alike t')
    (hplain : e.key.Plain → t.Plain) :
    EntryTwin changes (e.withProperty name t) (e'.withProperty name t') := by
  refine ⟨h.key, h.parent, h.plainParent, h.methods, fun other => ?_, h.plainMethods,
    fun hkey other => ?_⟩
  · simp only [ClassEntry.withProperty, Table.find?_put]
    split
    · exact .some ht
    · exact h.properties other
  · simp only [ClassEntry.withProperty, Table.find?_put]
    split
    · intro u hu
      cases hu
      exact hplain hkey
    · exact h.plainProperties hkey other

end EntryTwin

/-! ## Collecting -/

/-- Parent lists of twins. -/
structure EdgeTwin (changes : Changes) (edge edge' : Text × List Text) : Prop where
  name : Twin changes edge.1 edge'.1
  parents : edge.2 = edge'.2
  plainParents : ∀ p ∈ edge.2, Text.Plain p

/-- The class that is being read, before insertions and after them. -/
structure FrameTwin (changes : Changes) (f f' : Collect.Frame) : Prop where
  entry : EntryTwin changes f.entry f'.entry
  parents : f.parents = f'.parents
  plainParents : ∀ p ∈ f.parents, Text.Plain p

/-- The facts of a file before insertions and after them. -/
structure FactsTwin (changes : Changes) (facts facts' : Facts) : Prop where
  classes : List.Forall₂ (EntryTwin changes) facts.classes facts'.classes
  edges : List.Forall₂ (EdgeTwin changes) facts.edges facts'.edges

/-- The state of collecting, before insertions and after them. -/
structure StateTwin (changes : Changes) (st st' : Collect.State) : Prop where
  scope : st.scope = st'.scope
  plainScope : st.scope.Plain
  frame : Option.Rel (FrameTwin changes) st.frame st'.frame
  facts : FactsTwin changes st.facts st'.facts

namespace Collect

variable {changes : Changes} {path : Text} {is : List Insertion}

theorem key_twin (hfile : (path, is) ∈ changes) {c : ClassHead} (hc : c.Plain) {s : Scope}
    (hs : s.Plain) : Twin changes (c.key path s) ((c.annotated is).key path s) := by
  cases hname : c.name with
  | some name =>
      have hname' : (c.annotated is).name = some name := hname
      rw [ClassHead.key_of_name hname, ClassHead.key_of_name hname']
      exact .plain (Scope.plain_qualify hs (hc.1 name hname))
  | none =>
      have hname' : (c.annotated is).name = none := hname
      rw [ClassHead.key_of_anonymous hname, ClassHead.key_of_anonymous hname']
      exact .anonymous hfile c.start

theorem openFrame_twin (hfile : (path, is) ∈ changes) {c : ClassHead} (hc : c.Plain) {s : Scope}
    (hs : s.Plain) :
    FrameTwin changes (openFrame path s c) (openFrame path s (c.annotated is)) := by
  refine ⟨⟨key_twin hfile hc hs, rfl, ClassHead.plain_parent hc hs, fun _ => .none, fun _ => .none,
    fun _ _ s h => ?_, fun _ _ t h => ?_⟩, rfl, ClassHead.plain_parents hc hs⟩
  · cases h
  · cases h

theorem enclosing_alike {f f' : Frame} (h : FrameTwin changes f f') :
    f.enclosing.Alike f'.enclosing := ⟨h.entry.key.alike, h.entry.parent⟩

theorem enclosing_plain {f f' : Frame} (h : FrameTwin changes f f') (hkey : f.entry.key.Plain) :
    ∀ c ∈ some f.enclosing, c.Plain := by
  intro c hc
  cases hc
  exact ⟨hkey, h.entry.plainParent⟩

theorem withMethod_twin {f f' : Frame} (h : FrameTwin changes f f') {s : Scope} (hs : s.Plain)
    (m : FunctionHead) :
    FrameTwin changes (f.withMethod s m) (f'.withMethod s (m.annotated is)) := by
  have hnames : (m.annotated is).params.map Param.name = m.params.map Param.name := by
    rw [FunctionHead.annotated, List.map_map]
    rfl
  have hkind : (m.annotated is).kind = m.kind := rfl
  have hname : (m.annotated is).name = m.name := rfl
  have hdoc : (m.annotated is).doc = m.doc := rfl
  unfold Frame.withMethod
  rw [hkind, hname, hdoc, hnames]
  split
  · split
    · exact h
    · exact ⟨h.entry.withMethod _ (Doc.signature_alike (enclosing_alike h) _ _ _)
        fun hkey => Doc.plain_signature hs (enclosing_plain h hkey) _ _, h.parents, h.plainParents⟩
  · exact h

theorem withProperty_twin {f f' : Frame} (h : FrameTwin changes f f') {s : Scope} (hs : s.Plain)
    (p : Property) :
    FrameTwin changes (f.withProperty s p) (f'.withProperty s (p.annotated is)) := by
  have hdoc : (p.annotated is).doc = p.doc := rfl
  have helements : (p.annotated is).elements = p.elements.map (·.annotated is) := rfl
  unfold Frame.withProperty
  rw [hdoc, helements]
  cases hp : p.elements with
  | nil => exact h
  | cons e es =>
      cases es with
      | cons e' es => exact h
      | nil =>
          cases p.doc with
          | none => exact h
          | some doc =>
              have htype := Doc.propertyType?_alike (enclosing_alike h) s doc
              simp only [List.map_cons, List.map_nil]
              cases ht : Doc.propertyType? s (some f.enclosing) doc with
              | none =>
                  rw [ht] at htype
                  cases ht' : Doc.propertyType? s (some f'.enclosing) doc with
                  | none => exact h
                  | some t' => rw [ht'] at htype; cases htype
              | some t =>
                  rw [ht] at htype
                  cases ht' : Doc.propertyType? s (some f'.enclosing) doc with
                  | none => rw [ht'] at htype; cases htype
                  | some t' =>
                      rw [ht'] at htype
                      cases htype with
                      | some htype =>
                          exact ⟨h.entry.withProperty e.name htype fun hkey =>
                            Doc.plain_propertyType? hs (enclosing_plain h hkey) ht, h.parents,
                            h.plainParents⟩

/-- A class that was read becomes a fact. -/
theorem closeFrame_twin {facts facts' : Facts} (h : FactsTwin changes facts facts')
    {frame frame' : Option Frame} (hframe : Option.Rel (FrameTwin changes) frame frame') :
    FactsTwin changes (frame.elim facts (addFrame facts))
      (frame'.elim facts' (addFrame facts')) := by
  cases hframe with
  | none => exact h
  | some hf =>
      have hedge : EdgeTwin changes (_, _) (_, _) := ⟨hf.entry.key, hf.parents, hf.plainParents⟩
      exact ⟨List.rel_append h.classes (.cons hf.entry .nil),
        List.rel_append h.edges (.cons hedge .nil)⟩

theorem addTraitUses_twin {facts facts' : Facts} (h : FactsTwin changes facts facts') {s : Scope}
    (hs : s.Plain) {frame frame' : Option Frame}
    (hframe : Option.Rel (FrameTwin changes) frame frame') {names : List Text}
    (hnames : ∀ n ∈ names, Text.Plain n) :
    FactsTwin changes (addTraitUses facts s frame names) (addTraitUses facts' s frame' names) := by
  cases hframe with
  | none => exact h
  | some hf =>
      refine ⟨h.classes, List.rel_append h.edges ?_⟩
      refine List.forall₂_map_left_iff.mpr (List.forall₂_map_right_iff.mpr ?_)
      refine List.forall₂_same.mpr fun n hn => ?_
      exact ⟨.plain (Scope.plain_resolve hs (hnames n hn)), hf.parents, hf.plainParents⟩

/-- The run: collecting from an outline and from the annotated one. -/
theorem collect_twin (hfile : (path, is) ∈ changes) {o : Outline} (ho : o.Plain) {st st' : State}
    (h : StateTwin changes st st') :
    StateTwin changes (collect path o st) (collect path (o.annotated is) st') := by
  induction o generalizing st st' with
  | empty => exact h
  | namespaceLine name rest ih =>
      obtain ⟨s, frame, facts⟩ := st
      obtain ⟨s', frame', facts'⟩ := st'
      obtain ⟨rfl, hs, hframe, hfacts⟩ := h
      exact ih ho.2 ⟨rfl, Scope.plain_enter s ho.1, hframe, hfacts⟩
  | namespaceBlock name body rest ihbody ihrest =>
      obtain ⟨s, frame, facts⟩ := st
      obtain ⟨s', frame', facts'⟩ := st'
      obtain ⟨rfl, hs, hframe, hfacts⟩ := h
      have hbody : StateTwin changes (collect path body ⟨s.enter name, frame, facts⟩)
          (collect path (body.annotated is) ⟨s.enter name, frame', facts'⟩) :=
        ihbody ho.2.1 ⟨rfl, Scope.plain_enter s ho.1, hframe, hfacts⟩
      refine ihrest ho.2.2 ⟨congrArg (·.enter none) hbody.scope, ?_, hbody.frame, hbody.facts⟩
      exact Scope.plain_enter s fun n hn => by cases hn
  | imports clauses rest ih =>
      obtain ⟨s, frame, facts⟩ := st
      obtain ⟨s', frame', facts'⟩ := st'
      obtain ⟨rfl, hs, hframe, hfacts⟩ := h
      exact ih ho.2 ⟨rfl, Scope.plain_importAll hs ho.1, hframe, hfacts⟩
  | classLike head members rest ihmembers ihrest =>
      obtain ⟨s, frame, facts⟩ := st
      obtain ⟨s', frame', facts'⟩ := st'
      obtain ⟨rfl, hs, hframe, hfacts⟩ := h
      have hmembers : StateTwin changes
          (collect path members ⟨s, some (openFrame path s head), facts⟩)
          (collect path (members.annotated is)
            ⟨s, some (openFrame path s (head.annotated is)), facts'⟩) :=
        ihmembers ho.2.1 ⟨rfl, hs, .some (openFrame_twin hfile ho.1 hs), hfacts⟩
      exact ihrest ho.2.2 ⟨hmembers.scope, hmembers.plainScope, hframe,
        closeFrame_twin hmembers.facts hmembers.frame⟩
  | functionLike head body rest ihbody ihrest =>
      obtain ⟨s, frame, facts⟩ := st
      obtain ⟨s', frame', facts'⟩ := st'
      obtain ⟨rfl, hs, hframe, hfacts⟩ := h
      refine ihrest ho.2 (ihbody ho.1 ⟨rfl, hs, ?_, hfacts⟩)
      cases hframe with
      | none => exact .none
      | some hf => exact .some (withMethod_twin hf hs head)
  | property decl rest ih =>
      obtain ⟨s, frame, facts⟩ := st
      obtain ⟨s', frame', facts'⟩ := st'
      obtain ⟨rfl, hs, hframe, hfacts⟩ := h
      refine ih ho ⟨rfl, hs, ?_, hfacts⟩
      cases hframe with
      | none => exact .none
      | some hf => exact .some (withProperty_twin hf hs decl)
  | traitUse names rest ih =>
      obtain ⟨s, frame, facts⟩ := st
      obtain ⟨s', frame', facts'⟩ := st'
      obtain ⟨rfl, hs, hframe, hfacts⟩ := h
      exact ih ho.2 ⟨rfl, hs, hframe, addTraitUses_twin hfacts hs hframe ho.1⟩

end Collect

theorem Outline.facts_twin {changes : Changes} {path : Text} {is : List Insertion}
    (hfile : (path, is) ∈ changes) {o : Outline} (ho : o.Plain) :
    FactsTwin changes (o.facts path) ((o.annotated is).facts path) :=
  (Collect.collect_twin hfile ho ⟨rfl, Scope.plain_start, .none, ⟨.nil, .nil⟩⟩).facts

end NativeHints
