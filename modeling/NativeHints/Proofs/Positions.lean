import NativeHints.Proofs.Layout
import NativeHints.Proofs.Shapes
import NativeHints.Php.Reading

/-!
# The positions of an outline

Every position in the outline of a file is a boundary of its text, and every
hint in it is written in the file where it says.

A position comes from the first or the last token of some part of the forest, so
all of this follows from where the tokens lie.  Only that every function-like has
an end of its parameters depends on the shapes of nodes.
-/

namespace NativeHints

/-! ## Sound outlines -/

/-- Both ends of a span are boundaries of a text. -/
structure Span.Sound (source : Text) (s : Span) : Prop where
  start : source.isBoundary s.start = true
  stop : source.isBoundary s.stop = true

/-- The positions of a hint are boundaries of a text, and its own text stands in its
span. -/
structure WrittenHint.Sound (source : Text) (h : WrittenHint) : Prop where
  span : h.span.Sound source
  next : source.isBoundary h.next = true
  slice : ∃ a b, source = a ++ (h.text ++ b) ∧ a.size = h.span.start ∧
    (a ++ h.text).size = h.span.stop

/-- The positions of a parameter are boundaries of a text, and its hint stands where it says. -/
structure Param.Sound (source : Text) (p : Param) : Prop where
  span : p.span.Sound source
  hintAt : source.isBoundary p.hintAt = true
  hint : ∀ h ∈ p.hint, h.Sound source

/-- The positions of a function-like are boundaries of a text, its hints stand where they say,
and its parameters have an end. -/
structure FunctionHead.Sound (source : Text) (f : FunctionHead) : Prop where
  start : source.isBoundary f.start = true
  params : ∀ p ∈ f.params, p.Sound source
  signatureEnd : ∃ position, f.signatureEnd = some position ∧ source.isBoundary position = true
  result : ∀ h ∈ f.result, h.Sound source

/-- The positions of a property are boundaries of a text, and its hint stands where it says. -/
structure Property.Sound (source : Text) (p : Property) : Prop where
  hint : ∀ h ∈ p.hint, h.Sound source
  elements : ∀ e ∈ p.elements, source.isBoundary e.start = true

namespace Outline

/-- All positions and hints of an outline are those of a text, at every depth. -/
def Sound (source : Text) : Outline → Prop
  | .empty => True
  | .namespaceLine _ rest => rest.Sound source
  | .namespaceBlock _ body rest => body.Sound source ∧ rest.Sound source
  | .imports _ rest => rest.Sound source
  | .classLike head members rest =>
      source.isBoundary head.start = true ∧ members.Sound source ∧ rest.Sound source
  | .functionLike head body rest => head.Sound source ∧ body.Sound source ∧ rest.Sound source
  | .property decl rest => decl.Sound source ∧ rest.Sound source
  | .traitUse _ rest => rest.Sound source

theorem sound_append {source : Text} {o p : Outline} (ho : o.Sound source)
    (hp : p.Sound source) : (o ++ p).Sound source := by
  show (o.append p).Sound source
  induction o with
  | empty => exact hp
  | namespaceLine name rest ih => exact ih ho
  | namespaceBlock name body rest _ ih => exact ⟨ho.1, ih ho.2⟩
  | imports clauses rest ih => exact ih ho
  | classLike head members rest _ ih => exact ⟨ho.1, ho.2.1, ih ho.2.2⟩
  | functionLike head body rest _ ih => exact ⟨ho.1, ho.2.1, ih ho.2.2⟩
  | property decl rest ih => exact ⟨ho.1, ih ho.2⟩
  | traitUse names rest ih => exact ih ho

end Outline

namespace Php

namespace Forest

variable {source : Text} {lo hi : Nat} {f : Forest}

/-! ## Positions in a forest -/

theorem Lies.sound_span (h : f.Lies source lo hi) : Span.Sound source ⟨f.start, f.stop⟩ := by
  obtain ⟨a, b, hsource, hstart, hstop⟩ := h.slice
  exact ⟨Text.isBoundary_iff.mpr ⟨a, f.text ++ b, hsource, hstart⟩,
    Text.isBoundary_iff.mpr ⟨a ++ f.text, b, by simp [hsource], hstop⟩⟩

theorem Lies.child? (h : f.Lies source lo hi) {k : NodeKind} {c : Forest}
    (hc : f.child? k = some c) : ∃ lo hi, c.Lies source lo hi := by
  induction f generalizing lo with
  | nil => simp [Forest.child?] at hc
  | leaf t rest ih => exact ih h.leaf.2 hc
  | node k' children rest _ ih =>
      obtain ⟨mid, hchildren, hrest⟩ := h.node
      unfold Forest.child? at hc
      split at hc
      · cases hc
        exact ⟨lo, mid, hchildren⟩
      · exact ih hrest hc

theorem Lies.childrenOf (h : f.Lies source lo hi) {k : NodeKind} :
    ∀ c ∈ f.childrenOf k, ∃ lo hi, c.Lies source lo hi := by
  induction f generalizing lo with
  | nil => simp [Forest.childrenOf]
  | leaf t rest ih => exact ih h.leaf.2
  | node k' children rest _ ih =>
      obtain ⟨mid, hchildren, hrest⟩ := h.node
      unfold Forest.childrenOf
      split
      · exact List.forall_mem_cons.mpr ⟨⟨lo, mid, hchildren⟩, ih hrest⟩
      · exact ih hrest

theorem Lies.outerStart (h : f.Lies source lo hi) {t : Token} (ht : f.first? = some t) :
    lo ≤ t.outerStart ∧ t.outerStart ≤ hi ∧ source.isBoundary t.outerStart = true := by
  rw [first?_eq] at ht
  obtain ⟨before, hlo, hlaid, hhi⟩ := h.token (List.mem_of_head? ht)
  have hbounds := Token.outerStart_bounds hlaid
  have hstart := t.start_le_stop
  exact ⟨by omega, by omega, hbounds.2.2⟩

theorem Lies.sound_hint? (h : f.Lies source lo hi) : ∀ w ∈ f.hint?, w.Sound source := by
  induction f generalizing lo with
  | nil => simp [hint?]
  | leaf t rest ih => exact ih h.leaf.2
  | node k children rest _ ih =>
      obtain ⟨mid, hchildren, hrest⟩ := h.node
      unfold hint?
      split
      · rintro w ⟨⟩
        refine ⟨hchildren.sound_span, ?_, hchildren.slice⟩
        show source.isBoundary ((rest.first?.map Token.outerStart).getD children.stop) = true
        cases hfirst : rest.first? with
        | none => exact hchildren.sound_span.stop
        | some t => exact (hrest.outerStart hfirst).2.2
      · exact ih hrest

theorem Lies.isBoundary_hintPosition (h : f.Lies source lo hi) :
    source.isBoundary f.hintPosition = true := by
  induction f generalizing lo with
  | nil => exact Text.isBoundary_iff.mpr ⟨[], source, rfl, rfl⟩
  | leaf t rest ih =>
      unfold hintPosition
      split
      · exact (Token.stands_piece h.leaf.1).isBoundary_start
      · exact ih h.leaf.2
  | node k children rest _ ih =>
      obtain ⟨mid, hchildren, hrest⟩ := h.node
      unfold hintPosition
      split
      · exact hchildren.sound_span.start
      · exact ih hrest

/-! ## Heads -/

theorem Lies.sound_param (h : f.Lies source lo hi) : f.param.Sound source :=
  ⟨h.sound_span, h.isBoundary_hintPosition, h.sound_hint?⟩

theorem Lies.sound_params (h : f.Lies source lo hi) : ∀ p ∈ f.params, p.Sound source := by
  intro p hp
  unfold params at hp
  cases hc : f.child? .params with
  | none => simp [hc] at hp
  | some g =>
      obtain ⟨_, _, hg⟩ := h.child? hc
      simp only [hc, Option.map_some, Option.getD_some, List.mem_map] at hp
      obtain ⟨c, hc, rfl⟩ := hp
      obtain ⟨_, _, hlies⟩ := hg.childrenOf c hc
      exact hlies.sound_param

theorem child?_append_of_tops {leafOk : Token → Prop} {nodeOk : NodeKind → Bool}
    (h : f.Tops leafOk nodeOk) {k : NodeKind} (hk : nodeOk k = false) (g : Forest) :
    (f ++ g).child? k = g.child? k := by
  induction f with
  | nil => rfl
  | leaf t rest ih => exact ih h.2
  | node k' children rest _ ih =>
      have hne : k' ≠ k := by
        rintro rfl
        simp [h.1] at hk
      rw [node_append, Forest.child?, if_neg hne, ih h.2]

theorem Signature.child?_params (h : f.Signature) : ∃ params, f.child? .params = some params := by
  cases h with
  | mk params hfront => exact ⟨params, child?_append_of_tops hfront rfl _⟩

theorem Lies.sound_functionHead (h : f.Lies source lo hi) (hs : f.Signature) (kind : FunctionKind)
    (doc : Option Text) : (f.functionHead kind doc).Sound source := by
  refine ⟨h.sound_span.start, h.sound_params, ?_, h.sound_hint?⟩
  obtain ⟨params, hparams⟩ := hs.child?_params
  cases hcaptures : f.child? .captures with
  | none =>
      obtain ⟨_, _, hlies⟩ := h.child? hparams
      exact ⟨params.stop, by simp [functionHead, hcaptures, hparams], hlies.sound_span.stop⟩
  | some captures =>
      obtain ⟨_, _, hlies⟩ := h.child? hcaptures
      exact ⟨captures.stop, by simp [functionHead, hcaptures], hlies.sound_span.stop⟩

theorem Lies.sound_property (h : f.Lies source lo hi) (doc : Option Text) :
    (f.property doc).Sound source := by
  refine ⟨h.sound_hint?, fun e he => ?_⟩
  obtain ⟨c, hc, rfl⟩ := List.mem_map.mp he
  obtain ⟨_, _, hlies⟩ := h.childrenOf c hc
  show source.isBoundary (((c.child? .variable).map start).getD 0) = true
  cases hvariable : c.child? .variable with
  | none => exact Text.isBoundary_iff.mpr ⟨[], source, rfl, rfl⟩
  | some v =>
      obtain ⟨_, _, hlies⟩ := hlies.child? hvariable
      exact hlies.sound_span.start

/-! ## Outlines -/

/-- What a node declares, its children being searched where its kind says. -/
inductive Declares (children : Forest) (k : NodeKind) : Outline → Prop where
  | namespaceLine (name : Option Text) : Declares children k (.namespaceLine name .empty)
  | namespaceBlock (name : Option Text) :
      Declares children k
        (.namespaceBlock name (children.outline true (.inside .block)) .empty)
  | imports (clauses : List Import) : Declares children k (.imports clauses .empty)
  | classLike (kind : ClassKind) :
      Declares children k
        (.classLike (children.classHead kind) (children.outline true (.inside .members)) .empty)
  | functionLike (kind : FunctionKind) (doc : Option Text) {search : Search} :
      (children.NodeShape k → children.Signature) →
      search = .inside .block ∨ search = .behindArrow →
      Declares children k
        (.functionLike (children.functionHead kind doc) (children.outline true search) .empty)
  | property (doc : Option Text) : Declares children k (.property (children.property doc) .empty)
  | traitUse (names : List Text) : Declares children k (.traitUse names .empty)
  | inner : Declares children k (children.outline true .everywhere)

theorem outline_node (isFirst : Bool) (k : NodeKind) (children rest : Forest) :
    ∃ here, (node k children rest).outline isFirst .everywhere =
      here ++ rest.outline false .everywhere ∧ Declares children k here := by
  cases k
  case namespaceLine => exact ⟨_, rfl, .namespaceLine _⟩
  case namespaceBlock => exact ⟨_, rfl, .namespaceBlock _⟩
  case imports => exact ⟨_, rfl, .imports _⟩
  case ordinaryClass | interface | trait | enumeration | anonymousClass =>
    exact ⟨_, rfl, .classLike _⟩
  case function | method | closure => exact ⟨_, rfl, .functionLike _ _ id (.inl rfl)⟩
  case arrow => exact ⟨_, rfl, .functionLike _ _ id (.inr rfl)⟩
  case property => exact ⟨_, rfl, .property _⟩
  case traitUse => exact ⟨_, rfl, .traitUse _⟩
  all_goals exact ⟨_, rfl, .inner⟩

/-- The outline of a forest that lies in a text is sound for it. -/
theorem Lies.sound_outline (h : f.Lies source lo hi) (hs : f.Shaped) (isFirst : Bool)
    (search : Search) : (f.outline isFirst search).Sound source := by
  induction f generalizing lo hi isFirst search with
  | nil => cases search <;> trivial
  | leaf t rest ih => cases search <;> exact ih h.leaf.2 hs _ _
  | node k children rest ihc ihr =>
      obtain ⟨mid, hchildren, hrest⟩ := h.node
      obtain ⟨hshape, hsc, hsr⟩ := hs
      cases search with
      | behindArrow => exact ihr hrest hsr _ _
      | inside kind =>
          unfold outline
          split
          · exact Outline.sound_append (ihc hchildren hsc _ _) (ihr hrest hsr _ _)
          · exact ihr hrest hsr _ _
      | everywhere =>
          obtain ⟨here, heq, hhere⟩ := outline_node isFirst k children rest
          rw [heq]
          refine Outline.sound_append ?_ (ihr hrest hsr _ _)
          cases hhere with
          | namespaceLine | imports | traitUse => trivial
          | namespaceBlock => exact ⟨ihc hchildren hsc _ _, trivial⟩
          | classLike => exact ⟨hchildren.sound_span.start, ihc hchildren hsc _ _, trivial⟩
          | functionLike kind doc hsig =>
              exact ⟨hchildren.sound_functionHead (hsig hshape) _ _, ihc hchildren hsc _ _, trivial⟩
          | property => exact ⟨hchildren.sound_property _, trivial⟩
          | inner => exact ihc hchildren hsc _ _

end Forest

end Php

end NativeHints
