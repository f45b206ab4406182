import NativeHints.Proofs.Positions
import NativeHints.Proofs.Places

/-!
# The ranges of hints

Removing a hint of a parameter deletes from the hint to the next token, and
removing a result hint deletes from the end of the parameters to the end of the
hint.  In the outline of a file these ranges are not empty, and they stand one
behind the other: those of the parameters of a function-like, that of its
result, those in its body, and those behind it.

This is where the shapes of nodes matter.  Searching the body of a function-like
skips its head, so what is found there lies behind the result hint.
-/

namespace NativeHints

/-! ## Ranges in a row -/

/-- Ranges that are not empty and stand one behind the other between two positions. -/
def InRow : Nat → List Span → Nat → Prop
  | lo, [], hi => lo ≤ hi
  | lo, s :: ss, hi => lo ≤ s.start ∧ s.start < s.stop ∧ InRow s.stop ss hi

namespace InRow

variable {lo mid hi : Nat} {ss ts : List Span}

theorem weaken (hle : lo ≤ mid) (h : InRow mid ss hi) : InRow lo ss hi := by
  cases ss with
  | nil => exact Nat.le_trans hle h
  | cons s ss => exact ⟨Nat.le_trans hle h.1, h.2⟩

theorem append (hs : InRow lo ss mid) (ht : InRow mid ts hi) : InRow lo (ss ++ ts) hi := by
  induction ss generalizing lo with
  | nil => exact weaken hs ht
  | cons s ss ih => exact ⟨hs.1, hs.2.1, ih hs.2.2⟩

theorem start_lt_stop (h : InRow lo ss hi) : ∀ s ∈ ss, s.start < s.stop := by
  induction ss generalizing lo with
  | nil => simp
  | cons s ss ih => exact List.forall_mem_cons.mpr ⟨h.2.1, ih h.2.2⟩

theorem le_start (h : InRow lo ss hi) : ∀ s ∈ ss, lo ≤ s.start := by
  induction ss generalizing lo with
  | nil => simp
  | cons s ss ih =>
      refine List.forall_mem_cons.mpr ⟨h.1, fun t ht => ?_⟩
      have hlater := ih h.2.2 t ht
      have hfirst := h.2.1
      have hlo := h.1
      omega

theorem pairwise (h : InRow lo ss hi) : ss.Pairwise fun s t => s.stop ≤ t.start := by
  induction ss generalizing lo with
  | nil => exact .nil
  | cons s ss ih => exact .cons h.2.2.le_start (ih h.2.2)

end InRow

/-- What removing the hint of a parameter deletes. -/
def Param.range? (p : Param) : Option Span := p.hint.map fun h => ⟨h.span.start, h.next⟩

namespace FunctionHead

/-- What removing the result hint deletes. -/
def resultRange? (f : FunctionHead) : Option Span :=
  f.signatureEnd.bind fun start => f.result.map fun h => ⟨start, h.span.stop⟩

/-- The ranges of the hints of a function-like, without its body. -/
def ranges (f : FunctionHead) : List Span :=
  f.params.filterMap Param.range? ++ f.resultRange?.toList

end FunctionHead

namespace Outline

/-- The ranges of the hints of all function-likes. -/
def ranges (o : Outline) : List Span := o.functions.flatMap FunctionHead.ranges

theorem functions_append (o p : Outline) : (o ++ p).functions = o.functions ++ p.functions := by
  show (o.append p).functions = _
  induction o with
  | empty => rfl
  | namespaceLine name rest ih => exact ih
  | namespaceBlock name body rest _ ih => simp [append, functions, ih]
  | imports clauses rest ih => exact ih
  | classLike head members rest _ ih => simp [append, functions, ih]
  | functionLike head body rest _ ih => simp [append, functions, ih]
  | property decl rest ih => exact ih
  | traitUse names rest ih => exact ih

theorem ranges_append (o p : Outline) : (o ++ p).ranges = o.ranges ++ p.ranges := by
  simp [ranges, functions_append]

end Outline

namespace Php

namespace Forest

variable {source : Text} {lo hi : Nat} {f : Forest}

/-! ## Heads -/

/-- A hint lies with its range between the ends of the forest. -/
theorem Lies.hint?_bounds (h : f.Lies source lo hi) (hs : f.Shaped) {w : WrittenHint}
    (hw : f.hint? = some w) :
    lo ≤ w.span.start ∧ w.span.start < w.span.stop ∧ w.span.stop ≤ w.next ∧ w.next ≤ hi := by
  induction f generalizing lo with
  | nil => simp [hint?] at hw
  | leaf t rest ih =>
      have hbounds := ih h.leaf.2 hs hw
      have hleaf := h.leaf.1.le
      omega
  | node k children rest _ ih =>
      obtain ⟨mid, hchildren, hrest⟩ := h.node
      obtain ⟨hshape, -, hsr⟩ := hs
      unfold hint? at hw
      split at hw
      · next hk =>
          subst hk
          have hne : children.tokens ≠ [] := tokens_ne_nil hshape
          have hstart := (hchildren.start_bounds hne).1
          have hlt := hchildren.start_lt_stop hshape
          have hmid := hchildren.stop_eq hne
          have hhi := hrest.le
          cases hw
          cases hfirst : rest.first? with
          | none =>
              simp only [Option.map_none, Option.getD_none]
              omega
          | some u =>
              have hnext := hrest.outerStart hfirst
              simp only [Option.map_some, Option.getD_some]
              omega
      · have hbounds := ih hrest hsr hw
        have hle := hchildren.le
        omega

theorem Lies.inRow_param (h : f.Lies source lo hi) (hs : f.Shaped) :
    InRow lo f.param.range?.toList hi := by
  unfold Param.range?
  show InRow lo (f.hint?.map _).toList hi
  cases hw : f.hint? with
  | none => exact h.le
  | some w =>
      obtain ⟨hstart, hlt, hstop, hnext⟩ := h.hint?_bounds hs hw
      exact ⟨hstart, Nat.lt_of_lt_of_le hlt hstop, hnext⟩

theorem Lies.inRow_params (h : f.Lies source lo hi) (hs : f.Shaped) :
    InRow lo (((f.childrenOf .param).map param).filterMap Param.range?) hi := by
  induction f generalizing lo with
  | nil => exact h.le
  | leaf t rest ih =>
      exact .weaken h.leaf.1.le (ih h.leaf.2 hs)
  | node k children rest _ ih =>
      obtain ⟨mid, hchildren, hrest⟩ := h.node
      obtain ⟨-, hsc, hsr⟩ := hs
      have hlater := ih hrest hsr
      unfold Forest.childrenOf
      split
      · have hfirst := hchildren.inRow_param hsc
        rw [List.map_cons, List.filterMap_cons]
        cases hrange : children.param.range? with
        | none =>
            rw [hrange] at hfirst
            exact .weaken hfirst hlater
        | some s =>
            rw [hrange] at hfirst
            exact hfirst.append hlater
      · exact .weaken hchildren.le hlater

theorem hint?_append_of_tops {leafOk : Token → Prop} {nodeOk : NodeKind → Bool}
    (h : f.Tops leafOk nodeOk) (hk : nodeOk .hint = false) (g : Forest) :
    (f ++ g).hint? = g.hint? := by
  induction f with
  | nil => rfl
  | leaf t rest ih => exact ih h.2
  | node k children rest _ ih =>
      have hne : k ≠ .hint := by
        rintro rfl
        simp [h.1] at hk
      rw [node_append, hint?, if_neg hne, ih h.2]

/-- Where only parts are searched, it does not matter what comes first. -/
theorem outline_flag {search : Search} (hsearch : search ≠ .everywhere) (isFirst isFirst' : Bool)
    (f : Forest) : f.outline isFirst search = f.outline isFirst' search := by
  cases search with
  | everywhere => exact absurd rfl hsearch
  | inside | behindArrow => cases f <;> rfl

/-- Searching for the body skips what has no body and no arrow in it. -/
theorem outline_append_of_tops {nodeOk : NodeKind → Bool} (h : f.Tops NoArrow nodeOk)
    (hblock : nodeOk .block = false) {search : Search}
    (hsearch : search = .inside .block ∨ search = .behindArrow) (g : Forest) (isFirst : Bool) :
    (f ++ g).outline isFirst search = g.outline isFirst search := by
  have hflag : search ≠ .everywhere := by rcases hsearch with rfl | rfl <;> simp
  induction f generalizing isFirst with
  | nil => rfl
  | leaf t rest ih =>
      rw [outline_flag hflag isFirst false g, ← ih h.2 false]
      rcases hsearch with rfl | rfl
      · rfl
      · rw [leaf_append, outline, if_neg h.1]
  | node k children rest _ ih =>
      rw [outline_flag hflag isFirst false g, ← ih h.2 false]
      rcases hsearch with rfl | rfl
      · have hne : k ≠ .block := by
          rintro rfl
          simp [h.1] at hblock
        rw [node_append, outline, if_neg hne]
      · rfl

/-! ## Signatures -/

theorem Tops.imp {leafOk : Token → Prop} {nodeOk nodeOk' : NodeKind → Bool}
    (h : f.Tops leafOk nodeOk) (himp : ∀ k, nodeOk k = true → nodeOk' k = true) :
    f.Tops leafOk nodeOk' := by
  induction f with
  | nil => trivial
  | leaf t rest ih => exact ⟨h.1, ih h.2⟩
  | node k children rest _ ih => exact ⟨himp k h.1, ih h.2⟩

section Parts

variable {start stop : Nat} {captures result body : Forest}

theorem Result.child?_captures (hresult : result.Result)
    (hbody : body.Tops (fun _ => True) isBodyKind) :
    (result ++ body).child? .captures = none := by
  have hnone : body.child? .captures = none := by
    simpa [append_nil, Forest.child?] using child?_append_of_tops hbody (k := .captures) rfl nil
  cases hresult with
  | absent | present => exact hnone

/-- The parameters end where the captured variables do, if there are any. -/
theorem Captures.stop_eq (hcaptures : captures.Captures) (hresult : result.Result)
    (hbody : body.Tops (fun _ => True) isBodyKind) {params : Forest} (hs : captures.Shaped)
    (hparams : params.stop = start) (h : captures.Lies source start stop) :
    (((captures ++ (result ++ body)).child? .captures).or (some params)).map Forest.stop =
      some stop := by
  cases hcaptures with
  | absent =>
      rw [nil_append, hresult.child?_captures hbody]
      simp [hparams, h.nil]
  | present children =>
      obtain ⟨mid, hchildren, hnil⟩ := h.node
      obtain rfl := hnil.nil
      simp [Forest.child?, hchildren.stop_eq hs.1]

/-- The range of a result hint reaches from the end of the parameters to its own. -/
theorem Result.inRow (hresult : result.Result) (hs : result.Shaped)
    (h : result.Lies source start stop) (hbody : body.Tops (fun _ => True) isBodyKind) :
    InRow start ((result ++ body).hint?.map fun w => (⟨start, w.span.stop⟩ : Span)).toList stop := by
  cases hresult with
  | absent =>
      have hnone : body.hint? = none := by
        simpa [append_nil, hint?] using hint?_append_of_tops hbody rfl nil
      simpa [hnone, InRow] using h.le
  | present mark children =>
      obtain ⟨hmark, hhint⟩ := h.leaf
      obtain ⟨mid, hchildren, hnil⟩ := hhint.node
      obtain rfl := hnil.nil
      have hne : children.tokens ≠ [] := tokens_ne_nil hs.1
      have hmarkle := hmark.le
      have hstart := (hchildren.start_bounds hne).1
      have hlt := hchildren.start_lt_stop hs.1
      have hstop := hchildren.stop_eq hne
      refine ⟨Nat.le_refl _, ?_, ?_⟩
      · show start < children.stop
        omega
      · show children.stop ≤ mid
        omega

/-- Neither a body nor an arrow stands in front of the end of the head. -/
theorem tops_head {front params : Forest} (hfront : front.Tops NoArrow isFrontKind)
    (hcaptures : captures.Captures) (hresult : result.Result) :
    (front ++ node .params params (captures ++ result)).Tops NoArrow (· != .block) := by
  have hkind : ∀ k, isFrontKind k = true → (k != .block) = true := by
    intro k hk
    cases k <;> first | rfl | exact hk
  refine (tops_append _ _).mpr ⟨hfront.imp hkind, rfl, (tops_append _ _).mpr ⟨?_, ?_⟩⟩
  · cases hcaptures with
    | absent => trivial
    | present => exact ⟨rfl, trivial⟩
  · cases hresult with
    | absent => trivial
    | present mark children hmark => exact ⟨hmark, rfl, trivial⟩

/-- The ranges of a function-like, read off its parts. -/
theorem ranges_functionHead {front params : Forest} (hfront : front.Tops NoArrow isFrontKind)
    (hcaptures : captures.Captures)
    (hend : (((captures ++ (result ++ body)).child? .captures).or (some params)).map Forest.stop =
      some stop) (kind : FunctionKind) (doc : Option Text) :
    ((front ++ node .params params (captures ++ (result ++ body))).functionHead kind doc).ranges =
      ((params.childrenOf .param).map param).filterMap Param.range? ++
        ((result ++ body).hint?.map fun w => (⟨stop, w.span.stop⟩ : Span)).toList := by
  have hhint : (captures ++ (result ++ body)).hint? = (result ++ body).hint? := by
    cases hcaptures with
    | absent | present => rfl
  have hcaptured : (node .params params (captures ++ (result ++ body))).child? .captures =
      (captures ++ (result ++ body)).child? .captures := rfl
  have hparams : (node .params params (captures ++ (result ++ body))).child? .params =
      some params := rfl
  have hhead : (node .params params (captures ++ (result ++ body))).hint? =
      (captures ++ (result ++ body)).hint? := rfl
  simp only [FunctionHead.ranges, FunctionHead.resultRange?, functionHead, Forest.params,
    child?_append_of_tops hfront (k := .params) rfl,
    child?_append_of_tops hfront (k := .captures) rfl, hint?_append_of_tops hfront rfl, hcaptured,
    hparams, hhead, hhint, hend, Option.map_some, Option.getD_some, Option.bind_some]

end Parts

/-- A function-like is a head and a body.  The ranges of its own hints lie in the head,
and the search for declarations finds only those of the body. -/
theorem Signature.split (hsig : f.Signature) (hs : f.Shaped) (h : f.Lies source lo hi)
    (kind : FunctionKind) (doc : Option Text) :
    ∃ head body mid, f = head ++ body ∧ head.Tops NoArrow (· != .block) ∧ body.Shaped ∧
      body.Lies source mid hi ∧ InRow lo (f.functionHead kind doc).ranges mid := by
  cases hsig with
  | @mk front params captures result body hfront hcaptures hresult hbody =>
      obtain ⟨-, hne, hsparams, hstail⟩ := (shaped_append _ _).mp hs
      obtain ⟨hscaptures, hstail⟩ := (shaped_append _ _).mp hstail
      obtain ⟨hsresult, hsbody⟩ := (shaped_append _ _).mp hstail
      obtain ⟨a, hlfront, hlnode⟩ := h.append
      obtain ⟨b, hlparams, hltail⟩ := hlnode.node
      obtain ⟨c, hlcaptures, hltail⟩ := hltail.append
      obtain ⟨d, hlresult, hlbody⟩ := hltail.append
      have hend := hcaptures.stop_eq hresult hbody hscaptures (hlparams.stop_eq hne) hlcaptures
      refine ⟨front ++ node .params params (captures ++ result), body, d, ?_,
        tops_head hfront hcaptures hresult, hsbody, hlbody, ?_⟩
      · simp [append_assoc]
      · rw [ranges_functionHead hfront hcaptures hend]
        exact .append (.weaken hlfront.le (hlparams.inRow_params hsparams))
          (.weaken hlcaptures.le (hresult.inRow hsresult hlresult hbody))

/-! ## Outlines -/

/-- The number of tokens and nodes of a forest, at every depth. -/
def count : Forest → Nat
  | nil => 0
  | leaf _ rest => 1 + count rest
  | node _ children rest => 1 + count children + count rest

theorem count_append (f g : Forest) : (f ++ g).count = f.count + g.count := by
  induction f with
  | nil => simp [count]
  | leaf t rest ih => simp [count, ih, Nat.add_assoc]
  | node k children rest _ ih => simp [count, ih, Nat.add_assoc]

end Forest

end Php

namespace Outline

theorem ranges_functionLike (head : FunctionHead) (body : Outline) :
    (functionLike head body .empty).ranges = head.ranges ++ body.ranges := by
  simp [ranges, functions]

end Outline

namespace Php.Forest

variable {source : Text} {lo hi : Nat} {f : Forest}

/-- The ranges of all hints of an outline stand one behind the other. -/
theorem Lies.inRow_outline (h : f.Lies source lo hi) (hs : f.Shaped) (isFirst : Bool)
    (search : Search) : InRow lo (f.outline isFirst search).ranges hi := by
  -- The body of a function-like is a part of its children but not one of the nodes there, so
  -- the induction is on the number of tokens and nodes.
  induction hn : f.count using Nat.strongRecOn generalizing f lo hi isFirst search with
  | ind n ih =>
      subst hn
      cases f with
      | nil => cases search <;> exact h.le
      | leaf t rest =>
          refine .weaken h.leaf.1.le ?_
          have hlt : rest.count < (Forest.leaf t rest).count := by simp [count]
          cases search <;> exact ih _ hlt h.leaf.2 hs _ _ rfl
      | node k children rest =>
          obtain ⟨mid, hchildren, hrest⟩ := h.node
          obtain ⟨hshape, hsc, hsr⟩ := hs
          have hlc : children.count < (Forest.node k children rest).count := by
            simp only [count]
            omega
          have hlr : rest.count < (Forest.node k children rest).count := by
            simp only [count]
            omega
          have hinner := ih _ hlc hchildren hsc true
          have hlater := ih _ hlr hrest hsr false
          cases search with
          | behindArrow => exact .weaken hchildren.le (hlater _ rfl)
          | inside kind =>
              unfold outline
              split
              · rw [Outline.ranges_append]
                exact .append (hinner _ rfl) (hlater _ rfl)
              · exact .weaken hchildren.le (hlater _ rfl)
          | everywhere =>
              obtain ⟨here, heq, hhere⟩ := outline_node isFirst k children rest
              rw [heq, Outline.ranges_append]
              refine .append ?_ (hlater _ rfl)
              cases hhere with
              | namespaceLine | imports | traitUse | property => exact hchildren.le
              | namespaceBlock | classLike =>
                  simpa [Outline.ranges, Outline.functions] using hinner _ rfl
              | inner => exact hinner _ rfl
              | functionLike kind doc hsig hsearch =>
                  obtain ⟨head, body, middle, rfl, hhead, hsbody, hbody, hranges⟩ :=
                    (hsig hshape).split hsc hchildren kind doc
                  rw [Outline.ranges_functionLike, outline_append_of_tops hhead rfl hsearch]
                  refine .append hranges (ih _ ?_ hbody hsbody _ _ rfl)
                  rw [count_append] at hlc
                  omega

end Php.Forest

end NativeHints
