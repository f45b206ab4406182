import NativeHints.Proofs.Derivation
import NativeHints.Proofs.Layout
import NativeHints.Php.Grammar.Statement

/-!
# The shapes of nodes

What the outline takes from a node depends on the order of what is in it.  A
function-like has its parameters, then perhaps what it captures, then perhaps a
result hint, and only then its body.

Such shapes are checked on the rules and hold of every forest that they derive.
The checks are computed, so that the grammar passes them is a matter of running
them (`shaped_grammar`).
-/

namespace NativeHints

namespace Php

/-! ## Forests -/

namespace Forest

theorem append_nil (f : Forest) : f ++ nil = f := by
  induction f with
  | nil => rfl
  | leaf t rest ih => simp [ih]
  | node k children rest _ ih => simp [ih]

theorem append_assoc (f g h : Forest) : f ++ g ++ h = f ++ (g ++ h) := by
  induction f with
  | nil => rfl
  | leaf t rest ih => simp [ih]
  | node k children rest _ ih => simp [ih]

/-- Conditions on the tokens and nodes of a forest, those inside of nodes not
included. -/
def Tops (leafOk : Token → Prop) (nodeOk : NodeKind → Bool) : Forest → Prop
  | nil => True
  | leaf t rest => leafOk t ∧ Tops leafOk nodeOk rest
  | node k _ rest => nodeOk k = true ∧ Tops leafOk nodeOk rest

theorem tops_append {leafOk : Token → Prop} {nodeOk : NodeKind → Bool} (f g : Forest) :
    (f ++ g).Tops leafOk nodeOk ↔ f.Tops leafOk nodeOk ∧ g.Tops leafOk nodeOk := by
  induction f with
  | nil => simp [Tops]
  | leaf t rest ih => simp [Tops, ih, and_assoc]
  | node k children rest _ ih => simp [Tops, ih, and_assoc]

/-- Not the arrow of an arrow function. -/
def NoArrow (t : Token) : Prop := t.text ≠ "=>".toList

/-- The nodes that can stand in front of the parameters. -/
def isFrontKind : NodeKind → Bool
  | .params | .captures | .hint | .block => false
  | _ => true

/-- The nodes that can stand behind the head. -/
def isBodyKind : NodeKind → Bool
  | .captures | .hint => false
  | _ => true

/-- What a closure captures, or nothing. -/
inductive Captures : Forest → Prop where
  | absent : Captures nil
  | present (children : Forest) : Captures (node .captures children nil)

/-- A result hint with a mark in front of it, or nothing. -/
inductive Result : Forest → Prop where
  | absent : Result nil
  | present (mark : Token) (children : Forest) :
      NoArrow mark → Result (leaf mark (node .hint children nil))

/-- The children of a function-like: parameters, captured variables, a result hint and
a body, in this order. -/
inductive Signature : Forest → Prop where
  | mk {front : Forest} (params : Forest) {captures result body : Forest} :
      front.Tops NoArrow isFrontKind → Captures captures → Result result →
      body.Tops (fun _ => True) isBodyKind →
      Signature (front ++ node .params params (captures ++ (result ++ body)))

/-- What the outline relies on in a node of a kind. -/
def NodeShape (children : Forest) (k : NodeKind) : Prop :=
  match k with
  | .function | .method | .closure | .arrow => children.Signature
  | .params | .captures => children.tokens ≠ []
  | .hint => children.text ≠ []
  | _ => True

/-- A forest whose nodes have their shapes, at every depth. -/
def Shaped : Forest → Prop
  | nil => True
  | leaf _ rest => Shaped rest
  | node k children rest => children.NodeShape k ∧ Shaped children ∧ Shaped rest

theorem shaped_append (f g : Forest) : (f ++ g).Shaped ↔ f.Shaped ∧ g.Shaped := by
  induction f with
  | nil => simp [Shaped]
  | leaf t rest ih => simp [Shaped, ih]
  | node k children rest _ ih => simp [Shaped, ih, and_assoc]

end Forest

/-! ## Checks on rules -/

namespace Terminal

/-- Whether every token it accepts is a word. -/
def isWord : Terminal → Bool
  | word _ | exactly _ | name | nameExcept _ => true
  | kind k => k == .word
  | mark _ => false

theorem kind_of_isWord {t : Terminal} {u : Token} (h : t.isWord = true) (hu : t.accepts u = true) :
    u.piece.kind = .word := by
  cases t <;> simp_all [isWord, accepts]

/-- Whether it does not accept an arrow. -/
def noArrow : Terminal → Bool
  | mark text | exactly text => text != "=>".toList
  | word text => text.lower != "=>".toList
  | name | nameExcept _ | kind _ => false

theorem noArrow_of_accepts {t : Terminal} {u : Token} (h : t.noArrow = true)
    (hu : t.accepts u = true) : Forest.NoArrow u := by
  intro htext
  cases t with
  | word text =>
      simp only [accepts, Bool.and_eq_true, decide_eq_true_eq, htext, noArrow, bne_iff_ne,
        Text.Same] at h hu
      exact h (hu.2.symm.trans (by decide))
  | _ => simp_all [noArrow, accepts]

end Terminal

namespace Rule

variable {σ : Type}

/-- Whether all tokens and nodes that a rule puts side by side are allowed. -/
def tops (leafOk : Terminal → Bool) (nodeOk : NodeKind → Bool) (symbolOk : Bool) : Rule σ → Bool
  | token t => leafOk t
  | empty | .unless _ | fresh => true
  | seq a b | alt a b =>
      tops leafOk nodeOk symbolOk a && tops leafOk nodeOk symbolOk b
  | many r => tops leafOk nodeOk symbolOk r
  | node k _ => nodeOk k
  | group r => nodeOk .plain && tops leafOk nodeOk symbolOk r
  | symbol _ => symbolOk

/-- Whether a rule can stand in front of parameters. -/
def isFront (r : Rule σ) : Bool := r.tops Terminal.noArrow Forest.isFrontKind false

/-- Whether a rule can stand behind the head of a function-like. -/
def isBody (r : Rule σ) : Bool := r.tops (fun _ => true) Forest.isBodyKind true

/-- Whether a rule always reads a token of a sort. -/
def yields (p : Terminal → Bool) : Rule σ → Bool
  | token t => p t
  | seq a b => yields p a || yields p b
  | alt a b => yields p a && yields p b
  | node _ r | group r => yields p r
  | _ => false

/-- The rules that a rule runs one after another. -/
def spine : Rule σ → List (Rule σ)
  | seq a b => spine a ++ spine b
  | r => [r]

/-- Whether rules read a result hint or nothing, and then a body. -/
def endsSignature : List (Rule σ) → Bool
  | alt (seq (token t) (node .hint _)) empty :: rs => t.noArrow && rs.all isBody
  | rs => rs.all isBody

/-- Whether rules read what comes behind parameters. -/
def continuesSignature : List (Rule σ) → Bool
  | alt (node .captures _) empty :: rs => endsSignature rs
  | rs => endsSignature rs

/-- Whether rules read the children of a function-like. -/
def isSignature : List (Rule σ) → Bool
  | [] => false
  | node .params _ :: rs => continuesSignature rs
  | r :: rs => r.isFront && isSignature rs

/-- Whether a rule reads only forests that are fit for a node of a kind. -/
def fits (k : NodeKind) (r : Rule σ) : Bool :=
  match k with
  | .function | .method | .closure | .arrow => isSignature r.spine
  | .params | .captures => r.yields fun _ => true
  | .hint => r.yields Terminal.isWord
  | _ => true

/-- Whether the nodes that a rule makes are fit for their kinds. -/
def shaped : Rule σ → Bool
  | seq a b | alt a b => shaped a && shaped b
  | many r | group r => shaped r
  | node k r => r.fits k && shaped r
  | _ => true

end Rule

/-! ## The checks are sound -/

section Sound

variable {σ : Type} {grammar : σ → Rule σ} {r : Rule σ} {f : Forest}

theorem Forest.tops_grouped {leafOk : Token → Prop} {nodeOk : NodeKind → Bool}
    (hplain : nodeOk .plain = true) (h : f.Tops leafOk nodeOk) : f.grouped.Tops leafOk nodeOk := by
  unfold grouped
  split
  · exact h
  · exact ⟨hplain, trivial⟩

theorem Derives.tops {leafOk : Terminal → Bool} {LeafOk : Token → Prop} {nodeOk : NodeKind → Bool}
    {symbolOk : Bool} (hleaf : ∀ t u, leafOk t = true → t.accepts u = true → LeafOk u)
    (hsymbol : symbolOk = true → ∀ s, (grammar s).tops leafOk nodeOk symbolOk = true)
    (h : Derives grammar r f) (hr : r.tops leafOk nodeOk symbolOk = true) :
    f.Tops LeafOk nodeOk := by
  induction h with
  | token hu => exact ⟨hleaf _ _ hr hu, trivial⟩
  | empty | manyNil | «unless» | fresh => trivial
  | seq _ _ iha ihb =>
      have hboth := Bool.and_eq_true_iff.mp hr
      exact (Forest.tops_append _ _).mpr ⟨iha hboth.1, ihb hboth.2⟩
  | altLeft _ ih => exact ih (Bool.and_eq_true_iff.mp hr).1
  | altRight _ ih => exact ih (Bool.and_eq_true_iff.mp hr).2
  | manyCons _ _ ihf ihg => exact (Forest.tops_append _ _).mpr ⟨ihf hr, ihg hr⟩
  | node => exact ⟨hr, trivial⟩
  | group _ ih =>
      have hboth := Bool.and_eq_true_iff.mp hr
      exact Forest.tops_grouped hboth.1 (ih hboth.2)
  | symbol _ ih => exact ih (hsymbol hr _)

theorem Derives.tops_front (h : Derives grammar r f) (hr : r.isFront = true) :
    f.Tops Forest.NoArrow Forest.isFrontKind :=
  h.tops (fun _ _ ht hu => Terminal.noArrow_of_accepts ht hu) (fun hfalse => by simp at hfalse) hr

theorem Derives.tops_body (hgrammar : ∀ s, (grammar s).isBody = true) (h : Derives grammar r f)
    (hr : r.isBody = true) : f.Tops (fun _ => True) Forest.isBodyKind :=
  h.tops (fun _ _ _ _ => trivial) (fun _ => hgrammar) hr

theorem Derives.yields {p : Terminal → Bool} (h : Derives grammar r f)
    (hr : r.yields p = true) : ∃ t u, p t = true ∧ t.accepts u = true ∧ u ∈ f.tokens := by
  induction h with
  | @token t u hu => exact ⟨t, u, hr, hu, by simp [Forest.tokens]⟩
  | seq _ _ iha ihb =>
      rcases Bool.or_eq_true_iff.mp hr with hr | hr
      · obtain ⟨t, u, ht, hu, hmem⟩ := iha hr
        exact ⟨t, u, ht, hu, by simp [hmem]⟩
      · obtain ⟨t, u, ht, hu, hmem⟩ := ihb hr
        exact ⟨t, u, ht, hu, by simp [hmem]⟩
  | altLeft _ ih => exact ih (Bool.and_eq_true_iff.mp hr).1
  | altRight _ ih => exact ih (Bool.and_eq_true_iff.mp hr).2
  | node _ ih => simpa [Forest.tokens] using ih hr
  | group _ ih => simpa [Forest.tokens_grouped] using ih hr
  | empty | manyNil | manyCons | «unless» | fresh | symbol => simp [Rule.yields] at hr

/-- The forests that rules can read one after another. -/
inductive DerivesAll (grammar : σ → Rule σ) : List (Rule σ) → Forest → Prop where
  | nil : DerivesAll grammar [] .nil
  | cons {r : Rule σ} {rs : List (Rule σ)} {f g : Forest} :
      Derives grammar r f → DerivesAll grammar rs g → DerivesAll grammar (r :: rs) (f ++ g)

theorem DerivesAll.append {rs ss : List (Rule σ)} {g : Forest} (h : DerivesAll grammar rs f)
    (hg : DerivesAll grammar ss g) : DerivesAll grammar (rs ++ ss) (f ++ g) := by
  induction h with
  | nil => exact hg
  | cons hr _ ih =>
      rw [Forest.append_assoc]
      exact .cons hr ih

theorem Derives.spine (h : Derives grammar r f) : DerivesAll grammar r.spine f := by
  induction r generalizing f with
  | seq a b iha ihb =>
      cases h with
      | seq ha hb => exact (iha ha).append (ihb hb)
  | _ => simpa [Rule.spine, Forest.append_nil] using DerivesAll.cons h .nil

theorem DerivesAll.tops_body (hgrammar : ∀ s, (grammar s).isBody = true) {rs : List (Rule σ)}
    (h : DerivesAll grammar rs f) (hr : rs.all Rule.isBody = true) :
    f.Tops (fun _ => True) Forest.isBodyKind := by
  induction h with
  | nil => trivial
  | cons hd _ ih =>
      rw [List.all_cons, Bool.and_eq_true_iff] at hr
      exact (Forest.tops_append _ _).mpr ⟨hd.tops_body hgrammar hr.1, ih hr.2⟩

theorem DerivesAll.result_body (hgrammar : ∀ s, (grammar s).isBody = true) {rs : List (Rule σ)}
    (h : DerivesAll grammar rs f) (hr : Rule.endsSignature rs = true) :
    ∃ result body, f = result ++ body ∧ result.Result ∧
      body.Tops (fun _ => True) Forest.isBodyKind := by
  unfold Rule.endsSignature at hr
  split at hr
  · next t r rs =>
      rw [Bool.and_eq_true_iff] at hr
      cases h with
      | cons hhint hrest =>
          have hbody := hrest.tops_body hgrammar hr.2
          cases hhint with
          | altLeft hhint =>
              cases hhint with
              | seq hmark hhint =>
                  cases hmark with
                  | @token _ u hu =>
                      cases hhint with
                      | @node _ _ children _ =>
                          exact ⟨_, _, rfl, .present u children (Terminal.noArrow_of_accepts hr.1 hu),
                            hbody⟩
          | altRight hnone =>
              cases hnone
              exact ⟨_, _, rfl, .absent, hbody⟩
  · exact ⟨.nil, f, rfl, .absent, h.tops_body hgrammar hr⟩

theorem DerivesAll.captures_result_body (hgrammar : ∀ s, (grammar s).isBody = true)
    {rs : List (Rule σ)} (h : DerivesAll grammar rs f) (hr : Rule.continuesSignature rs = true) :
    ∃ captures result body, f = captures ++ (result ++ body) ∧ captures.Captures ∧ result.Result ∧
      body.Tops (fun _ => True) Forest.isBodyKind := by
  unfold Rule.continuesSignature at hr
  split at hr
  · next r rs =>
      cases h with
      | cons hcaptures hrest =>
          obtain ⟨result, body, rfl, hresult, hbody⟩ := hrest.result_body hgrammar hr
          cases hcaptures with
          | altLeft hcaptures =>
              cases hcaptures with
              | @node _ _ children _ => exact ⟨_, _, _, rfl, .present children, hresult, hbody⟩
          | altRight hnone =>
              cases hnone
              exact ⟨_, _, _, rfl, .absent, hresult, hbody⟩
  · obtain ⟨result, body, rfl, hresult, hbody⟩ := h.result_body hgrammar hr
    exact ⟨.nil, _, _, rfl, .absent, hresult, hbody⟩

theorem DerivesAll.signature (hgrammar : ∀ s, (grammar s).isBody = true) {rs : List (Rule σ)}
    (h : DerivesAll grammar rs f) (hr : Rule.isSignature rs = true) : f.Signature := by
  induction h with
  | nil => simp [Rule.isSignature] at hr
  | @cons r rs f g hd hrest ih =>
      unfold Rule.isSignature at hr
      split at hr
      · simp_all
      · next params _ heq =>
          obtain ⟨rfl, rfl⟩ := List.cons.inj heq
          obtain ⟨captures, result, body, rfl, hcaptures, hresult, hbody⟩ :=
            hrest.captures_result_body hgrammar hr
          cases hd with
          | @node _ _ children _ =>
              show Forest.Signature (.nil ++ .node .params children (captures ++ (result ++ body)))
              exact .mk children trivial hcaptures hresult hbody
      · next heq =>
          obtain ⟨rfl, rfl⟩ := List.cons.inj heq
          rw [Bool.and_eq_true_iff] at hr
          cases ih hr.2 with
          | mk params hfront hcaptures hresult hbody =>
              rw [← Forest.append_assoc]
              exact .mk params ((Forest.tops_append _ _).mpr ⟨hd.tops_front hr.1, hfront⟩) hcaptures
                hresult hbody

theorem Derives.nodeShape (hgrammar : ∀ s, (grammar s).isBody = true) {k : NodeKind}
    (h : Derives grammar r f) (hr : r.fits k = true) (hproper : ∀ t ∈ f.tokens, t.piece.Proper) :
    f.NodeShape k := by
  unfold Forest.NodeShape
  split
  case h_1 | h_2 | h_3 | h_4 => exact h.spine.signature hgrammar hr
  case h_5 | h_6 =>
      obtain ⟨t, u, -, -, hmem⟩ := h.yields hr
      exact List.ne_nil_of_mem hmem
  case h_7 =>
      obtain ⟨t, u, ht, hu, hmem⟩ := h.yields hr
      exact Forest.text_ne_nil hmem (hproper u hmem (Terminal.kind_of_isWord ht hu))
  case h_8 => trivial

theorem Forest.shaped_grouped (h : f.Shaped) : f.grouped.Shaped := by
  unfold grouped
  split
  · exact h
  · exact ⟨trivial, h, trivial⟩

/-- What a rule that passes the check derives is shaped. -/
theorem Derives.shaped (hbody : ∀ s, (grammar s).isBody = true)
    (hgrammar : ∀ s, (grammar s).shaped = true) (h : Derives grammar r f)
    (hr : r.shaped = true) (hproper : ∀ t ∈ f.tokens, t.piece.Proper) : f.Shaped := by
  induction h with
  | token | empty | manyNil | «unless» | fresh => trivial
  | seq _ _ iha ihb =>
      have hboth := Bool.and_eq_true_iff.mp hr
      rw [Forest.tokens_append, List.forall_mem_append] at hproper
      exact (Forest.shaped_append _ _).mpr ⟨iha hboth.1 hproper.1, ihb hboth.2 hproper.2⟩
  | altLeft _ ih => exact ih (Bool.and_eq_true_iff.mp hr).1 hproper
  | altRight _ ih => exact ih (Bool.and_eq_true_iff.mp hr).2 hproper
  | manyCons _ _ ihf ihg =>
      rw [Forest.tokens_append, List.forall_mem_append] at hproper
      exact (Forest.shaped_append _ _).mpr ⟨ihf hr hproper.1, ihg hr hproper.2⟩
  | node hd ih =>
      have hboth := Bool.and_eq_true_iff.mp hr
      have hchildren := (List.forall_mem_append.mp hproper).1
      exact ⟨hd.nodeShape hbody hboth.1 hchildren, ih hboth.2 hchildren, trivial⟩
  | group _ ih =>
      rw [Forest.tokens_grouped] at hproper
      exact Forest.shaped_grouped (ih hr hproper)
  | symbol _ ih => exact ih (hgrammar _) hproper

end Sound

/-! ## The grammar passes -/

theorem shaped_grammar (s : Symbol) : (grammar s).shaped = true := by
  cases s <;> rfl

theorem isBody_grammar (s : Symbol) : (grammar s).isBody = true := by
  cases s <;> rfl

end Php

end NativeHints
