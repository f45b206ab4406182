import Mathlib.Data.List.Forall2
import NativeHints.Insertion.Plan
import NativeHints.Removal.Plan

/-!
# The way through an outline

Both planning passes go through an outline in the same order and do something at
each function-like and each property.  `Outline.visits` is that order as a list:
the declarations with the scope in effect and the class-likes around.  The
structural recursion is done once, here.  Everywhere else a pass is what it does
at one visit, gathered over the list (`plan_eq_gather`).
-/

namespace NativeHints

/-! ## Gathering -/

section Gather

variable {α β ε : Type}

/-- The results of a function on all members of a list, or its first failure. -/
def gather (f : α → Except ε (List β)) : List α → Except ε (List β)
  | [] => .ok []
  | a :: l => do
      let here ← f a
      let there ← gather f l
      return here ++ there

theorem gather_cons_eq_ok {f : α → Except ε (List β)} {a : α} {l : List α} {bs : List β} :
    gather f (a :: l) = .ok bs ↔
      ∃ here there, f a = .ok here ∧ gather f l = .ok there ∧ bs = here ++ there := by
  rw [gather]
  cases hhere : f a with
  | error e =>
      constructor
      · intro h; cases h
      · rintro ⟨here, there, h, -, -⟩; cases h
  | ok here =>
      cases hthere : gather f l with
      | error e =>
          constructor
          · intro h; cases h
          · rintro ⟨here, there, -, h, -⟩; cases h
      | ok there =>
          constructor
          · intro h; cases h; exact ⟨here, there, rfl, rfl, rfl⟩
          · rintro ⟨here', there', h, h', rfl⟩; cases h; cases h'; rfl

theorem exists_of_gather_eq_error {f : α → Except ε (List β)} {l : List α} {e : ε}
    (h : gather f l = .error e) : ∃ a ∈ l, f a = .error e := by
  induction l with
  | nil => cases h
  | cons a l ih =>
      rw [gather] at h
      cases hhere : f a with
      | error e' => rw [hhere] at h; cases h; exact ⟨a, List.mem_cons_self .., hhere⟩
      | ok here =>
          rw [hhere] at h
          cases hthere : gather f l with
          | ok there => rw [hthere] at h; cases h
          | error e' =>
              rw [hthere] at h
              cases h
              obtain ⟨b, hb, hfb⟩ := ih hthere
              exact ⟨b, List.mem_cons_of_mem _ hb, hfb⟩

/-- Whatever is gathered comes from one of the steps. -/
theorem exists_of_mem_gather {f : α → Except ε (List β)} {l : List α} {bs : List β}
    (h : gather f l = .ok bs) {b : β} (hb : b ∈ bs) :
    ∃ a ∈ l, ∃ here, f a = .ok here ∧ b ∈ here := by
  induction l generalizing bs with
  | nil => cases h; cases hb
  | cons a l ih =>
      obtain ⟨here, there, hhere, hthere, rfl⟩ := gather_cons_eq_ok.mp h
      rcases List.mem_append.mp hb with hb | hb
      · exact ⟨a, List.mem_cons_self .., here, hhere, hb⟩
      · obtain ⟨a', ha', hfound⟩ := ih hthere hb
        exact ⟨a', List.mem_cons_of_mem _ ha', hfound⟩

/-- Every step succeeds, and what it gives is gathered. -/
theorem mem_of_gather {f : α → Except ε (List β)} {l : List α} {bs : List β}
    (h : gather f l = .ok bs) {a : α} (ha : a ∈ l) : ∃ here, f a = .ok here ∧ ∀ b ∈ here, b ∈ bs := by
  induction l generalizing bs with
  | nil => cases ha
  | cons a' l ih =>
      obtain ⟨here, there, hhere, hthere, rfl⟩ := gather_cons_eq_ok.mp h
      rcases List.mem_cons.mp ha with rfl | ha
      · exact ⟨here, hhere, fun b hb => List.mem_append_left _ hb⟩
      · obtain ⟨found, hfound, hmem⟩ := ih hthere ha
        exact ⟨found, hfound, fun b hb => List.mem_append_right _ (hmem b hb)⟩

theorem gather_append (f : α → Except ε (List β)) (l m : List α) :
    gather f (l ++ m) = do
      let front ← gather f l
      let back ← gather f m
      return front ++ back := by
  induction l with
  | nil =>
      rw [List.nil_append, gather]
      cases gather f m <;> rfl
  | cons a l ih =>
      rw [List.cons_append, gather, gather, ih]
      cases f a with
      | error e => rfl
      | ok here =>
          cases gather f l with
          | error e => rfl
          | ok front =>
              cases gather f m with
              | error e => rfl
              | ok back => exact congrArg Except.ok (List.append_assoc ..).symm

/-- What holds at each step, and is kept by appending, holds of everything gathered. -/
theorem gather_imp {f f' : α → Except ε (List β)} {Q : List β → List β → Prop} (hnil : Q [] [])
    (happend : ∀ a b a' b', Q a a' → Q b b' → Q (a ++ b) (a' ++ b')) {l : List α}
    (hstep : ∀ a ∈ l, ∀ bs, f a = .ok bs → ∃ bs', f' a = .ok bs' ∧ Q bs bs') {bs : List β}
    (hbs : gather f l = .ok bs) : ∃ bs', gather f' l = .ok bs' ∧ Q bs bs' := by
  induction l generalizing bs with
  | nil => cases hbs; exact ⟨[], rfl, hnil⟩
  | cons a l ih =>
      obtain ⟨here, there, hhere, hthere, rfl⟩ := gather_cons_eq_ok.mp hbs
      obtain ⟨here', hhere', hQ⟩ := hstep a (List.mem_cons_self ..) here hhere
      obtain ⟨there', hthere', hQ'⟩ := ih (fun b hb => hstep b (List.mem_cons_of_mem _ hb)) hthere
      exact ⟨here' ++ there', gather_cons_eq_ok.mpr ⟨here', there', hhere', hthere', rfl⟩,
        happend _ _ _ _ hQ hQ'⟩

/-- A list on all members of which a function succeeds, next to the results. -/
theorem forall₂_of_mapM {f : α → Except ε β} {l : List α} {l' : List β} (h : l.mapM f = .ok l') :
    List.Forall₂ (fun a b => a ∈ l ∧ f a = .ok b) l l' := by
  induction l generalizing l' with
  | nil => cases h; exact .nil
  | cons a l ih =>
      rw [List.mapM_cons] at h
      cases ha : f a with
      | error e => rw [ha] at h; cases h
      | ok b =>
          cases hl : l.mapM f with
          | error e => rw [ha, hl] at h; cases h
          | ok bs =>
              rw [ha, hl] at h
              cases h
              refine .cons ⟨List.mem_cons_self .., ha⟩ ((ih hl).imp ?_)
              rintro c d ⟨hc, hd⟩
              exact ⟨List.mem_cons_of_mem _ hc, hd⟩

section View

variable {γ : Type} {view view' : List β → List γ}
  (happend : ∀ a b, view (a ++ b) = view a ++ view b)
  (happend' : ∀ a b, view' (a ++ b) = view' a ++ view' b)

include happend happend'

/-- Putting what looks the same in front keeps two results looking the same. -/
theorem toOption_map_append {front front' : List β} {r r' : Except ε (List β)}
    (hfront : view' front' = view front) (h : r'.toOption.map view' = r.toOption.map view) :
    (r'.map (front' ++ ·)).toOption.map view' = (r.map (front ++ ·)).toOption.map view := by
  cases r with
  | error e =>
      cases r' with
      | error e' => rfl
      | ok back' => cases h
  | ok back =>
      cases r' with
      | error e' => cases h
      | ok back' =>
          have hback : view' back' = view back := Option.some.inj h
          have hall : view' (front' ++ back') = view (front ++ back) := by
            rw [happend, happend', hfront, hback]
          exact congrArg some hall

/-- Two functions whose results look the same at each step gather what looks the same, or
both fail. -/
theorem gather_toOption {f f' : α → Except ε (List β)} (hnil : view' [] = view []) {k : α → α}
    {l : List α}
    (hstep : ∀ a ∈ l, (f' (k a)).toOption.map view' = (f a).toOption.map view) :
    (gather f' (l.map k)).toOption.map view' = (gather f l).toOption.map view := by
  induction l with
  | nil => exact congrArg some hnil
  | cons a l ih =>
      have hhere := hstep a (List.mem_cons_self ..)
      have hthere := ih fun b hb => hstep b (List.mem_cons_of_mem _ hb)
      rw [List.map_cons, gather, gather]
      cases hf : f a with
      | error e =>
          cases hf' : f' (k a) with
          | error e' => rfl
          | ok here' => rw [hf, hf'] at hhere; cases hhere
      | ok here =>
          cases hf' : f' (k a) with
          | error e' => rw [hf, hf'] at hhere; cases hhere
          | ok here' =>
              rw [hf, hf'] at hhere
              exact toOption_map_append happend happend' (Option.some.inj hhere) hthere

end View

end Gather

/-! ## Visits -/

/-- A declaration that may get hints. -/
inductive Declaration where
  /-- A function-like. -/
  | function (head : FunctionHead)
  /-- A property declaration. -/
  | property (decl : Property)

/-- A declaration met on the way through an outline. -/
structure Visit where
  /-- The names in effect. -/
  scope : Scope
  /-- The class-likes around, innermost first, each with the names in effect at it. -/
  around : List (ClassHead × Scope)
  /-- The declaration. -/
  item : Declaration

/-- The keys of the class-likes around. -/
def Visit.classes (path : Text) (v : Visit) : List Text := v.around.map fun c => c.1.key path c.2

namespace Outline

/-- The names in effect after an outline. -/
def scopeAfter : Outline → Scope → Scope
  | .empty, s => s
  | .namespaceLine name rest, s => rest.scopeAfter (s.enter name)
  | .namespaceBlock name body rest, s =>
      rest.scopeAfter ((body.scopeAfter (s.enter name)).enter none)
  | .imports clauses rest, s => rest.scopeAfter (s.importAll clauses)
  | .classLike _ members rest, s => rest.scopeAfter (members.scopeAfter s)
  | .functionLike _ body rest, s => rest.scopeAfter (body.scopeAfter s)
  | .property _ rest, s => rest.scopeAfter s
  | .traitUse _ rest, s => rest.scopeAfter s

/-- The declarations of an outline in order. -/
def visits : Outline → Scope → List (ClassHead × Scope) → List Visit
  | .empty, _, _ => []
  | .namespaceLine name rest, s, around => rest.visits (s.enter name) around
  | .namespaceBlock name body rest, s, around =>
      body.visits (s.enter name) around ++
        rest.visits ((body.scopeAfter (s.enter name)).enter none) around
  | .imports clauses rest, s, around => rest.visits (s.importAll clauses) around
  | .classLike head members rest, s, around =>
      members.visits s ((head, s) :: around) ++ rest.visits (members.scopeAfter s) around
  | .functionLike head body rest, s, around =>
      ⟨s, around, .function head⟩ ::
        (body.visits s around ++ rest.visits (body.scopeAfter s) around)
  | .property decl rest, s, around => ⟨s, around, .property decl⟩ :: rest.visits s around
  | .traitUse _ rest, s, around => rest.visits s around

end Outline

/-! ## The two passes, visit by visit -/

namespace Insertion

/-- The insertions at one visit. -/
def planVisit (c : Context) (v : Visit) : Except Error (List Insertion) :=
  match v.item with
  | .function head => ofFunction c v.scope (v.classes c.path) head
  | .property decl => .ok (ofProperty c v.scope (v.classes c.path) decl)

theorem planVisit_function (c : Context) (s : Scope) (around : List (ClassHead × Scope))
    (head : FunctionHead) : planVisit c ⟨s, around, .function head⟩ =
      ofFunction c s (around.map fun a => a.1.key c.path a.2) head :=
  rfl

theorem plan_eq_gather (c : Context) (o : Outline) (s : Scope)
    (around : List (ClassHead × Scope)) :
    plan c o s (around.map fun a => a.1.key c.path a.2) =
      (gather (planVisit c) (o.visits s around)).map fun is => (is, o.scopeAfter s) := by
  induction o generalizing s around with
  | empty => rfl
  | namespaceLine name rest ih => exact ih (s.enter name) around
  | namespaceBlock name body rest ihbody ihrest =>
      rw [plan, ihbody, Outline.visits, gather_append]
      cases gather (planVisit c) (body.visits (s.enter name) around) with
      | error e => rfl
      | ok inner =>
          simp only [Except.map, bind, Except.bind, ihrest]
          cases gather (planVisit c)
            (rest.visits ((body.scopeAfter (s.enter name)).enter none) around) <;> rfl
  | imports clauses rest ih => exact ih (s.importAll clauses) around
  | classLike head members rest ihmembers ihrest =>
      rw [plan, Outline.visits, gather_append]
      rw [show head.key c.path s :: around.map (fun a => a.1.key c.path a.2) =
        ((head, s) :: around).map (fun a => a.1.key c.path a.2) from rfl, ihmembers]
      cases gather (planVisit c) (members.visits s ((head, s) :: around)) with
      | error e => rfl
      | ok inner =>
          simp only [Except.map, bind, Except.bind, ihrest]
          cases gather (planVisit c) (rest.visits (members.scopeAfter s) around) <;> rfl
  | functionLike head body rest ihbody ihrest =>
      rw [plan, Outline.visits, gather, gather_append, planVisit_function, ihbody]
      cases ofFunction c s (around.map fun a => a.1.key c.path a.2) head with
      | error e => rfl
      | ok own =>
          cases gather (planVisit c) (body.visits s around) with
          | error e => rfl
          | ok inner =>
              simp only [Except.map, bind, Except.bind, ihrest]
              cases gather (planVisit c) (rest.visits (body.scopeAfter s) around) with
              | error e => rfl
              | ok outer =>
                  simp only [pure, Except.pure, List.append_assoc]
                  rfl
  | property decl rest ih =>
      rw [plan, Outline.visits, gather, planVisit, ih]
      cases gather (planVisit c) (rest.visits s around) <;> rfl
  | traitUse names rest ih => exact ih s around

/-- The insertions of a file are the declaration of `strict_types` and what is gathered
over its declarations. -/
theorem planFile_eq_gather (c : Context) (f : FileOutline) :
    planFile c f = (gather (planVisit c) (f.decls.visits .start [])).map
      (ofFile c.options f ++ ·) := by
  have hplan := plan_eq_gather c f.decls .start []
  rw [List.map_nil] at hplan
  rw [planFile, hplan]
  cases gather (planVisit c) (f.decls.visits .start []) <;> rfl

theorem planFile_eq_ok_iff {c : Context} {f : FileOutline} {is : List Insertion} :
    planFile c f = .ok is ↔
      ∃ hints, gather (planVisit c) (f.decls.visits .start []) = .ok hints ∧
        is = ofFile c.options f ++ hints := by
  rw [planFile_eq_gather]
  cases gather (planVisit c) (f.decls.visits .start []) with
  | error e =>
      constructor
      · intro h; cases h
      · rintro ⟨hints, h, -⟩; cases h
  | ok hints =>
      constructor
      · intro h; cases h; exact ⟨hints, rfl, rfl⟩
      · rintro ⟨hints', h, rfl⟩; cases h; rfl

end Insertion

namespace Removal

/-- The removals at one visit. -/
def planVisit (path : Text) (v : Visit) : Except Error (List Edit) :=
  match v.item with
  | .function head => ofFunction path head
  | .property _ => .ok []

theorem planVisit_function (path : Text) (s : Scope) (around : List (ClassHead × Scope))
    (head : FunctionHead) : planVisit path ⟨s, around, .function head⟩ = ofFunction path head :=
  rfl

theorem plan_eq_gather (path : Text) (o : Outline) (s : Scope)
    (around : List (ClassHead × Scope)) :
    plan path o = gather (planVisit path) (o.visits s around) := by
  induction o generalizing s around with
  | empty => rfl
  | namespaceLine name rest ih => exact ih (s.enter name) around
  | namespaceBlock name body rest ihbody ihrest =>
      rw [plan, Outline.visits, gather_append, ← ihbody, ← ihrest]
  | imports clauses rest ih => exact ih (s.importAll clauses) around
  | classLike head members rest ihmembers ihrest =>
      rw [plan, Outline.visits, gather_append, ← ihmembers, ← ihrest]
  | functionLike head body rest ihbody ihrest =>
      rw [plan, Outline.visits, gather, gather_append, ← ihbody, ← ihrest,
        planVisit_function]
      cases ofFunction path head with
      | error e => rfl
      | ok own =>
          cases plan path body with
          | error e => rfl
          | ok inner =>
              cases plan path rest with
              | error e => rfl
              | ok outer => exact congrArg Except.ok (List.append_assoc ..)
  | property decl rest ih =>
      rw [plan, Outline.visits, gather, planVisit, ← ih]
      cases plan path rest <;> rfl
  | traitUse names rest ih => exact ih s around

end Removal

end NativeHints
