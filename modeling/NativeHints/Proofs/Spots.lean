import NativeHints.Proofs.Walk

/-!
# The two passes keep in step

Collecting the facts of a file and planning its insertions are two walks through
the same outline, and each keeps track of namespaces, imports and classes on its
own.  If they ever disagreed, a class would be looked up under a key that nobody
recorded, and its hints would silently be missing.

A *spot* is an outline with a hole.  `Collect.stateAt` and `Insertion.stateAt` give
the states in which the two walks come to the hole.  That they are these states is
part of the statements (`collect_fill`, `plan_fill`): whatever is put into the hole,
a walk handles it from that state on, and then goes on with the result.

Both walks come to every spot with the same names in effect, and the class keys of
planning are those of the open frames of collecting.  The frames end up in the facts
of the file under these keys, and so in the hierarchy.
-/

namespace NativeHints

/-! ## Spots -/

namespace Outline

/-- An outline with a hole. -/
inductive Spot where
  /-- Nothing but the hole. -/
  | here
  /-- Behind other declarations. -/
  | after (first : Outline) (spot : Spot)
  /-- In a namespace in braces. -/
  | inNamespace (name : Option Text) (spot : Spot) (rest : Outline)
  /-- Among the members of a class-like. -/
  | inClass (head : ClassHead) (spot : Spot) (rest : Outline)
  /-- In the body of a function-like. -/
  | inFunction (head : FunctionHead) (spot : Spot) (rest : Outline)

/-- The outline with something in the hole. -/
def Spot.fill : Spot → Outline → Outline
  | here, o => o
  | after first spot, o => first ++ spot.fill o
  | inNamespace name spot rest, o => .namespaceBlock name (spot.fill o) rest
  | inClass head spot rest, o => .classLike head (spot.fill o) rest
  | inFunction head spot rest, o => .functionLike head (spot.fill o) rest

end Outline

open Outline (Spot)

/-! ## Collecting -/

namespace Collect

variable {path : Text}

/-- The state at the start of a file. -/
def State.initial : State := ⟨.start, none, ⟨[], []⟩⟩

theorem collect_append (path : Text) (a b : Outline) (st : State) :
    collect path (a ++ b) st = collect path b (collect path a st) := by
  induction a generalizing st with
  | empty => rfl
  | namespaceLine name rest ih => exact ih _
  | namespaceBlock name body rest _ ih => exact ih _
  | imports clauses rest ih => exact ih _
  | classLike head members rest _ ih => exact ih _
  | functionLike head body rest _ ih => exact ih _
  | property decl rest ih => exact ih _
  | traitUse names rest ih => exact ih _

/-- The state in which collecting comes to the hole. -/
def stateAt (path : Text) : Spot → State → State
  | .here, st => st
  | .after first spot, st => stateAt path spot (collect path first st)
  | .inNamespace name spot _, st => stateAt path spot { st with scope := st.scope.enter name }
  | .inClass head spot _, st =>
      stateAt path spot { st with frame := some (openFrame path st.scope head) }
  | .inFunction head spot _, st =>
      stateAt path spot { st with frame := st.frame.map (·.withMethod st.scope head) }

/-- The frames of the class-likes around the hole, innermost first, given those that are
further out.  An outer one is as it was when the one inside was opened. -/
def framesAt (path : Text) : Spot → State → List Frame → List Frame
  | .here, st, outer => st.frame.toList ++ outer
  | .after first spot, st, outer => framesAt path spot (collect path first st) outer
  | .inNamespace name spot _, st, outer =>
      framesAt path spot { st with scope := st.scope.enter name } outer
  | .inClass head spot _, st, outer =>
      framesAt path spot { st with frame := some (openFrame path st.scope head) }
        (st.frame.toList ++ outer)
  | .inFunction head spot _, st, outer =>
      framesAt path spot { st with frame := st.frame.map (·.withMethod st.scope head) } outer

/-- Collecting handles what is in the hole from the state it comes there in, and goes on. -/
theorem collect_fill (path : Text) (spot : Spot) (st : State) :
    ∃ finish : State → State, ∀ part,
      collect path (spot.fill part) st = finish (collect path part (stateAt path spot st)) := by
  induction spot generalizing st with
  | here => exact ⟨id, fun part => rfl⟩
  | after first spot ih =>
      obtain ⟨finish, h⟩ := ih (collect path first st)
      refine ⟨finish, fun part => ?_⟩
      rw [Spot.fill, collect_append]
      exact h part
  | inNamespace name spot rest ih =>
      obtain ⟨finish, h⟩ := ih { st with scope := st.scope.enter name }
      refine ⟨fun r => collect path rest { finish r with scope := (finish r).scope.enter none },
        fun part => ?_⟩
      rw [Spot.fill, collect, h part]
      rfl
  | inClass head spot rest ih =>
      obtain ⟨finish, h⟩ := ih { st with frame := some (openFrame path st.scope head) }
      refine ⟨fun r => collect path rest ⟨(finish r).scope, st.frame,
        (finish r).frame.elim (finish r).facts (addFrame (finish r).facts)⟩, fun part => ?_⟩
      rw [Spot.fill, collect, h part]
      rfl
  | inFunction head spot rest ih =>
      obtain ⟨finish, h⟩ := ih { st with frame := st.frame.map (·.withMethod st.scope head) }
      refine ⟨fun r => collect path rest (finish r), fun part => ?_⟩
      rw [Spot.fill, collect, h part]
      rfl

theorem scope_collect (path : Text) (o : Outline) (st : State) :
    (collect path o st).scope = o.scopeAfter st.scope := by
  induction o generalizing st with
  | empty => rfl
  | namespaceLine name rest ih => exact ih _
  | namespaceBlock name body rest ihbody ihrest =>
      simp only [collect, ihrest, ihbody, Outline.scopeAfter]
  | imports clauses rest ih => exact ih _
  | classLike head members rest ihmembers ihrest =>
      simp only [collect, ihrest, ihmembers, Outline.scopeAfter]
  | functionLike head body rest ihbody ihrest =>
      simp only [collect, ihrest, ihbody, Outline.scopeAfter]
  | property decl rest ih => exact ih _
  | traitUse names rest ih => exact ih _

/-! ### Frames -/

/-- The key of a frame with the parents, which never change. -/
def Frame.edge (f : Frame) : Text × List Text := (f.entry.key, f.parents)

/-- The keys of frames with the parents. -/
def edges (frames : List Frame) : List (Text × List Text) := frames.map Frame.edge

theorem edges_append (fs gs : List Frame) : edges (fs ++ gs) = edges fs ++ edges gs :=
  List.map_append

theorem edge_withMethod (f : Frame) (s : Scope) (m : FunctionHead) :
    (f.withMethod s m).edge = f.edge := by
  unfold Frame.withMethod
  split
  · split <;> rfl
  · rfl

theorem edge_withProperty (f : Frame) (s : Scope) (p : Property) :
    (f.withProperty s p).edge = f.edge := by
  unfold Frame.withProperty
  split
  · split <;> rfl
  · rfl

theorem edges_map_frame {frame : Option Frame} {change : Frame → Frame}
    (h : ∀ f, (change f).edge = f.edge) :
    edges (frame.map change).toList = edges frame.toList := by
  cases frame with
  | none => rfl
  | some f => simp [edges, h]

/-- Whatever is collected, the innermost class keeps its key and its parents. -/
theorem edges_collect (path : Text) (o : Outline) (st : State) :
    edges (collect path o st).frame.toList = edges st.frame.toList := by
  induction o generalizing st with
  | empty => rfl
  | namespaceLine name rest ih => exact ih _
  | namespaceBlock name body rest ihbody ihrest => simp only [collect, ihrest, ihbody]
  | imports clauses rest ih => exact ih _
  | classLike head members rest _ ihrest => simp only [collect, ihrest]
  | functionLike head body rest ihbody ihrest =>
      simp only [collect, ihrest, ihbody]
      exact edges_map_frame fun f => edge_withMethod f st.scope head
  | property decl rest ih =>
      simp only [collect, ih]
      exact edges_map_frame fun f => edge_withProperty f st.scope decl
  | traitUse names rest ih => exact ih _

end Collect

/-! ### Facts -/

/-- Facts have an entry under a key, and a list of parents for it. -/
def Facts.Records (facts : Facts) (edge : Text × List Text) : Prop :=
  edge.1 ∈ facts.classes.map ClassEntry.key ∧ edge ∈ facts.edges

namespace Collect

variable {path : Text} {edge : Text × List Text}

theorem records_addFrame {facts : Facts} (f : Frame) (h : facts.Records edge) :
    (addFrame facts f).Records edge := by
  simp only [Facts.Records, addFrame, List.map_append, List.mem_append]
  exact ⟨.inl h.1, .inl h.2⟩

/-- A class is recorded when it is closed. -/
theorem records_addFrame_self (facts : Facts) (f : Frame) : (addFrame facts f).Records f.edge := by
  simp [Facts.Records, addFrame, Frame.edge]

/-- What is recorded when the members of a class have been collected. -/
theorem records_close {facts : Facts} {frame : Option Frame}
    (h : facts.Records edge ∨ edge ∈ edges frame.toList) :
    (frame.elim facts (addFrame facts)).Records edge := by
  cases frame with
  | none =>
      rcases h with h | h
      · exact h
      · simp [edges] at h
  | some f =>
      rcases h with h | h
      · exact records_addFrame f h
      · obtain rfl : edge = f.edge := by simpa [edges] using h
        exact records_addFrame_self facts f

/-- What is recorded stays recorded. -/
theorem records_collect (path : Text) {o : Outline} {st : State} (h : st.facts.Records edge) :
    (collect path o st).facts.Records edge := by
  induction o generalizing st with
  | empty => exact h
  | namespaceLine name rest ih => exact ih h
  | namespaceBlock name body rest ihbody ihrest => exact ihrest (ihbody h)
  | imports clauses rest ih => exact ih h
  | classLike head members rest ihmembers ihrest =>
      exact ihrest (records_close (.inl (ihmembers h)))
  | functionLike head body rest ihbody ihrest => exact ihrest (ihbody h)
  | property decl rest ih => exact ih h
  | traitUse names rest ih =>
      refine ih ?_
      unfold addTraitUses
      split
      · exact h
      · exact ⟨h.1, List.mem_append_left _ h.2⟩

/-- The class-likes around a hole are recorded in the end, with those that were open from
the start left aside. -/
theorem records_framesAt (spot : Spot) (part : Outline) {st : State} {outer : List Frame}
    (h : edge ∈ edges (framesAt path spot st outer)) :
    edge ∈ edges (st.frame.toList ++ outer) ∨
      (collect path (spot.fill part) st).facts.Records edge := by
  induction spot generalizing st outer with
  | here => exact .inl h
  | after first spot ih =>
      rw [Spot.fill, collect_append]
      rcases ih h with hopen | hdone
      · rw [edges_append, edges_collect, ← edges_append] at hopen
        exact .inl hopen
      · exact .inr hdone
  | inNamespace name spot rest ih =>
      rw [Spot.fill, collect]
      rcases ih h with hopen | hdone
      · exact .inl hopen
      · exact .inr (records_collect path hdone)
  | inClass head spot rest ih =>
      -- the class is opened here, so it is closed behind its members
      rw [Spot.fill, collect]
      have hedge := edges_collect path (spot.fill part)
        { st with frame := some (openFrame path st.scope head) }
      rcases ih h with hopen | hdone
      · rcases List.mem_cons.mp hopen with hself | houter
        · refine .inr (records_collect path (records_close (.inr ?_)))
          rw [hedge, hself]
          exact List.mem_singleton.mpr rfl
        · exact .inl houter
      · exact .inr (records_collect path (records_close (.inl hdone)))
  | inFunction head spot rest ih =>
      rw [Spot.fill, collect]
      rcases ih h with hopen | hdone
      · rw [edges_append, edges_map_frame fun f => edge_withMethod f st.scope head,
          ← edges_append] at hopen
        exact .inl hopen
      · exact .inr (records_collect path hdone)

end Collect

/-! ## Planning -/

section Except

variable {α β ε : Type}

theorem ok_bind (a : α) (f : α → Except ε β) : Except.ok a >>= f = f a := rfl

theorem error_bind (e : ε) (f : α → Except ε β) : Except.error e >>= f = .error e := rfl

theorem bind_eq_ok_iff {x : Except ε α} {f : α → Except ε β} {b : β} :
    x >>= f = .ok b ↔ ∃ a, x = .ok a ∧ f a = .ok b := by
  cases x with
  | error e => simp [error_bind]
  | ok a => simp [ok_bind]

end Except

namespace Insertion

variable {c : Context}

theorem plan_append (c : Context) (a b : Outline) (s : Scope) (classes : List Text) :
    plan c (a ++ b) s classes = do
      let (front, s) ← plan c a s classes
      let (back, s) ← plan c b s classes
      return (front ++ back, s) := by
  induction a generalizing s classes with
  | empty =>
      rw [show Outline.empty ++ b = b from rfl, plan, ok_bind]
      simp
  | namespaceLine name rest ih => exact ih _ _
  | namespaceBlock name body rest _ ih =>
      show plan c (.namespaceBlock name body (rest ++ b)) s classes = _
      simp [plan, ih]
  | imports clauses rest ih => exact ih _ _
  | classLike head members rest _ ih =>
      show plan c (.classLike head members (rest ++ b)) s classes = _
      simp [plan, ih]
  | functionLike head body rest _ ih =>
      show plan c (.functionLike head body (rest ++ b)) s classes = _
      simp [plan, ih]
  | property decl rest ih =>
      show plan c (.property decl (rest ++ b)) s classes = _
      simp [plan, ih]
  | traitUse names rest ih => exact ih _ _

/-- The names in effect and the classes around, as planning comes to the hole.  It does not
come there if it fails on the way. -/
def stateAt (c : Context) : Spot → Scope → List Text → Except Error (Scope × List Text)
  | .here, s, classes => .ok (s, classes)
  | .after first spot, s, classes => do
      let (_, s) ← plan c first s classes
      stateAt c spot s classes
  | .inNamespace name spot _, s, classes => stateAt c spot (s.enter name) classes
  | .inClass head spot _, s, classes => stateAt c spot s (head.key c.path s :: classes)
  | .inFunction head spot _, s, classes => do
      let _ ← ofFunction c s classes head
      stateAt c spot s classes

/-- Planning handles what is in the hole from the state it comes there in, and goes on. -/
theorem plan_fill (c : Context) (spot : Spot) (s : Scope) (classes : List Text) :
    ∃ finish : List Insertion × Scope → Except Error (List Insertion × Scope), ∀ part,
      plan c (spot.fill part) s classes = (do
        let (s, classes) ← stateAt c spot s classes
        let done ← plan c part s classes
        finish done) := by
  induction spot generalizing s classes with
  | here =>
      refine ⟨.ok, fun part => ?_⟩
      show plan c part s classes = plan c part s classes >>= pure
      simp
  | after first spot ih =>
      cases hfirst : plan c first s classes with
      | error e =>
          refine ⟨.ok, fun part => ?_⟩
          rw [Spot.fill, plan_append, stateAt, hfirst]
          rfl
      | ok front =>
          obtain ⟨finish, h⟩ := ih front.2 classes
          refine ⟨fun done => do let (back, s) ← finish done; return (front.1 ++ back, s),
            fun part => ?_⟩
          rw [Spot.fill, plan_append, stateAt, hfirst]
          simp [h part, ok_bind]
  | inNamespace name spot rest ih =>
      obtain ⟨finish, h⟩ := ih (s.enter name) classes
      refine ⟨fun done => do
        let (inner, s) ← finish done
        let (outer, s) ← plan c rest (s.enter none) classes
        return (inner ++ outer, s), fun part => ?_⟩
      simp [Spot.fill, plan, h part, stateAt]
  | inClass head spot rest ih =>
      obtain ⟨finish, h⟩ := ih s (head.key c.path s :: classes)
      refine ⟨fun done => do
        let (inner, s) ← finish done
        let (outer, s) ← plan c rest s classes
        return (inner ++ outer, s), fun part => ?_⟩
      simp [Spot.fill, plan, h part, stateAt]
  | inFunction head spot rest ih =>
      obtain ⟨finish, h⟩ := ih s classes
      cases hown : ofFunction c s classes head with
      | error e =>
          refine ⟨.ok, fun part => ?_⟩
          simp [Spot.fill, plan, stateAt, hown, error_bind]
      | ok own =>
          refine ⟨fun done => do
            let (inner, s) ← finish done
            let (outer, s) ← plan c rest s classes
            return (own ++ inner ++ outer, s), fun part => ?_⟩
          simp [Spot.fill, plan, h part, stateAt, hown, ok_bind]

theorem scope_plan {o : Outline} {s s' : Scope} {classes : List Text} {is : List Insertion}
    (h : plan c o s classes = .ok (is, s')) : s' = o.scopeAfter s := by
  induction o generalizing s s' classes is with
  | empty => cases h; rfl
  | namespaceLine name rest ih => exact ih h
  | namespaceBlock name body rest ihbody ihrest =>
      obtain ⟨⟨inner, s₁⟩, hbody, h⟩ := bind_eq_ok_iff.mp h
      obtain ⟨⟨outer, s₂⟩, hrest, h⟩ := bind_eq_ok_iff.mp h
      cases h
      rw [ihrest hrest, ihbody hbody]
      rfl
  | imports clauses rest ih => exact ih h
  | classLike head members rest ihmembers ihrest =>
      obtain ⟨⟨inner, s₁⟩, hmembers, h⟩ := bind_eq_ok_iff.mp h
      obtain ⟨⟨outer, s₂⟩, hrest, h⟩ := bind_eq_ok_iff.mp h
      cases h
      rw [ihrest hrest, ihmembers hmembers]
      rfl
  | functionLike head body rest ihbody ihrest =>
      obtain ⟨own, -, h⟩ := bind_eq_ok_iff.mp h
      obtain ⟨⟨inner, s₁⟩, hbody, h⟩ := bind_eq_ok_iff.mp h
      obtain ⟨⟨outer, s₂⟩, hrest, h⟩ := bind_eq_ok_iff.mp h
      cases h
      rw [ihrest hrest, ihbody hbody]
      rfl
  | property decl rest ih =>
      obtain ⟨⟨outer, s₁⟩, hrest, h⟩ := bind_eq_ok_iff.mp h
      cases h
      exact ih hrest
  | traitUse names rest ih => exact ih h

open Collect (edges framesAt edges_append edges_collect edges_map_frame edge_withMethod) in
/-- The two walks go into a part of an outline, or past one, with the same names in effect
and the same keys.  Hence they come to every hole like that. -/
theorem stateAt_agrees {spot : Spot} (st : Collect.State) (outer : List Collect.Frame)
    {classes : List Text} (hclasses : classes = (edges (st.frame.toList ++ outer)).map Prod.fst)
    {s' : Scope} {classes' : List Text}
    (h : stateAt c spot st.scope classes = .ok (s', classes')) :
    s' = (Collect.stateAt c.path spot st).scope ∧
      classes' = (edges (framesAt c.path spot st outer)).map Prod.fst := by
  induction spot generalizing st outer classes with
  | here => cases h; exact ⟨rfl, hclasses⟩
  | after first spot ih =>
      obtain ⟨⟨is, s₁⟩, hfirst, h⟩ := bind_eq_ok_iff.mp h
      have hscope : s₁ = (Collect.collect c.path first st).scope := by
        rw [scope_plan hfirst, Collect.scope_collect]
      rw [hscope] at h
      refine ih _ _ ?_ h
      rw [hclasses, edges_append, edges_append, edges_collect]
  | inNamespace name spot rest ih => exact ih _ _ hclasses h
  | inClass head spot rest ih =>
      refine ih _ _ ?_ h
      rw [hclasses]
      rfl
  | inFunction head spot rest ih =>
      obtain ⟨own, -, h⟩ := bind_eq_ok_iff.mp h
      refine ih _ _ ?_ h
      rw [hclasses, edges_append, edges_append,
        edges_map_frame fun f => edge_withMethod f st.scope head]

end Insertion

/-! ## The hierarchy -/

namespace Graph

section Folds

variable {α : Type} {f : Graph → α → Graph} {P : Graph → Prop} (hkeep : ∀ g a, P g → P (f g a))

include hkeep

theorem foldl_keeps (l : List α) {g : Graph} (h : P g) : P (l.foldl f g) := by
  induction l generalizing g with
  | nil => exact h
  | cons a l ih => exact ih (hkeep g a h)

/-- What one step makes true and every step keeps is true in the end. -/
theorem foldl_of_mem {l : List α} {a : α} (ha : a ∈ l) (hmake : ∀ g, P (f g a)) (g : Graph) :
    P (l.foldl f g) := by
  induction l generalizing g with
  | nil => cases ha
  | cons b l ih =>
      rcases List.mem_cons.mp ha with rfl | ha
      · exact foldl_keeps hkeep l (hmake g)
      · exact ih ha (f g b)

end Folds

/-- The hierarchy has an entry and a parent list for a class. -/
structure Has (g : Graph) (name : Text) : Prop where
  entry : (g.class? name).isSome = true
  known : g.isKnown name = true

variable {name : Text}

theorem isSome_class?_addClass {g : Graph} {e : ClassEntry}
    (h : lookupKey name = lookupKey e.key ∨ (g.class? name).isSome = true) :
    ((g.addClass e).class? name).isSome = true := by
  simp only [class?, addClass, Table.find?_put] at h ⊢
  split
  · rfl
  · next hne => exact h.resolve_left hne

theorem isKnown_addParents {g : Graph} {class' : Text} {parents : List Text}
    (h : lookupKey name = lookupKey class' ∨ g.isKnown name = true) :
    (g.addParents class' parents).isKnown name = true := by
  simp only [isKnown, addParents, Table.find?_put] at h ⊢
  split
  · rfl
  · next hne => exact h.resolve_left hne

/-- Parent lists leave the entries alone. -/
theorem class?_addEdges (g : Graph) (edges : List (Text × List Text)) (name : Text) :
    (edges.foldl (fun g (child, parents) => g.addParents child parents) g).class? name =
      g.class? name := by
  induction edges generalizing g with
  | nil => rfl
  | cons edge edges ih => exact ih (g.addParents edge.1 edge.2)

/-- Entries leave the parent lists alone. -/
theorem isKnown_addClasses (g : Graph) (entries : List ClassEntry) (name : Text) :
    (entries.foldl addClass g).isKnown name = g.isKnown name := by
  induction entries generalizing g with
  | nil => rfl
  | cons e entries ih => exact ih (g.addClass e)

theorem Has.addFacts {g : Graph} (h : g.Has name) (facts : Facts) :
    (g.addFacts facts).Has name where
  entry := by
    rw [Graph.addFacts, class?_addEdges]
    exact foldl_keeps (P := fun g => (g.class? name).isSome = true)
      (fun _ _ h => isSome_class?_addClass (.inr h)) _ h.entry
  known := by
    have hknown : (facts.classes.foldl addClass g).isKnown name = true := by
      rw [isKnown_addClasses, h.known]
    exact foldl_keeps (P := fun g => g.isKnown name = true)
      (fun _ _ h => isKnown_addParents (.inr h)) _ hknown

/-- The facts of a file bring the classes they record into the hierarchy. -/
theorem has_addFacts {facts : Facts} {edge : Text × List Text} (h : facts.Records edge)
    (g : Graph) : (g.addFacts facts).Has edge.1 where
  entry := by
    obtain ⟨e, he, hkey⟩ := List.mem_map.mp h.1
    rw [Graph.addFacts, class?_addEdges]
    exact foldl_of_mem (P := fun g => (g.class? edge.1).isSome = true)
      (fun _ _ h => isSome_class?_addClass (.inr h)) he
      (fun _ => isSome_class?_addClass (.inl (by rw [hkey]))) g
  known :=
    foldl_of_mem (P := fun g => g.isKnown edge.1 = true)
      (fun _ _ h => isKnown_addParents (.inr h)) h.2 (fun _ => isKnown_addParents (.inl rfl)) _

/-- The hierarchy of several files has every class that one of them records. -/
theorem has_ofOutlines {files : List (Text × Outline)} {path : Text} {o : Outline}
    (hfile : (path, o) ∈ files) {edge : Text × List Text} (h : (o.facts path).Records edge) :
    (ofOutlines files).Has edge.1 :=
  foldl_of_mem (P := fun g => g.Has edge.1) (fun _ facts hg => hg.addFacts facts)
    (List.mem_map_of_mem hfile) (has_addFacts h) _

end Graph

/-- The two passes agree at every spot of every file.  Each handles what stands there from
its own state on.  If planning comes there, the names in effect are those of collecting,
and the class keys are those of the frames that collecting has open.  The facts of the
file record each of these frames under its key, so the hierarchy of all files knows the
class and has its entry. -/
theorem passes_agree {files : List (Text × Outline)} {path : Text} {o : Outline}
    (hfile : (path, o) ∈ files) (options : Options) {spot : Spot} {part : Outline}
    (hpart : spot.fill part = o) :
    (∃ finish : Collect.State → Collect.State, ∀ part,
      Collect.collect path (spot.fill part) .initial =
        finish (Collect.collect path part (Collect.stateAt path spot .initial))) ∧
    (∃ finish : List Insertion × Scope → Except Error (List Insertion × Scope), ∀ part,
      Insertion.plan ⟨.ofOutlines files, options, path⟩ (spot.fill part) .start [] = (do
        let (s, classes) ← Insertion.stateAt ⟨.ofOutlines files, options, path⟩ spot .start []
        let done ← Insertion.plan ⟨.ofOutlines files, options, path⟩ part s classes
        finish done)) ∧
    ∀ s classes,
      Insertion.stateAt ⟨.ofOutlines files, options, path⟩ spot .start [] = .ok (s, classes) →
      s = (Collect.stateAt path spot .initial).scope ∧
      classes = (Collect.edges (Collect.framesAt path spot .initial [])).map Prod.fst ∧
      ∀ edge ∈ Collect.edges (Collect.framesAt path spot .initial []),
        (o.facts path).Records edge ∧ (Graph.ofOutlines files).Has edge.1 := by
  refine ⟨Collect.collect_fill path spot .initial, Insertion.plan_fill _ spot .start [], ?_⟩
  intro s classes h
  obtain ⟨hscope, hclasses⟩ := Insertion.stateAt_agrees .initial [] rfl h
  refine ⟨hscope, hclasses, fun edge hedge => ?_⟩
  have hrecords : (o.facts path).Records edge := by
    rcases Collect.records_framesAt spot part hedge with hopen | hdone
    · cases hopen
    · rw [hpart] at hdone
      exact hdone
  exact ⟨hrecords, Graph.has_ofOutlines hfile hrecords⟩

/-- A spot in an anonymous class, in a method of a class, behind an import in a namespace. -/
def nestedSpot : Spot :=
  .inNamespace (some "App".toList)
    (.after (.imports [⟨.classes, "Lib\\B".toList, "B".toList⟩] .empty)
      (.inClass ⟨.ordinary, some "A".toList, 10, [], []⟩
        (.inFunction ⟨.method, some "m".toList, 20, none, [], some 30, none⟩
          (.inClass ⟨.anonymous, none, 40, ["B".toList], []⟩ .here .empty) .empty) .empty)) .empty

/-- A file with a property at the spot. -/
def nestedFiles : List (Text × Outline) :=
  [("a.php".toList, nestedSpot.fill (.property ⟨none, none, [⟨"p".toList, 50⟩]⟩ .empty))]

/-- At the spot the namespace, the import and the two classes around are known, and both classes
are in the hierarchy. -/
theorem passes_agree_nested :
    Insertion.stateAt ⟨.ofOutlines nestedFiles, fun _ => true, "a.php".toList⟩ nestedSpot .start [] =
        .ok (⟨some "App".toList, [⟨"B".toList, "Lib\\B".toList⟩]⟩,
          ["class@anonymous/a.php:40".toList, "App\\A".toList]) ∧
      (Graph.ofOutlines nestedFiles).Has "class@anonymous/a.php:40".toList ∧
      (Graph.ofOutlines nestedFiles).Has "App\\A".toList := by
  have hstate : Insertion.stateAt ⟨.ofOutlines nestedFiles, fun _ => true, "a.php".toList⟩
      nestedSpot .start [] = .ok (⟨some "App".toList, [⟨"B".toList, "Lib\\B".toList⟩]⟩,
        ["class@anonymous/a.php:40".toList, "App\\A".toList]) := by rfl
  obtain ⟨-, -, hagree⟩ := passes_agree
    (List.mem_singleton.mpr rfl : _ ∈ nestedFiles) (fun _ => true) rfl
  obtain ⟨-, -, hedges⟩ := hagree _ _ hstate
  exact ⟨hstate, (hedges ("class@anonymous/a.php:40".toList, ["Lib\\B".toList]) (by decide)).2,
    (hedges ("App\\A".toList, []) (by decide)).2⟩

end NativeHints
