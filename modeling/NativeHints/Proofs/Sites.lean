import NativeHints.Proofs.Spots

/-!
# The class-likes of a file

Collecting threads a frame through the outline of a file, saves it at every class-like and
puts it back behind.  Seen from outside, a file is a list of class-likes, each with the names
in effect at it and its members (`Outline.classSites`).  What is collected comes from them
one by one: each gives one entry, made from the members that are its own, and parent lists
for itself and for the traits it uses (`Outline.classes_facts`, `Outline.edges_facts`).

A class-like comes in the list where it ends, so behind those inside it.
-/

namespace NativeHints

open Collect (Frame State collect openFrame addFrame addTraitUses)

/-- A class-like and where it stands. -/
structure ClassSite where
  /-- Its head. -/
  head : ClassHead
  /-- The names in effect at it. -/
  scope : Scope
  /-- Its members. -/
  members : Outline

namespace Outline

/-- The class-likes of an outline, in the order in which they end. -/
def classSites : Outline → Scope → List ClassSite
  | .empty, _ => []
  | .namespaceLine name rest, s => rest.classSites (s.enter name)
  | .namespaceBlock name body rest, s =>
      body.classSites (s.enter name) ++
        rest.classSites ((body.scopeAfter (s.enter name)).enter none)
  | .imports clauses rest, s => rest.classSites (s.importAll clauses)
  | .classLike head members rest, s =>
      members.classSites s ++ ⟨head, s, members⟩ :: rest.classSites (members.scopeAfter s)
  | .functionLike _ body rest, s => body.classSites s ++ rest.classSites (body.scopeAfter s)
  | .property _ rest, s => rest.classSites s
  | .traitUse _ rest, s => rest.classSites s

/-- The traits that members use, those of class-likes further in left out, each by what its
name means. -/
def usedTraits : Outline → Scope → List Text
  | .empty, _ => []
  | .namespaceLine name rest, s => rest.usedTraits (s.enter name)
  | .namespaceBlock name body rest, s =>
      body.usedTraits (s.enter name) ++
        rest.usedTraits ((body.scopeAfter (s.enter name)).enter none)
  | .imports clauses rest, s => rest.usedTraits (s.importAll clauses)
  | .classLike _ members rest, s => rest.usedTraits (members.scopeAfter s)
  | .functionLike _ body rest, s => body.usedTraits s ++ rest.usedTraits (body.scopeAfter s)
  | .property _ rest, s => rest.usedTraits s
  | .traitUse names rest, s => names.map s.resolve ++ rest.usedTraits s

/-- The frame of a class-like with what its members document, those of class-likes further in
left out. -/
def documents : Outline → Scope → Frame → Frame
  | .empty, _, f => f
  | .namespaceLine name rest, s, f => rest.documents (s.enter name) f
  | .namespaceBlock name body rest, s, f =>
      rest.documents ((body.scopeAfter (s.enter name)).enter none)
        (body.documents (s.enter name) f)
  | .imports clauses rest, s, f => rest.documents (s.importAll clauses) f
  | .classLike _ members rest, s, f => rest.documents (members.scopeAfter s) f
  | .functionLike head body rest, s, f =>
      rest.documents (body.scopeAfter s) (body.documents s (f.withMethod s head))
  | .property decl rest, s, f => rest.documents s (f.withProperty s decl)
  | .traitUse _ rest, s, f => rest.documents s f

end Outline

namespace ClassSite

/-- The key of a class-like in a file. -/
def key (path : Text) (c : ClassSite) : Text := c.head.key path c.scope

/-- The parents that a class-like declares. -/
def parents (c : ClassSite) : List Text := c.head.parents c.scope

/-- The traits that a class-like uses, each by what its name means. -/
def usedTraits (c : ClassSite) : List Text := c.members.usedTraits c.scope

/-- The entry of a class-like in a file. -/
def entry (path : Text) (c : ClassSite) : ClassEntry :=
  (c.members.documents c.scope (openFrame path c.scope c.head)).entry

/-- The parent lists that come from a class-like: its own, and the same for each trait it
uses. -/
def edges (path : Text) (c : ClassSite) : List (Text × List Text) :=
  (c.key path, c.parents) :: c.usedTraits.map fun t => (t, c.parents)

end ClassSite

/-! ## What is collected -/

/-- Documenting members never changes the key of a frame and its parents. -/
theorem Outline.edge_documents (o : Outline) (s : Scope) (f : Frame) :
    (o.documents s f).edge = f.edge := by
  induction o generalizing s f with
  | empty => rfl
  | namespaceLine name rest ih => exact ih _ _
  | namespaceBlock name body rest ihbody ihrest => exact (ihrest _ _).trans (ihbody _ _)
  | imports clauses rest ih => exact ih _ _
  | classLike head members rest _ ih => exact ih _ _
  | functionLike head body rest ihbody ihrest =>
      exact (ihrest _ _).trans ((ihbody _ _).trans (Collect.edge_withMethod f s head))
  | property decl rest ih => exact (ih _ _).trans (Collect.edge_withProperty f s decl)
  | traitUse names rest ih => exact ih _ _

theorem ClassSite.key_entry (path : Text) (c : ClassSite) : (c.entry path).key = c.key path :=
  congrArg Prod.fst (c.members.edge_documents c.scope (openFrame path c.scope c.head))

namespace Collect

variable (path : Text)

/-- The members of a class-like document it, and inner class-likes leave it alone. -/
theorem frame_collect (o : Outline) (st : State) :
    (collect path o st).frame = st.frame.map (o.documents st.scope) := by
  induction o generalizing st with
  | empty => simp [collect, Outline.documents]
  | namespaceLine name rest ih => exact ih _
  | namespaceBlock name body rest ihbody ihrest =>
      simp only [collect, ihrest, ihbody, scope_collect, Option.map_map]
      rfl
  | imports clauses rest ih => exact ih _
  | classLike head members rest _ ihrest =>
      simp only [collect, ihrest, scope_collect]
      rfl
  | functionLike head body rest ihbody ihrest =>
      simp only [collect, ihrest, ihbody, scope_collect, Option.map_map]
      rfl
  | property decl rest ih =>
      simp only [collect, ih, Option.map_map]
      rfl
  | traitUse names rest ih => exact ih _

/-- The frame of a class-like when its members have been collected. -/
theorem frame_collect_members (c : ClassSite) (facts : Facts) :
    (collect path c.members ⟨c.scope, some (openFrame path c.scope c.head), facts⟩).frame =
      some ⟨c.entry path, c.parents⟩ := by
  have hparents :
      (c.members.documents c.scope (openFrame path c.scope c.head)).parents = c.parents :=
    congrArg Prod.snd (c.members.edge_documents c.scope (openFrame path c.scope c.head))
  rw [frame_collect, ← hparents]
  rfl

theorem classes_addTraitUses (facts : Facts) (s : Scope) (frame : Option Frame)
    (names : List Text) : (addTraitUses facts s frame names).classes = facts.classes := by
  cases frame <;> rfl

/-- Every class-like gives one entry, when it ends. -/
theorem classes_collect (o : Outline) (st : State) :
    (collect path o st).facts.classes =
      st.facts.classes ++ (o.classSites st.scope).map (ClassSite.entry path) := by
  induction o generalizing st with
  | empty => simp [collect, Outline.classSites]
  | namespaceLine name rest ih => exact ih _
  | namespaceBlock name body rest ihbody ihrest =>
      simp [collect, ihrest, ihbody, scope_collect, Outline.classSites]
  | imports clauses rest ih => exact ih _
  | classLike head members rest ihmembers ihrest =>
      have hframe := frame_collect_members path ⟨head, st.scope, members⟩ st.facts
      simp only [collect, ihrest, scope_collect, Outline.classSites, hframe, Option.elim_some,
        addFrame, ihmembers]
      simp
  | functionLike head body rest ihbody ihrest =>
      simp [collect, ihrest, ihbody, scope_collect, Outline.classSites]
  | property decl rest ih => exact ih _
  | traitUse names rest ih =>
      simp only [collect, ih, classes_addTraitUses, Outline.classSites]

/-- The parent lists of traits used in the class that is being read. -/
def handOn (frame : Option Frame) (traits : List Text) : List (Text × List Text) :=
  frame.toList.flatMap fun f => traits.map fun t => (t, f.parents)

theorem handOn_nil (frame : Option Frame) : handOn frame [] = [] := by
  cases frame <;> rfl

theorem handOn_append (frame : Option Frame) (traits more : List Text) :
    handOn frame (traits ++ more) = handOn frame traits ++ handOn frame more := by
  cases frame <;> simp [handOn]

theorem handOn_map {frame : Option Frame} {change : Frame → Frame}
    (h : ∀ f, (change f).edge = f.edge) (traits : List Text) :
    handOn (frame.map change) traits = handOn frame traits := by
  cases frame with
  | none => rfl
  | some f => simp [handOn, show (change f).parents = f.parents from congrArg Prod.snd (h f)]

theorem handOn_collect (o : Outline) (st : State) (traits : List Text) :
    handOn (collect path o st).frame traits = handOn st.frame traits := by
  rw [frame_collect, handOn_map (o.edge_documents st.scope)]

theorem edges_addTraitUses (facts : Facts) (s : Scope) (frame : Option Frame)
    (names : List Text) : (addTraitUses facts s frame names).edges =
      facts.edges ++ handOn frame (names.map s.resolve) := by
  cases frame with
  | none => simp [addTraitUses, handOn]
  | some f => simp [addTraitUses, handOn, Function.comp_def]

/-- What two parts of an outline give, sorted by where it comes from. -/
theorem perm_regroup {α : Type} (before own inner own' inner' : List α) :
    (before ++ (own ++ inner) ++ (own' ++ inner')).Perm
      (before ++ (own ++ own' ++ (inner ++ inner'))) := by
  simp only [List.append_assoc]
  exact ((List.perm_append_comm_assoc inner own' inner').append_left own).append_left before

/-- A class-like whose members gave parent lists to the traits it uses gives its own when it
ends. -/
theorem edges_addFrame_perm (c : ClassSite) {facts : Facts}
    {before inner : List (Text × List Text)}
    (h : facts.edges.Perm
      (before ++ (handOn (some (openFrame path c.scope c.head)) c.usedTraits ++ inner))) :
    (addFrame facts ⟨c.entry path, c.parents⟩).edges.Perm
      (before ++ (inner ++ c.edges path)) := by
  have hown : handOn (some (openFrame path c.scope c.head)) c.usedTraits =
      c.usedTraits.map fun t => (t, c.parents) := List.flatMap_singleton ..
  have hlast : c.edges path = [(c.key path, c.parents)] ++
      c.usedTraits.map fun t => (t, c.parents) := rfl
  rw [hown] at h
  rw [addFrame, ClassSite.key_entry, hlast]
  refine (h.append_right _).trans ?_
  rw [List.append_assoc, List.append_assoc, ← List.append_assoc inner]
  exact List.perm_append_comm.append_left before

/-- Every class-like gives a parent list for itself and one for each trait it uses.  The class
around an outline gives those of the traits used in it. -/
theorem edges_collect_perm (o : Outline) (st : State) :
    (collect path o st).facts.edges.Perm
      (st.facts.edges ++ (handOn st.frame (o.usedTraits st.scope) ++
        (o.classSites st.scope).flatMap (ClassSite.edges path))) := by
  induction o generalizing st with
  | empty => simp [collect, Outline.classSites, Outline.usedTraits, handOn_nil]
  | namespaceLine name rest ih => exact ih _
  | namespaceBlock name body rest ihbody ihrest =>
      simp only [collect, Outline.classSites, Outline.usedTraits, handOn_append,
        List.flatMap_append]
      refine (ihrest _).trans ?_
      rw [handOn_collect, scope_collect]
      exact ((ihbody _).append_right _).trans (perm_regroup ..)
  | imports clauses rest ih => exact ih _
  | classLike head members rest ihmembers ihrest =>
      have hframe := frame_collect_members path ⟨head, st.scope, members⟩ st.facts
      simp only [collect, Outline.classSites, Outline.usedTraits, List.flatMap_append,
        List.flatMap_cons, hframe, Option.elim_some]
      refine (ihrest _).trans ?_
      rw [scope_collect]
      refine ((edges_addFrame_perm path ⟨head, st.scope, members⟩ (ihmembers _)).append_right
        _).trans ?_
      simpa only [List.nil_append, List.append_assoc] using perm_regroup st.facts.edges []
        ((members.classSites st.scope).flatMap (ClassSite.edges path) ++
          ClassSite.edges path ⟨head, st.scope, members⟩)
        (handOn st.frame (rest.usedTraits (members.scopeAfter st.scope))) _
  | functionLike head body rest ihbody ihrest =>
      simp only [collect, Outline.classSites, Outline.usedTraits, handOn_append,
        List.flatMap_append]
      refine (ihrest _).trans ?_
      rw [handOn_collect, scope_collect]
      refine ((ihbody _).append_right _).trans ?_
      rw [handOn_map fun f => edge_withMethod f st.scope head,
        handOn_map fun f => edge_withMethod f st.scope head]
      exact perm_regroup ..
  | property decl rest ih =>
      simp only [collect, Outline.classSites, Outline.usedTraits]
      refine (ih _).trans ?_
      rw [handOn_map fun f => edge_withProperty f st.scope decl]
  | traitUse names rest ih =>
      simp only [collect, Outline.classSites, Outline.usedTraits, handOn_append]
      refine (ih _).trans ?_
      rw [edges_addTraitUses]
      simp only [List.append_assoc]
      exact .refl _

end Collect

namespace Outline

variable (o : Outline) (path : Text)

/-- The entries of a file are those of its class-likes. -/
theorem classes_facts :
    (o.facts path).classes = (o.classSites .start).map (ClassSite.entry path) :=
  Collect.classes_collect path o ⟨.start, none, ⟨[], []⟩⟩

/-- The parent lists of a file are those of its class-likes, in some order. -/
theorem edges_facts :
    (o.facts path).edges.Perm ((o.classSites .start).flatMap (ClassSite.edges path)) :=
  Collect.edges_collect_perm path o ⟨.start, none, ⟨[], []⟩⟩

variable {o} in
/-- The class-likes around a declaration are class-likes of the outline. -/
theorem around_visits {s : Scope} {around : List (ClassHead × Scope)} {v : Visit}
    (hv : v ∈ o.visits s around) {a : ClassHead × Scope} (ha : a ∈ v.around) :
    a ∈ around ∨ ∃ c ∈ o.classSites s, a = (c.head, c.scope) := by
  induction o generalizing s around with
  | empty => cases hv
  | namespaceLine name rest ih => exact ih hv
  | namespaceBlock name body rest ihbody ihrest =>
      rcases List.mem_append.mp hv with hv | hv
      · rcases ihbody hv with h | ⟨c, hc, h⟩
        · exact .inl h
        · exact .inr ⟨c, List.mem_append_left _ hc, h⟩
      · rcases ihrest hv with h | ⟨c, hc, h⟩
        · exact .inl h
        · exact .inr ⟨c, List.mem_append_right _ hc, h⟩
  | imports clauses rest ih => exact ih hv
  | classLike head members rest ihmembers ihrest =>
      rcases List.mem_append.mp hv with hv | hv
      · rcases ihmembers hv with h | ⟨c, hc, h⟩
        · rcases List.mem_cons.mp h with h | h
          · exact .inr ⟨⟨head, s, members⟩, List.mem_append_right _ (List.mem_cons_self ..), h⟩
          · exact .inl h
        · exact .inr ⟨c, List.mem_append_left _ hc, h⟩
      · rcases ihrest hv with h | ⟨c, hc, h⟩
        · exact .inl h
        · exact .inr ⟨c, List.mem_append_right _ (List.mem_cons_of_mem _ hc), h⟩
  | functionLike head body rest ihbody ihrest =>
      rcases List.mem_cons.mp hv with rfl | hv
      · exact .inl ha
      · rcases List.mem_append.mp hv with hv | hv
        · rcases ihbody hv with h | ⟨c, hc, h⟩
          · exact .inl h
          · exact .inr ⟨c, List.mem_append_left _ hc, h⟩
        · rcases ihrest hv with h | ⟨c, hc, h⟩
          · exact .inl h
          · exact .inr ⟨c, List.mem_append_right _ hc, h⟩
  | property decl rest ih =>
      rcases List.mem_cons.mp hv with rfl | hv
      · exact .inl ha
      · exact ih hv
  | traitUse names rest ih => exact ih hv

end Outline

end NativeHints
