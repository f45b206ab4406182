import Mathlib.Data.List.Perm.Subperm
import Mathlib.Logic.Relation
import NativeHints.Proofs.Text
import NativeHints.Hierarchy.Search

/-!
# The search for signatures

`Graph.searchSignature` is bounded by a number of steps and carries the classes
on the way.  Neither shows in its answer.

*Steps.*  The classes on the way are distinct and known, so there are never more
of them than known classes.  Together with the steps that are left they exceed
that number (`Graph.Enough`), and then one step more changes nothing.

*Classes on the way.*  If no class is its own ancestor, the search never comes
back to one of them.  So it gives the same with any others
(`searchSignature_visiting`), and `signature?` satisfies the plain recursion
over parents (`signature?_of_acyclic`).

Names only enter through their lookup keys and methods only up to case.
-/

namespace NativeHints

/-- Functions that agree on a list find the same in it. -/
theorem findSome?_congr {α β : Type} {f h : α → Option β} {l : List α}
    (hfh : ∀ a ∈ l, f a = h a) : l.findSome? f = l.findSome? h := by
  induction l with
  | nil => rfl
  | cons a l ih =>
      rw [List.findSome?_cons, List.findSome?_cons, hfh a (List.mem_cons_self ..),
        ih fun b hb => hfh b (List.mem_cons_of_mem _ hb)]

/-- A table has something under the keys of its entries and under no others. -/
theorem Table.find?_isSome_iff {α : Type} (key : Text) (t : Table α) :
    (t.find? key).isSome = true ↔ key ∈ t.map Prod.fst := by
  induction t with
  | nil => simp [Table.find?]
  | cons entry t ih =>
      obtain ⟨k, v⟩ := entry
      by_cases h : key = k
      · simp [Table.find?, h]
      · simp [Table.find?, h, ih]

theorem Table.mem_of_find? {α : Type} {key : Text} {value : α} {t : Table α}
    (h : t.find? key = some value) : (key, value) ∈ t := by
  induction t with
  | nil => simp [Table.find?] at h
  | cons entry t ih =>
      obtain ⟨k, v⟩ := entry
      rw [Table.find?] at h
      split at h
      · next hk => cases h; rw [hk]; exact List.mem_cons_self ..
      · exact List.mem_cons_of_mem _ (ih h)

namespace Graph

/-! ## Names enter through their keys -/

section Keys

variable (g : Graph) {a b : Text} (h : lookupKey a = lookupKey b)

include h

theorem isKnown_of_key : g.isKnown a = g.isKnown b := by
  unfold isKnown
  rw [h]

theorem parentsOf_of_key : g.parentsOf a = g.parentsOf b := by
  unfold parentsOf
  rw [h]

theorem ownSignature?_of_key (method : Text) :
    g.ownSignature? a method = g.ownSignature? b method := by
  unfold ownSignature? class?
  rw [h]

theorem searchSignature_of_key (method : Text) (n : Nat) (visiting : List Text) :
    g.searchSignature method n visiting a = g.searchSignature method n visiting b := by
  cases n with
  | zero => rfl
  | succ n =>
      rw [searchSignature, searchSignature, isKnown_of_key g h, parentsOf_of_key g h,
        ownSignature?_of_key g h, h]

theorem signature?_of_key (method : Text) : g.signature? a method = g.signature? b method :=
  searchSignature_of_key g h method _ _

end Keys

/-- The keys of the known classes. -/
def knownKeys (g : Graph) : List Text := g.parents.map Prod.fst

theorem isKnown_iff {g : Graph} {name : Text} :
    g.isKnown name = true ↔ lookupKey name ∈ g.knownKeys :=
  Table.find?_isSome_iff _ _

/-- Only a known class has parents. -/
theorem isKnown_of_mem_parentsOf {g : Graph} {name parent : Text}
    (h : parent ∈ g.parentsOf name) : g.isKnown name = true := by
  unfold parentsOf at h
  unfold isKnown
  cases hf : g.parents.find? (lookupKey name) with
  | none => rw [hf] at h; cases h
  | some ps => rfl

theorem parentsOf_of_unknown {g : Graph} {name : Text} (h : g.isKnown name = false) :
    g.parentsOf name = [] := by
  refine List.eq_nil_iff_forall_not_mem.mpr fun parent hparent => ?_
  cases h.symm.trans (isKnown_of_mem_parentsOf hparent)

/-- No name comes into a parent list but those that are added. -/
theorem mem_foldl_addName {names more : List Text} {name : Text}
    (h : name ∈ more.foldl addName names) : name ∈ names ∨ name ∈ more := by
  induction more generalizing names with
  | nil => exact .inl h
  | cons first more ih =>
      rcases ih h with h | h
      · rw [addName] at h
        split at h
        · exact .inl h
        · rcases List.mem_append.mp h with h | h
          · exact .inl h
          · rw [List.mem_singleton.mp h]
            exact .inr (List.mem_cons_self ..)
      · exact .inr (List.mem_cons_of_mem _ h)

/-! ## Methods enter up to case -/

section Methods

variable {m m' : Text} (h : m.Same m')

include h

theorem isConstructor_of_same : isConstructor m = isConstructor m' :=
  decide_eq_decide.mpr (h.left_iff _)

theorem ownSignature?_of_same (g : Graph) (name : Text) :
    g.ownSignature? name m = g.ownSignature? name m' := by
  unfold ownSignature? ClassEntry.method?
  rw [show m.lower = m'.lower from h]

theorem builtinOwn?_of_same (name : Text) : Builtin.own? name m = Builtin.own? name m' := by
  have hmethod : (fun k : Builtin.Method => decide (k.name.Same m)) =
      fun k => decide (k.name.Same m') := by
    funext k
    exact decide_eq_decide.mpr ⟨fun hk => hk.trans h, fun hk => hk.trans h.symm⟩
  unfold Builtin.own?
  rw [hmethod]

theorem builtinSearch_of_same (n : Nat) (name : Text) :
    Builtin.search m n name = Builtin.search m' n name := by
  induction n generalizing name with
  | zero => exact builtinOwn?_of_same h name
  | succ n ih =>
      have hparents : Builtin.search m n = Builtin.search m' n := funext ih
      rw [Builtin.search, Builtin.search, builtinOwn?_of_same h, hparents]

theorem searchSignature_of_same (g : Graph) (n : Nat) (visiting : List Text) (name : Text) :
    g.searchSignature m n visiting name = g.searchSignature m' n visiting name := by
  induction n generalizing visiting name with
  | zero => rfl
  | succ n ih =>
      have habove : ∀ v, g.searchSignature m n v = g.searchSignature m' n v :=
        fun v => funext (ih v)
      have hbuiltin : ∀ p, Builtin.signature? p m = Builtin.signature? p m' :=
        fun p => builtinSearch_of_same h _ _
      rw [searchSignature, searchSignature, isConstructor_of_same h, ownSignature?_of_same h]
      simp only [habove, hbuiltin]

theorem signature?_of_same (g : Graph) (name : Text) : g.signature? name m = g.signature? name m' :=
  searchSignature_of_same h g _ _ name

end Methods

/-! ## One step of the search -/

/-- What a parent hands down, given what is found above it. -/
def handedDown (g : Graph) (method : Text) (above : Text → Option Signature) (parent : Text) :
    Option Signature :=
  if g.isKnown parent then (above parent).map Signature.asResolved
  else Builtin.signature? parent method

/-- A signature of a class, given what is found above its parents. -/
def signatureStep (g : Graph) (method : Text) (above : Text → Option Signature) (name : Text) :
    Option Signature :=
  if isConstructor method then g.ownSignature? name method
  else combine (g.ownSignature? name method)
    ((g.parentsOf name).findSome? (g.handedDown method above))

theorem searchSignature_succ (g : Graph) (method : Text) (n : Nat) (visiting : List Text)
    (name : Text) :
    g.searchSignature method (n + 1) visiting name =
      if !g.isKnown name || visiting.contains (lookupKey name) then none
      else g.signatureStep method (g.searchSignature method n (lookupKey name :: visiting)) name :=
  rfl

/-- A step only looks at what is above the known parents. -/
theorem signatureStep_congr {g : Graph} {method : Text} {above above' : Text → Option Signature}
    {name : Text}
    (h : ∀ p ∈ g.parentsOf name, g.isKnown p = true → above p = above' p) :
    g.signatureStep method above name = g.signatureStep method above' name := by
  have hparents : (g.parentsOf name).findSome? (g.handedDown method above) =
      (g.parentsOf name).findSome? (g.handedDown method above') := by
    apply findSome?_congr
    intro p hp
    unfold handedDown
    split
    · next hk => rw [h p hp hk]
    · rfl
  unfold signatureStep
  rw [hparents]

/-! ## Enough steps -/

/-- The classes on the way are distinct and known, and with the steps that are left
they are more than there are known classes. -/
structure Enough (g : Graph) (n : Nat) (visiting : List Text) : Prop where
  /-- No class is entered twice. -/
  distinct : visiting.Nodup
  /-- Only known classes are entered. -/
  known : visiting ⊆ g.knownKeys
  /-- The steps suffice for the classes that are left. -/
  steps : g.parents.length < n + visiting.length

theorem enough_start (g : Graph) : g.Enough (g.parents.length + 1) [] :=
  ⟨List.nodup_nil, by simp, by simp⟩

/-- There are never more classes on the way than known ones. -/
theorem Enough.length_le {g : Graph} {n : Nat} {visiting : List Text} (h : g.Enough n visiting) :
    visiting.length ≤ g.parents.length := by
  have := (h.distinct.subperm h.known).length_le
  simpa [knownKeys] using this

/-- Entering a class takes one step. -/
theorem Enough.enter {g : Graph} {n : Nat} {visiting : List Text} {name : Text}
    (h : g.Enough (n + 1) visiting) (hk : g.isKnown name = true)
    (hv : lookupKey name ∉ visiting) : g.Enough n (lookupKey name :: visiting) where
  distinct := List.nodup_cons.mpr ⟨hv, h.distinct⟩
  known := List.cons_subset.mpr ⟨isKnown_iff.mp hk, h.known⟩
  steps := by
    have := h.steps
    simp only [List.length_cons]
    omega

/-- Once the steps suffice, one more changes nothing. -/
theorem searchSignature_step {g : Graph} {method : Text} {n : Nat} {visiting : List Text}
    {name : Text} (h : g.Enough n visiting) :
    g.searchSignature method n visiting name = g.searchSignature method (n + 1) visiting name := by
  induction n generalizing visiting name with
  | zero =>
      have hle := h.length_le
      have hlt := h.steps
      omega
  | succ n ih =>
      rw [searchSignature_succ, searchSignature_succ g method (n + 1)]
      split
      · rfl
      · next hgo =>
          simp only [Bool.or_eq_true, Bool.not_eq_true', List.contains_iff_mem, not_or,
            Bool.not_eq_false] at hgo
          exact signatureStep_congr fun p _ _ => ih (h.enter hgo.1 hgo.2)

/-! ## Hierarchies without cycles -/

/-- One class has another among its parents. -/
def HasParent (g : Graph) (name parent : Text) : Prop :=
  ∃ p ∈ g.parentsOf name, lookupKey p = lookupKey parent

/-- No class is its own ancestor. -/
def Acyclic (g : Graph) : Prop := ∀ name, ¬ Relation.TransGen g.HasParent name name

/-- An ancestor is one under all names with its key. -/
theorem ancestor_of_key {g : Graph} {name a b : Text} (h : Relation.TransGen g.HasParent name a)
    (hab : lookupKey a = lookupKey b) : Relation.TransGen g.HasParent name b := by
  cases h with
  | single hp =>
      obtain ⟨p, hp, hpa⟩ := hp
      exact .single ⟨p, hp, hpa.trans hab⟩
  | tail hc hp =>
      obtain ⟨p, hp, hpa⟩ := hp
      exact .tail hc ⟨p, hp, hpa.trans hab⟩

/-- A graph whose parent lists go up in some rank has no cycles. -/
theorem acyclic_of_rank {g : Graph} (rank : Text → Nat)
    (h : ∀ e ∈ g.parents, ∀ p ∈ e.2, rank e.1 < rank (lookupKey p)) : g.Acyclic := by
  have hstep : ∀ {a b}, g.HasParent a b → rank (lookupKey a) < rank (lookupKey b) := by
    rintro a b ⟨p, hp, hpb⟩
    unfold parentsOf at hp
    cases hf : g.parents.find? (lookupKey a) with
    | none => rw [hf] at hp; cases hp
    | some ps =>
        rw [hf] at hp
        rw [← hpb]
        exact h _ (Table.mem_of_find? hf) p hp
  have hrun : ∀ {a b}, Relation.TransGen g.HasParent a b →
      rank (lookupKey a) < rank (lookupKey b) := by
    intro a b hab
    induction hab with
    | single hp => exact hstep hp
    | tail _ hp ih => exact Nat.lt_trans ih (hstep hp)
  intro name hname
  exact Nat.lt_irrefl _ (hrun hname)

/-- None of the classes on the way is the given one or one above it. -/
def OffTheWay (g : Graph) (visiting : List Text) (name : Text) : Prop :=
  ∀ a, lookupKey a ∈ visiting → ¬ Relation.ReflTransGen g.HasParent name a

theorem OffTheWay.not_mem {g : Graph} {visiting : List Text} {name : Text}
    (h : g.OffTheWay visiting name) : lookupKey name ∉ visiting :=
  fun hmem => h name hmem .refl

/-- Without cycles the way stays clear when it goes up. -/
theorem OffTheWay.enter {g : Graph} (hg : g.Acyclic) {visiting : List Text} {name p : Text}
    (h : g.OffTheWay visiting name) (hp : p ∈ g.parentsOf name) :
    g.OffTheWay (lookupKey name :: visiting) p := by
  have hstep : g.HasParent name p := ⟨p, hp, rfl⟩
  intro a ha hpath
  rcases List.mem_cons.mp ha with hname | hv
  · exact hg name (ancestor_of_key (.head' hstep hpath) hname)
  · exact h a hv (.head hstep hpath)

/-- Without cycles the classes on the way do not matter. -/
theorem searchSignature_visiting {g : Graph} (hg : g.Acyclic) {method : Text} {n : Nat}
    {visiting visiting' : List Text} {name : Text} (h : g.OffTheWay visiting name)
    (h' : g.OffTheWay visiting' name) :
    g.searchSignature method n visiting name = g.searchSignature method n visiting' name := by
  induction n generalizing visiting visiting' name with
  | zero => rfl
  | succ n ih =>
      have hnot : visiting.contains (lookupKey name) = false := by simpa using h.not_mem
      have hnot' : visiting'.contains (lookupKey name) = false := by simpa using h'.not_mem
      have hstep : g.signatureStep method
            (g.searchSignature method n (lookupKey name :: visiting)) name =
          g.signatureStep method
            (g.searchSignature method n (lookupKey name :: visiting')) name :=
        signatureStep_congr fun p hp _ => ih (h.enter hg hp) (h'.enter hg hp)
      rw [searchSignature_succ, searchSignature_succ, hnot, hnot', hstep]

/-- Without cycles the effective signature is the plain recursion over parents. -/
theorem signature?_of_acyclic {g : Graph} (hg : g.Acyclic) (name method : Text) :
    g.signature? name method =
      if g.isKnown name then g.signatureStep method (g.signature? · method) name else none := by
  unfold signature?
  rw [searchSignature_succ]
  cases hk : g.isKnown name with
  | false => rfl
  | true =>
      have hoff : g.OffTheWay [] name := fun a ha => absurd ha (List.not_mem_nil)
      have henough : g.Enough g.parents.length [lookupKey name] :=
        (enough_start g).enter hk hoff.not_mem
      refine signatureStep_congr fun p hp _ => ?_
      rw [searchSignature_step henough]
      exact searchSignature_visiting hg (hoff.enter hg hp) fun a ha => absurd ha (List.not_mem_nil)

end Graph

end NativeHints
