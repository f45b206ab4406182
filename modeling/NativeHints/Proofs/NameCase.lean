import NativeHints.Proofs.PropertySearch
import NativeHints.Proofs.Records

/-!
# Names up to case

Classes and methods are looked up without regard to case, and classes also without regard to
backslashes in front.  Names are folded in many places, each on its own: in the keys of the
hierarchy, when parents are joined, in the methods of an entry, among the classes that a
search has met, in the test for constructors and in the table of built-in classes.

Here two sequences of operations are made side by side that differ in the case of names only
(`Record.SameNames`).  The two hierarchies have the same keys.  Under each of them stand
entries with the same methods and properties, and parents that differ in case only
(`Graph.SameNames`).  One operation keeps this, hence all do.  Then the two searches go
through the same keys side by side, down to the built-in classes, and find the same.
-/

namespace NativeHints

theorem bind_eq_of_rel {α β γ : Type} {R : α → β → Prop} {f : α → Option γ} {f' : β → Option γ}
    {o : Option α} {o' : Option β} (h : Option.Rel R o o') (hf : ∀ {a b}, R a b → f a = f' b) :
    o.bind f = o'.bind f' := by
  cases h with
  | none => rfl
  | some h => exact hf h

/-- Functions that agree on related members find the same in related lists. -/
theorem findSome?_of_forall₂ {α β γ : Type} {R : α → β → Prop} {f : α → Option γ}
    {f' : β → Option γ} {l : List α} {l' : List β} (h : List.Forall₂ R l l')
    (hf : ∀ {a b}, R a b → f a = f' b) : l.findSome? f = l'.findSome? f' := by
  induction h with
  | nil => rfl
  | cons hab _ ih => rw [List.findSome?_cons, List.findSome?_cons, hf hab, ih]

/-! ## Folding names -/

theorem Text.Same.dropLeading {a b : Text} (h : a.Same b) :
    (a.dropLeading '\\').Same (b.dropLeading '\\') := by
  have hlower : ∀ t : Text, (t.dropLeading '\\').lower = t.lower.dropLeading '\\' := by
    intro t
    have hmark : ∀ c : Char, decide (c.toLower = '\\') = decide (c = '\\') :=
      fun c => decide_eq_decide.mpr (toLower_eq_iff (by decide))
    simp only [Text.dropLeading, Text.lower, List.dropWhile_map, Function.comp_def, hmark]
  rw [Same, hlower, hlower, show a.lower = b.lower from h]

theorem Graph.lookupKey_of_same {a b : Text} (h : a.Same b) : lookupKey a = lookupKey b :=
  h.dropLeading

namespace Builtin

variable {a b : Text} (h : a.Same b)

include h

theorem own?_of_same (method : Text) : own? a method = own? b method := by
  have hname : (fun c : Class => decide (c.name.Same a)) = fun c => decide (c.name.Same b) := by
    funext c
    exact decide_eq_decide.mpr ⟨fun hc => hc.trans h, fun hc => hc.trans h.symm⟩
  rw [own?, own?, hname]

theorem parentsOf_of_same : parentsOf a = parentsOf b := by
  have hname : (fun p : Text × List Text => decide (p.1.Same a)) =
      fun p => decide (p.1.Same b) := by
    funext p
    exact decide_eq_decide.mpr ⟨fun hp => hp.trans h, fun hp => hp.trans h.symm⟩
  rw [parentsOf, parentsOf, hname]

theorem search_of_same (method : Text) (n : Nat) : search method n a = search method n b := by
  cases n with
  | zero => exact own?_of_same h method
  | succ n => rw [search, search, own?_of_same h, parentsOf_of_same h]

theorem signature?_of_same (method : Text) : signature? a method = signature? b method :=
  search_of_same h.dropLeading method maxDepth

end Builtin

/-! ## Tables with the same keys -/

namespace Table

variable {α β : Type} {R : α → β → Prop} {t : Table α} {t' : Table β}

/-- Two tables have the same keys, and what stands under each is related. -/
def Matched (R : α → β → Prop) (t : Table α) (t' : Table β) : Prop :=
  List.Forall₂ (fun entry entry' => entry.1 = entry'.1 ∧ R entry.2 entry'.2) t t'

theorem Matched.put (h : Matched R t t') (key : Text) {a : α} {b : β} (hab : R a b) :
    Matched R (t.put key a) (t'.put key b) := by
  induction h with
  | nil => exact .cons ⟨rfl, hab⟩ .nil
  | @cons entry entry' t t' hentry ht ih =>
      obtain ⟨k, v⟩ := entry
      obtain ⟨k', v'⟩ := entry'
      obtain rfl : k = k' := hentry.1
      rw [Table.put, Table.put]
      split
      · exact .cons ⟨rfl, hab⟩ ht
      · split
        · exact .cons ⟨rfl, hab⟩ (.cons hentry ht)
        · exact .cons hentry ih

theorem Matched.find? (h : Matched R t t') (key : Text) :
    Option.Rel R (t.find? key) (t'.find? key) := by
  induction h with
  | nil => exact .none
  | @cons entry entry' t t' hentry _ ih =>
      obtain ⟨k, v⟩ := entry
      obtain ⟨k', v'⟩ := entry'
      obtain rfl : k = k' := hentry.1
      rw [Table.find?, Table.find?]
      split
      · exact .some hentry.2
      · exact ih

end Table

/-! ## Two sequences of operations -/

/-- Two entries are made in the same way, with the same types, but for the case of the names of
classes and methods. -/
inductive ClassEntry.SameNames : ClassEntry → ClassEntry → Prop where
  /-- Entries that document nothing yet. -/
  | bare {key key' : Text} {parent parent' : Option Text} :
      key.Same key' → Option.Rel Text.Same parent parent' →
      SameNames (.bare key parent) (.bare key' parent')
  /-- The signature of a method is added to both. -/
  | method {e e' : ClassEntry} {name name' : Text} (s : Signature) :
      SameNames e e' → name.Same name' → SameNames (e.withMethod name s) (e'.withMethod name' s)
  /-- The type of a property is added to both. -/
  | property {e e' : ClassEntry} (name : Text) (t : HintType) :
      SameNames e e' → SameNames (e.withProperty name t) (e'.withProperty name t)

/-- Two operations are the same, but for the case of the names of classes and methods. -/
inductive Record.SameNames : Record → Record → Prop where
  | entry {e e' : ClassEntry} : e.SameNames e' → SameNames (.entry e) (.entry e')
  | parents {name name' : Text} {ps ps' : List Text} :
      name.Same name' → List.Forall₂ Text.Same ps ps' →
      SameNames (.parents name ps) (.parents name' ps')

/-- Two entries document the same. -/
structure ClassEntry.Agrees (e e' : ClassEntry) : Prop where
  methods : e.methods = e'.methods
  properties : e.properties = e'.properties

namespace ClassEntry.SameNames

variable {e e' : ClassEntry}

theorem key (h : e.SameNames e') : e.key.Same e'.key := by
  induction h with
  | bare hkey _ => exact hkey
  | method _ _ _ ih => exact ih
  | property _ _ _ ih => exact ih

theorem agrees (h : e.SameNames e') : e.Agrees e' := by
  induction h with
  | bare _ _ => exact ⟨rfl, rfl⟩
  | @method e e' name name' s _ hname ih =>
      refine ⟨?_, ih.properties⟩
      rw [withMethod, withMethod, ih.methods, show name.lower = name'.lower from hname]
  | property name t _ ih =>
      refine ⟨ih.methods, ?_⟩
      rw [withProperty, withProperty, ih.properties]

end ClassEntry.SameNames

namespace Graph

/-- Two hierarchies are the same, but for the case of the names of classes. -/
structure SameNames (g g' : Graph) : Prop where
  classes : Table.Matched ClassEntry.Agrees g.classes g'.classes
  parents : Table.Matched (List.Forall₂ Text.Same) g.parents g'.parents

/-- Joining looks at names up to case. -/
theorem addName_same {names names' : List Text} (h : List.Forall₂ Text.Same names names')
    {name name' : Text} (hname : name.Same name') :
    List.Forall₂ Text.Same (addName names name) (addName names' name') := by
  have hany : (names.any fun n => decide (n.Same name)) =
      names'.any fun n => decide (n.Same name') := by
    induction h with
    | nil => rfl
    | @cons n n' _ _ hn _ ih =>
        have hsame : n.Same name ↔ n'.Same name' :=
          ⟨fun hs => hn.symm.trans (hs.trans hname), fun hs => hn.trans (hs.trans hname.symm)⟩
        rw [List.any_cons, List.any_cons, ih, decide_eq_decide.mpr hsame]
  rw [addName, addName, hany]
  split
  · exact h
  · exact List.rel_append h (.cons hname .nil)

theorem foldl_addName_same {names names' more more' : List Text}
    (h : List.Forall₂ Text.Same names names') (hmore : List.Forall₂ Text.Same more more') :
    List.Forall₂ Text.Same (more.foldl addName names) (more'.foldl addName names') := by
  induction hmore generalizing names names' with
  | nil => exact h
  | cons hname _ ih => exact ih (addName_same h hname)

namespace SameNames

variable {g g' : Graph} (h : g.SameNames g')

include h

section Keys

variable {a b : Text} (hkey : lookupKey a = lookupKey b)

include hkey

theorem parentsOf_same : List.Forall₂ Text.Same (g.parentsOf a) (g'.parentsOf b) := by
  have hfound := h.parents.find? (lookupKey a)
  rw [parentsOf, parentsOf, ← hkey]
  generalize g.parents.find? (lookupKey a) = ps at hfound ⊢
  generalize g'.parents.find? (lookupKey a) = ps' at hfound ⊢
  cases hfound with
  | none => exact .nil
  | some hps => exact hps

theorem isKnown_eq : g.isKnown a = g'.isKnown b := by
  have hfound := h.parents.find? (lookupKey a)
  rw [isKnown, isKnown, ← hkey]
  generalize g.parents.find? (lookupKey a) = ps at hfound ⊢
  generalize g'.parents.find? (lookupKey a) = ps' at hfound ⊢
  cases hfound <;> rfl

theorem class?_agrees : Option.Rel ClassEntry.Agrees (g.class? a) (g'.class? b) := by
  rw [class?, class?, ← hkey]
  exact h.classes.find? (lookupKey a)

theorem ownSignature?_eq (method : Text) :
    g.ownSignature? a method = g'.ownSignature? b method :=
  bind_eq_of_rel (h.class?_agrees hkey) fun he => congrArg (Table.find? method.lower) he.methods

theorem ownProperty?_eq (property : Text) :
    g.ownProperty? a property = g'.ownProperty? b property :=
  bind_eq_of_rel (h.class?_agrees hkey) fun he => congrArg (Table.find? property) he.properties

end Keys

/-- The step: one operation keeps two hierarchies the same. -/
theorem record {r r' : Record} (hr : r.SameNames r') : (g.record r).SameNames (g'.record r') := by
  cases hr with
  | entry he =>
      rw [Graph.record, Graph.record, addClass, addClass, ← lookupKey_of_same he.key]
      exact ⟨h.classes.put _ he.agrees, h.parents⟩
  | parents hname hps =>
      have hkey := lookupKey_of_same hname
      rw [Graph.record, Graph.record, addParents, addParents, ← hkey]
      exact ⟨h.classes, h.parents.put _ (foldl_addName_same (h.parentsOf_same hkey) hps)⟩

end SameNames

/-- The run: all operations do. -/
theorem sameNames_ofRecords {log log' : List Record} (h : List.Forall₂ Record.SameNames log log') :
    (ofRecords log).SameNames (ofRecords log') := by
  have hrun : ∀ {g g' : Graph}, g.SameNames g' →
      (log.foldl record g).SameNames (log'.foldl record g') := by
    induction h with
    | nil => exact id
    | cons hr _ ih => exact fun hg => ih (hg.record hr)
  exact hrun ⟨.nil, .nil⟩

/-! ## Two searches -/

namespace SameNames

variable {g g' : Graph} (h : g.SameNames g')

include h

/-- What parents hand down is the same, if the same is found above them. -/
theorem inherited_eq (method : Text) {a b : Text} (hkey : lookupKey a = lookupKey b)
    {above above' : Text → Option Signature}
    (habove : ∀ {p p' : Text}, p.Same p' → above p = above' p') :
    (g.parentsOf a).findSome? (g.handedDown method above) =
      (g'.parentsOf b).findSome? (g'.handedDown method above') := by
  refine findSome?_of_forall₂ (h.parentsOf_same hkey) fun {p p'} hp => ?_
  rw [handedDown, handedDown, h.isKnown_eq (lookupKey_of_same hp), habove hp,
    Builtin.signature?_of_same hp]

/-- Two searches for a signature that have met the same classes find the same. -/
theorem searchSignature_eq (method : Text) (n : Nat) (visiting : List Text) {a b : Text}
    (hkey : lookupKey a = lookupKey b) :
    g.searchSignature method n visiting a = g'.searchSignature method n visiting b := by
  induction n generalizing visiting a b with
  | zero => rfl
  | succ n ih =>
      have hinherited := h.inherited_eq method hkey fun hp =>
        ih (lookupKey a :: visiting) (lookupKey_of_same hp)
      rw [searchSignature_succ, searchSignature_succ, signatureStep, signatureStep, ← hkey,
        h.isKnown_eq hkey, h.ownSignature?_eq hkey, hinherited]

theorem signature?_eq (method : Text) {a b : Text} (hkey : lookupKey a = lookupKey b) :
    g.signature? a method = g'.signature? b method := by
  rw [signature?, signature?, h.parents.length_eq]
  exact h.searchSignature_eq method _ _ hkey

/-- Two searches among parents find the same and leave the same marks, if those above them
do. -/
theorem searchParents_eq (property : Text)
    {above above' : List Text → Text → Option HintType × List Text}
    (habove : ∀ (seen : List Text) {p p' : Text}, p.Same p' → above seen p = above' seen p')
    (seen : List Text) {parents parents' : List Text}
    (hparents : List.Forall₂ Text.Same parents parents') :
    g.searchParents property above seen parents =
      g'.searchParents property above' seen parents' := by
  induction hparents generalizing seen with
  | nil => rfl
  | @cons p p' _ _ hp _ ih =>
      have hkey := lookupKey_of_same hp
      rw [searchParents, searchParents, ← hkey, h.ownProperty?_eq hkey, habove _ hp]
      simp only [ih]

theorem searchProperty_eq (property : Text) (n : Nat) (seen : List Text) {a b : Text}
    (hkey : lookupKey a = lookupKey b) :
    g.searchProperty property n seen a = g'.searchProperty property n seen b := by
  induction n generalizing seen a b with
  | zero => rfl
  | succ n ih =>
      exact h.searchParents_eq property (fun seen {_ _} hp => ih seen (lookupKey_of_same hp)) seen
        (h.parentsOf_same hkey)

theorem property?_eq (property : Text) {a b : Text} (hkey : lookupKey a = lookupKey b) :
    g.property? a property = g'.property? b property := by
  rw [property?, property?, h.parents.length_eq, h.searchProperty_eq property _ _ hkey, hkey,
    h.ownProperty?_eq hkey]

end SameNames

/-- The names of classes and methods are case-insensitive from end to end.  Let two sequences of
operations be the same but for the case of these names.  Let two classes be named the same
up to case and to backslashes in front, and two methods the same up to case.  Then they have the
same effective signature, also one from a built-in class, and every property has the same
effective type. -/
theorem names_ignore_case {log log' : List Record} (hlog : List.Forall₂ Record.SameNames log log')
    {name name' method method' : Text}
    (hname : (name.dropLeading '\\').Same (name'.dropLeading '\\'))
    (hmethod : method.Same method') :
    (ofRecords log).signature? name method = (ofRecords log').signature? name' method' ∧
      ∀ property, (ofRecords log).property? name property =
        (ofRecords log').property? name' property := by
  have hsame := sameNames_ofRecords hlog
  have hkey : lookupKey name = lookupKey name' := hname
  refine ⟨?_, fun property => hsame.property?_eq property hkey⟩
  rw [hsame.signature?_eq method hkey, signature?_of_same hmethod]

/-- A class with a documented method and a documented property, and a built-in interface as its
parent. -/
def watcherLog (name method parent : String) : List Record :=
  [.parents name.toList [parent.toList],
    .entry (((ClassEntry.bare name.toList none).withMethod method.toList
      ⟨[none], some (.named "int".toList false)⟩).withProperty "count".toList
        (.named "int".toList false))]

/-- The class in two spellings.  In both its method has the parameter type of the built-in
interface. -/
theorem names_ignore_case_watcher :
    (ofRecords (watcherLog "App\\Watcher" "update" "SplObserver")).signature?
          "app\\WATCHER".toList "UPDATE".toList =
        some ⟨[some (.named "SplSubject".toList false)], some (.named "int".toList false)⟩ ∧
      (ofRecords (watcherLog "APP\\watcher" "upDate" "splobserver")).signature?
          "\\\\App\\Watcher".toList "update".toList =
        some ⟨[some (.named "SplSubject".toList false)], some (.named "int".toList false)⟩ ∧
      (ofRecords (watcherLog "App\\Watcher" "update" "SplObserver")).property?
          "app\\WATCHER".toList "count".toList =
        (ofRecords (watcherLog "APP\\watcher" "upDate" "splobserver")).property?
          "\\\\App\\Watcher".toList "count".toList := by
  have hlog : List.Forall₂ Record.SameNames (watcherLog "App\\Watcher" "update" "SplObserver")
      (watcherLog "APP\\watcher" "upDate" "splobserver") :=
    .cons (.parents (by decide) (.cons (by decide) .nil))
      (.cons (.entry (.property _ _ (.method _ (.bare (by decide) .none) (by decide)))) .nil)
  have hname : Text.Same (Text.dropLeading '\\' "app\\WATCHER".toList)
      (Text.dropLeading '\\' "\\\\App\\Watcher".toList) := by decide
  have hmethod : Text.Same "UPDATE".toList "update".toList := by decide
  have hfirst : (ofRecords (watcherLog "App\\Watcher" "update" "SplObserver")).signature?
      "app\\WATCHER".toList "UPDATE".toList =
        some ⟨[some (.named "SplSubject".toList false)], some (.named "int".toList false)⟩ := by
    decide
  obtain ⟨hsignature, hproperty⟩ := names_ignore_case hlog hname hmethod
  exact ⟨hfirst, hsignature.symm.trans hfirst, hproperty _⟩

end Graph

end NativeHints
