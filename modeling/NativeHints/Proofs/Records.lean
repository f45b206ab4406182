import Mathlib.Data.Finset.Card
import NativeHints.Proofs.FileOrder

/-!
# Any sequence of records

A hierarchy grows by two operations, and here they come in any order: a class entry is
put in the place of the one with its key, and a parent list is joined to those of its key.
After any sequence of them the hierarchy can be read off the sequence
(`Graph.class?_ofRecords`, `Graph.classCount_ofRecords`, `Graph.isKnown_ofRecords_iff`,
`Graph.parentsOf_ofRecords`).

One operation is a file with a single fact, and a file is the sequence of its facts.  So what
holds of logs of files holds of sequences of operations, and the other way round.
-/

namespace NativeHints

/-- One operation that makes a hierarchy grow. -/
inductive Record where
  /-- The entry of a class. -/
  | entry (e : ClassEntry)
  /-- More parents of a class. -/
  | parents (name : Text) (parents : List Text)
deriving DecidableEq, Repr

namespace Record

/-- The entry that is recorded. -/
def entry? : Record → Option ClassEntry
  | entry e => some e
  | parents _ _ => none

/-- The parent list that is recorded for a key. -/
def parents? (key : Text) : Record → Option (List Text)
  | entry _ => none
  | parents name ps => if Graph.lookupKey name = key then some ps else none

/-- The operation as the facts of a file. -/
def facts : Record → Facts
  | entry e => ⟨[e], []⟩
  | parents name ps => ⟨[], [(name, ps)]⟩

end Record

/-- The facts of a file as operations, in the order in which they are made. -/
def Facts.records (f : Facts) : List Record :=
  f.classes.map .entry ++ f.edges.map fun edge => .parents edge.1 edge.2

namespace Graph

/-- The hierarchy after one operation. -/
def record (g : Graph) : Record → Graph
  | .entry e => g.addClass e
  | .parents name ps => g.addParents name ps

/-- The hierarchy after a sequence of operations. -/
def ofRecords (log : List Record) : Graph := log.foldl record empty

/-! ## Operations and files -/

theorem record_eq_addFacts (g : Graph) (r : Record) : g.record r = g.addFacts r.facts := by
  cases r <;> rfl

theorem ofRecords_eq_ofFacts (log : List Record) :
    ofRecords log = ofFacts (log.map Record.facts) := by
  have hstep : record = fun g r => addFacts g r.facts := by
    funext g r
    exact record_eq_addFacts g r
  rw [ofRecords, ofFacts, List.foldl_map, hstep]

theorem addFacts_eq_foldl (g : Graph) (f : Facts) : g.addFacts f = f.records.foldl record g := by
  rw [Facts.records, List.foldl_append, List.foldl_map, List.foldl_map]
  rfl

/-- The files of a log add their operations one by one. -/
theorem foldl_addFacts_ofRecords (log : List Record) (fs : List Facts) :
    fs.foldl addFacts (ofRecords log) = ofRecords (log ++ fs.flatMap Facts.records) := by
  rw [ofRecords, ofRecords, List.foldl_append, List.foldl_flatMap]
  congr 1
  funext g f
  exact addFacts_eq_foldl g f

theorem foldl_addFacts_eq_ofFacts (log : List Record) (fs : List Facts) :
    fs.foldl addFacts (ofRecords log) = ofFacts (log.map Record.facts ++ fs) := by
  rw [ofRecords_eq_ofFacts, ofFacts, ofFacts, List.foldl_append]

/-! ## Reading a hierarchy off its log -/

theorem classesAt_records (key : Text) (log : List Record) :
    (log.map Record.facts).flatMap (Facts.classesAt key) =
      (log.filterMap Record.entry?).filter fun e => lookupKey e.key = key := by
  induction log with
  | nil => rfl
  | cons r log ih =>
      cases r with
      | entry e =>
          rw [List.map_cons, List.flatMap_cons, ih]
          by_cases h : lookupKey e.key = key <;>
            simp [Record.facts, Facts.classesAt, Record.entry?, h]
      | parents name ps => exact ih

theorem parentsAt_records (key : Text) (log : List Record) :
    (log.map Record.facts).flatMap (Facts.parentsAt key) =
      log.filterMap (Record.parents? key) := by
  induction log with
  | nil => rfl
  | cons r log ih =>
      cases r with
      | entry e => exact ih
      | parents name ps =>
          rw [List.map_cons, List.flatMap_cons, ih]
          by_cases h : lookupKey name = key <;>
            simp [Record.facts, Facts.parentsAt, Record.parents?, h]

/-- The entry of a class is the last one recorded under its key. -/
theorem class?_ofRecords (log : List Record) (name : Text) :
    (ofRecords log).class? name =
      ((log.filterMap Record.entry?).filter fun e => lookupKey e.key = lookupKey name).getLast? := by
  rw [class?, ofRecords_eq_ofFacts, find?_classes_ofFacts, classesAt_records]

theorem inOrder_ofRecords (log : List Record) : (ofRecords log).InOrder := by
  rw [ofRecords_eq_ofFacts]
  exact inOrder_ofFacts _

/-- A key has an entry exactly if one was recorded under it. -/
theorem mem_keys_ofRecords_iff {log : List Record} {key : Text} :
    key ∈ (ofRecords log).classes.map Prod.fst ↔
      key ∈ (log.filterMap Record.entry?).map fun e => lookupKey e.key := by
  rw [← Table.find?_isSome_iff, ofRecords_eq_ofFacts, find?_classes_ofFacts, classesAt_records,
    List.getLast?_isSome, Ne, List.filter_eq_nil_iff, List.mem_map]
  simp only [decide_eq_true_eq, not_forall, not_not, exists_prop]

/-- There are as many entries as there are keys of recorded ones. -/
theorem classCount_ofRecords (log : List Record) :
    (ofRecords log).classCount =
      ((log.filterMap Record.entry?).map fun e => lookupKey e.key).toFinset.card := by
  have hnodup : ((ofRecords log).classes.map Prod.fst).Nodup := by
    refine List.pairwise_map.mpr ((inOrder_ofRecords log).1.imp fun {a b} hlt heq => ?_)
    exact List.lt_irrefl a.1 (heq ▸ hlt)
  calc (ofRecords log).classCount
      = ((ofRecords log).classes.map Prod.fst).length := (List.length_map ..).symm
    _ = ((ofRecords log).classes.map Prod.fst).toFinset.card :=
        (List.toFinset_card_of_nodup hnodup).symm
    _ = _ := by
        congr 1
        ext key
        rw [List.mem_toFinset, List.mem_toFinset, mem_keys_ofRecords_iff]

/-- A class is known once a parent list was recorded for it. -/
theorem isKnown_ofRecords_iff {log : List Record} {name : Text} :
    (ofRecords log).isKnown name = true ↔
      ∃ owner ps, Record.parents owner ps ∈ log ∧ lookupKey owner = lookupKey name := by
  rw [ofRecords_eq_ofFacts, isKnown_ofFacts_iff]
  constructor
  · rintro ⟨f, hf, edge, hedge, hkey⟩
    obtain ⟨r, hr, rfl⟩ := List.mem_map.mp hf
    cases r with
    | entry e => cases hedge
    | parents owner ps =>
        obtain rfl := List.mem_singleton.mp hedge
        exact ⟨owner, ps, hr, hkey⟩
  · rintro ⟨owner, ps, hr, hkey⟩
    exact ⟨_, List.mem_map_of_mem hr, (owner, ps), List.mem_singleton.mpr rfl, hkey⟩

/-- Names are joined to a list by leaving out those that stand there, and of the others all but
the first of each. -/
theorem foldl_addName_eq (names more : List Text) :
    more.foldl addName names = names ++
      (more.filter fun name => ¬ name.Among names).eraseDupsBy fun a b => decide (a.Same b) := by
  induction more generalizing names with
  | nil => simp
  | cons first more ih =>
      rw [List.foldl_cons, ih, List.filter_cons]
      by_cases h : first.Among names
      · rw [addName_of_among h, if_neg (by simpa using h)]
      · have hfilter : (more.filter fun name => ¬ name.Among (addName names first)) =
            (more.filter fun name => ¬ name.Among names).filter
              fun name => decide (decide (name.Same first) = false) := by
          rw [List.filter_filter]
          congr 1
          funext name
          have hsame : first.Same name ↔ name.Same first := ⟨.symm, .symm⟩
          simp [among_addName_iff, hsame, not_or, Bool.and_comm]
        rw [hfilter, addName_of_not_among h, if_pos (by simpa using h), List.eraseDupsBy_cons,
          List.append_assoc, List.singleton_append]

/-- The parents of a class are those of all lists recorded for it, each where it first comes. -/
theorem parentsOf_ofRecords (log : List Record) (name : Text) :
    (ofRecords log).parentsOf name =
      (log.filterMap (Record.parents? (lookupKey name))).flatten.eraseDupsBy
        fun a b => decide (a.Same b) := by
  have hall : ∀ names : List Text, (names.filter fun n => ¬ n.Among []) = names := by
    intro names
    simp [Text.Among]
  rw [ofRecords_eq_ofFacts, parentsOf_ofFacts, parentsAt_records, foldl_addName_eq, hall,
    List.nil_append]

/-- Two files at the end of a log may change places if they share no key. -/
theorem ofFacts_swap (fs : List Facts) {f f' : Facts} (h : f.Apart f') :
    ofFacts (fs ++ [f, f']) = ofFacts (fs ++ [f', f]) := by
  have hswap : [f, f'].Perm [f', f] := .swap ..
  refine ofFacts_congr (fun key => ?_) fun key => ?_
  · rw [List.flatMap_append, List.flatMap_append,
      flatMap_eq_of_perm hswap (List.pairwise_pair.mpr (h.classesAt_eq_nil key))]
  · rw [List.flatMap_append, List.flatMap_append,
      flatMap_eq_of_perm hswap (List.pairwise_pair.mpr (h.parentsAt_eq_nil key))]

/-- A hierarchy is a faithful log of what was recorded.  After any sequence of operations the
entry of a class is the last one recorded under its key, and there are as many entries as keys
of recorded ones.  A class is known exactly if a parent list was recorded under its key.  Its
parents are those of all these lists, one list after the other, where of names that differ in
case only the first stays.  To add the facts of files is one such sequence.  Hence adding the
same files once more changes nothing, and two files that share no key may be added in either
order. -/
theorem hierarchy_is_log (log : List Record) :
    (∀ name, (ofRecords log).class? name = ((log.filterMap Record.entry?).filter
      fun e => lookupKey e.key = lookupKey name).getLast?) ∧
    (ofRecords log).classCount =
      ((log.filterMap Record.entry?).map fun e => lookupKey e.key).toFinset.card ∧
    (∀ name, (ofRecords log).isKnown name = true ↔
      ∃ owner ps, Record.parents owner ps ∈ log ∧ lookupKey owner = lookupKey name) ∧
    (∀ name, (ofRecords log).parentsOf name =
      (log.filterMap (Record.parents? (lookupKey name))).flatten.eraseDupsBy
        fun a b => decide (a.Same b)) ∧
    (∀ fs : List Facts,
      fs.foldl addFacts (ofRecords log) = ofRecords (log ++ fs.flatMap Facts.records)) ∧
    (∀ fs : List Facts, fs.foldl addFacts (fs.foldl addFacts (ofRecords log)) =
      fs.foldl addFacts (ofRecords log)) ∧
    ∀ f f' : Facts, f.Apart f' → ((ofRecords log).addFacts f).addFacts f' =
      ((ofRecords log).addFacts f').addFacts f := by
  refine ⟨class?_ofRecords log, classCount_ofRecords log, fun name => isKnown_ofRecords_iff,
    parentsOf_ofRecords log, foldl_addFacts_ofRecords log, fun fs => ?_, fun f f' hapart => ?_⟩
  · have hagain := foldl_addFacts_eq_ofFacts log (fs ++ fs)
    rw [List.foldl_append, ← List.append_assoc, ofFacts_append_again] at hagain
    rw [hagain, foldl_addFacts_eq_ofFacts]
  · calc ((ofRecords log).addFacts f).addFacts f'
        = ofFacts (log.map Record.facts ++ [f, f']) := foldl_addFacts_eq_ofFacts log [f, f']
      _ = ofFacts (log.map Record.facts ++ [f', f]) := ofFacts_swap _ hapart
      _ = ((ofRecords log).addFacts f').addFacts f :=
          (foldl_addFacts_eq_ofFacts log [f', f]).symm

/-- Two parent lists of a trait that overlap, with the entry of a class in between. -/
def traitLog : List Record :=
  [.parents "T".toList ["Base".toList], .entry (.bare "App\\Model".toList none),
    .parents "t".toList ["base".toList, "Contract".toList]]

/-- A file with a class. -/
def parentFacts : Facts := ⟨[.bare "A".toList none], [("A".toList, ["Base".toList])]⟩

/-- A file with a class that extends the other one and uses the trait. -/
def childFacts : Facts :=
  ⟨[.bare "B".toList (some "A".toList)], [("T".toList, ["A".toList]), ("B".toList, ["A".toList])]⟩

/-- The two lists of the trait are joined, and the two files may be added in either order. -/
theorem hierarchy_is_log_trait :
    (ofRecords traitLog).parentsOf "\\T".toList = ["Base".toList, "Contract".toList] ∧
      parentFacts.Apart childFacts ∧
      ((ofRecords traitLog).addFacts parentFacts).addFacts childFacts =
        ((ofRecords traitLog).addFacts childFacts).addFacts parentFacts := by
  have hapart : parentFacts.Apart childFacts := by decide
  obtain ⟨-, -, -, hparents, -, -, hswap⟩ := hierarchy_is_log traitLog
  exact ⟨(hparents _).trans (by decide), hapart, hswap _ _ hapart⟩

end Graph

end NativeHints
