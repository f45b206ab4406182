import NativeHints.Files.Disk

/-!
# What stands on a disk

A disk is seen through its locations: at each stands nothing, a directory or a
file with its content (`Tree.item?`).  Where a path leads depends on the
directories alone, and what is read there on the item it leads to.

Writing to a file that is there changes the item at its location and no other
(`item?_write`).  No directory comes or goes, so every path leads to where it
led before (`locate_write`).
-/

namespace NativeHints.Files

/-! ## Items -/

/-- What stands at a location, without what a directory holds. -/
inductive Item where
  /-- A file. -/
  | file (content : Content)
  /-- A directory. -/
  | directory
deriving DecidableEq, Repr

namespace Item

/-- Whether it is a directory. -/
def isDirectory : Item → Bool
  | file _ => false
  | directory => true

/-- The text that can be read off an item. -/
def read : Option Item → Except Fault Text
  | none => .error .missing
  | some .directory => .error .isDirectory
  | some (.file (.binary _)) => .error .notText
  | some (.file (.text t)) => .ok t

theorem read_eq_ok_iff {i : Option Item} {t : Text} :
    read i = .ok t ↔ i = some (.file (.text t)) := by
  unfold read
  split <;> simp

end Item

namespace Entry

/-- An entry without what it holds as a directory. -/
def item : Entry → Item
  | file content => .file content
  | directory _ => .directory

/-- The entry at a location below an entry. -/
def at? : Entry → Location → Option Entry
  | e, [] => some e
  | file _, _ :: _ => none
  | directory inside, name :: names => inside.at? (name :: names)

theorem at?_nil (e : Entry) : e.at? [] = some e := by
  cases e <;> rfl

end Entry

namespace Tree

/-- The item at a location. -/
def item? (t : Tree) (place : Location) : Option Item := (t.at? place).map Entry.item

theorem at?_eq (t : Tree) (place : Location) : t.at? place = (Entry.directory t).at? place := by
  cases place <;> rfl

theorem at?_cons (t : Tree) (name : Text) (names : Location) :
    t.at? (name :: names) = (t.find? name).bind (·.at? names) := by
  cases names with
  | nil =>
      rw [Tree.at?]
      cases t.find? name with
      | none => rfl
      | some e => exact (Entry.at?_nil e).symm
  | cons next names =>
      rw [Tree.at?]
      · cases t.find? name with
        | none => rfl
        | some e => cases e <;> rfl
      · simp

/-- A location can be gone to in two steps. -/
theorem at?_append (t : Tree) (place below : Location) :
    t.at? (place ++ below) = (t.at? place).bind (·.at? below) := by
  induction place generalizing t with
  | nil => exact at?_eq t below
  | cons name names ih =>
      rw [List.cons_append, at?_cons, at?_cons, Option.bind_assoc]
      refine Option.bind_congr fun e _ => ?_
      cases e with
      | directory inside =>
          rw [← at?_eq, ← at?_eq]
          exact ih inside
      | file content => cases names <;> cases below <;> rfl

theorem item?_cons_of_directory {t : Tree} {name : Text} {inside : Tree}
    (h : t.find? name = some (.directory inside)) (names : Location) :
    t.item? (name :: names) = inside.item? names := by
  rw [item?, item?, at?_cons, h, at?_eq inside]
  rfl

theorem item?_put (t : Tree) (name : Text) (e : Entry) (first : Text) (others : Location) :
    (t.put name e).item? (first :: others) =
      if first = name then (e.at? others).map Entry.item else t.item? (first :: others) := by
  rw [item?, at?_cons, find?_put]
  split
  · rfl
  · rw [item?, at?_cons]

/-- A file stands in a directory, or deeper. -/
theorem find?_of_item?_cons {t : Tree} {name : Text} {names : Location} {content : Content}
    (h : t.item? (name :: names) = some (.file content)) :
    (t.find? name = some (.file content) ∧ names = []) ∨
      ∃ inside, t.find? name = some (.directory inside) ∧ names ≠ [] ∧
        inside.item? names = some (.file content) := by
  rw [item?, at?_cons] at h
  cases hfind : t.find? name with
  | none => rw [hfind] at h; cases h
  | some e =>
      rw [hfind] at h
      cases e with
      | file content' =>
          cases names with
          | nil => cases h; exact .inl ⟨rfl, rfl⟩
          | cons next names => cases h
      | directory inside =>
          cases names with
          | nil => cases h
          | cons next names => exact .inr ⟨inside, rfl, List.cons_ne_nil _ _, h⟩

/-- A file put in the place of a file changes nothing else. -/
theorem item?_putAt {t : Tree} {place : Location} {old : Content}
    (h : t.item? place = some (.file old)) (new : Content) (other : Location) :
    (t.putAt (.file new) place).item? other =
      if other = place then some (.file new) else t.item? other := by
  induction place generalizing t other with
  | nil => cases h
  | cons name names ih =>
      cases other with
      | nil => rfl
      | cons first others =>
          rcases find?_of_item?_cons h with ⟨hfind, rfl⟩ | ⟨inside, hfind, hne, hinside⟩
          · rw [putAt, item?_put]
            by_cases hfirst : first = name
            · subst hfirst
              cases others with
              | nil => simp [Entry.at?, Entry.item]
              | cons next others =>
                  rw [item?, at?_cons, hfind]
                  simp [Entry.at?]
            · simp [hfirst]
          · rw [putAt.eq_3 _ _ _ _ (by simpa using hne), item?_put, Tree.inside, hfind]
            by_cases hfirst : first = name
            · subst hfirst
              rw [if_pos rfl, ← at?_eq, ← item?, ih hinside, item?_cons_of_directory hfind]
              simp
            · simp [hfirst]

theorem item?_eq_directory_iff {t : Tree} {place : Location} :
    t.item? place = some .directory ↔ (t.item? place).map Item.isDirectory = some true := by
  cases t.item? place with
  | none => simp
  | some i => cases i <;> simp [Item.isDirectory]

/-- Two trees have the same directories, and files at the same locations. -/
def SameShape (t t' : Tree) : Prop :=
  ∀ place, (t'.item? place).map Item.isDirectory = (t.item? place).map Item.isDirectory

section SameShape

variable {t t' : Tree} (h : t.SameShape t')

include h

theorem SameShape.isSome_eq (place : Location) :
    (t'.item? place).isSome = (t.item? place).isSome := by
  have hplace := congrArg Option.isSome (h place)
  rwa [Option.isSome_map, Option.isSome_map] at hplace

theorem SameShape.directory_iff (place : Location) :
    t'.item? place = some .directory ↔ t.item? place = some .directory := by
  rw [item?_eq_directory_iff, item?_eq_directory_iff, h place]

end SameShape

theorem sameShape_putAt {t : Tree} {place : Location} {old : Content}
    (h : t.item? place = some (.file old)) (new : Content) :
    t.SameShape (t.putAt (.file new) place) := by
  intro other
  rw [item?_putAt h]
  split
  · next heq => rw [heq, h]; rfl
  · rfl

end Tree

/-! ## Paths -/

namespace Disk

theorem follow_cons (top : Tree) (place : Location) (part : Text) (parts : List Text) :
    follow top place (part :: parts) =
      if top.item? place = some .directory then
        if part = [] ∨ part = ['.'] then follow top place parts
        else if part = ['.', '.'] then follow top place.dropLast parts
        else if (top.item? (place ++ [part])).isSome then follow top (place ++ [part]) parts
        else .error .missing
      else .error .notDirectory := by
  rw [follow, Tree.item?, Tree.item?, Tree.at?_append]
  cases hat : top.at? place with
  | none => rfl
  | some e =>
      cases e with
      | file content => rfl
      | directory inside => simp [Entry.item, Entry.at?, Tree.at?]

/-- The directories decide where parts of a path lead. -/
theorem follow_of_sameShape {t t' : Tree} (h : t.SameShape t') (place : Location)
    (parts : List Text) : follow t' place parts = follow t place parts := by
  induction parts generalizing place with
  | nil => rfl
  | cons part parts ih =>
      simp only [follow_cons, h.directory_iff, h.isSome_eq, ih]

theorem locate_of_sameShape {d d' : Disk} (hhere : d'.here = d.here)
    (h : d.top.SameShape d'.top) (path : Text) : d'.locate path = d.locate path := by
  unfold locate
  split
  · rfl
  · exact follow_of_sameShape h _ _
  · rw [hhere]
    exact follow_of_sameShape h _ _

/-! ## Reading -/

/-- The item that a path leads to. -/
def item? (d : Disk) (path : Text) : Option Item := (d.locate path).toOption.bind d.top.item?

theorem item?_of_locate {d : Disk} {path : Text} {place : Location}
    (h : d.locate path = .ok place) : d.item? path = d.top.item? place := by
  rw [item?, h]
  rfl

/-- Reading goes where the path leads and takes what it finds. -/
theorem read_eq (d : Disk) (path : Text) :
    d.read path = (d.locate path).bind fun place => Item.read (d.top.item? place) := by
  rw [read, entry]
  cases d.locate path with
  | error f => rfl
  | ok place =>
      show _ = Item.read ((d.top.at? place).map Entry.item)
      cases hat : d.top.at? place with
      | none => simp [Except.bind, hat, Item.read]
      | some e =>
          cases e with
          | directory inside => simp [Except.bind, hat, Entry.item, Item.read]
          | file content => cases content <;> simp [Except.bind, hat, Entry.item, Item.read]

/-- A text is read where a path leads to a file that holds it. -/
theorem read_eq_ok_iff {d : Disk} {path t : Text} :
    d.read path = .ok t ↔ d.item? path = some (.file (.text t)) := by
  rw [read_eq, item?]
  cases d.locate path with
  | error f => constructor <;> intro h <;> cases h
  | ok place => exact Item.read_eq_ok_iff

/-- What is read depends on where the path leads and on what is there. -/
theorem read_congr {d d' : Disk} {path : Text} (hlocate : d'.locate path = d.locate path)
    (hitem : d'.item? path = d.item? path) : d'.read path = d.read path := by
  rw [item?, item?, hlocate] at hitem
  rw [read_eq, read_eq, hlocate]
  cases hplace : d.locate path with
  | error f => rfl
  | ok place =>
      rw [hplace] at hitem
      exact congrArg Item.read hitem

theorem locate_of_read {d : Disk} {path t : Text} (h : d.read path = .ok t) :
    ∃ place, d.locate path = .ok place ∧ d.top.item? place = some (.file (.text t)) := by
  have hitem := read_eq_ok_iff.mp h
  cases hplace : d.locate path with
  | error f => rw [item?, hplace] at hitem; cases hitem
  | ok place => exact ⟨place, rfl, (item?_of_locate hplace).symm.trans hitem⟩

/-! ## Writing -/

section Write

variable {d : Disk} {path : Text} {place : Location} {old : Content}
  (hplace : d.locate path = .ok place) (hfile : d.top.item? place = some (.file old)) (t : Text)

include hplace hfile

theorem item?_write (other : Location) :
    (d.write path t).top.item? other =
      if other = place then some (.file (.text t)) else d.top.item? other := by
  rw [write, hplace]
  exact Tree.item?_putAt hfile _ _

theorem locate_write (other : Text) : (d.write path t).locate other = d.locate other := by
  rw [write, hplace]
  exact locate_of_sameShape (by rfl) (Tree.sameShape_putAt hfile _) other

end Write

end Disk

end NativeHints.Files
