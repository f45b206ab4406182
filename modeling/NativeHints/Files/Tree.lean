import NativeHints.Text.Basic

/-!
# Directory trees

A directory holds files and directories under names.  They stand in increasing
order of their names, and putting an entry keeps this order.
-/

namespace NativeHints.Files

/-- What a file holds. -/
inductive Content where
  /-- A text. -/
  | text (t : Text)
  /-- Bytes that are no text. -/
  | binary (bytes : List UInt8)
deriving DecidableEq, Repr

namespace Content

/-- What bytes say: the text that they encode, if they encode one. -/
def ofBytes (bytes : List UInt8) : Content :=
  match String.fromUTF8? (ByteArray.mk bytes.toArray) with
  | some s => text s.toList
  | none => binary bytes

end Content

/-- What a directory holds. -/
inductive Tree where
  /-- Nothing. -/
  | empty
  /-- A file and more. -/
  | file (name : Text) (content : Content) (rest : Tree)
  /-- A directory and more. -/
  | directory (name : Text) (inside : Tree) (rest : Tree)
deriving DecidableEq, Repr, Inhabited

/-- What stands under a name. -/
inductive Entry where
  /-- A file. -/
  | file (content : Content)
  /-- A directory. -/
  | directory (inside : Tree)
deriving DecidableEq, Repr

/-- The names that lead from a directory to an entry. -/
abbrev Location := List Text

namespace Tree

/-- The entry under a name. -/
def find? (name : Text) : Tree → Option Entry
  | empty => none
  | file n content rest => if name = n then some (.file content) else find? name rest
  | directory n inside rest => if name = n then some (.directory inside) else find? name rest

/-- An entry in front of others. -/
def push (name : Text) : Entry → Tree → Tree
  | .file content, rest => file name content rest
  | .directory inside, rest => directory name inside rest

/-- The directory with an entry put under a name, in place of the one it had. -/
def put (name : Text) (e : Entry) : Tree → Tree
  | empty => push name e empty
  | file n content rest =>
      if name = n then push name e rest
      else if name < n then push name e (file n content rest)
      else file n content (put name e rest)
  | directory n inside rest =>
      if name = n then push name e rest
      else if name < n then push name e (directory n inside rest)
      else directory n inside (put name e rest)

/-- What the directory under a name holds.  It is empty if there is none. -/
def inside (t : Tree) (name : Text) : Tree :=
  match t.find? name with
  | some (.directory d) => d
  | _ => empty

/-- The entry at a location. -/
def at? (t : Tree) : Location → Option Entry
  | [] => some (.directory t)
  | [name] => t.find? name
  | name :: names =>
      match t.find? name with
      | some (.directory d) => d.at? names
      | _ => none

/-- The directory with an entry put at a location.  Directories on the way are made. -/
def putAt (t : Tree) (e : Entry) : Location → Tree
  | [] => t
  | [name] => t.put name e
  | name :: names => t.put name (.directory ((t.inside name).putAt e names))

/-- The directory with a directory made at a location, unless it is there. -/
def makeAt (t : Tree) (names : Location) : Tree :=
  match t.at? names with
  | some (.directory _) => t
  | _ => t.putAt (.directory empty) names

/-- All files with their locations, below a location, in order. -/
def filesBelow (above : Location) : Tree → List (Location × Content)
  | empty => []
  | file name content rest => (above ++ [name], content) :: filesBelow above rest
  | directory name inside rest => filesBelow (above ++ [name]) inside ++ filesBelow above rest

/-- All files with their locations, in order. -/
def files (t : Tree) : List (Location × Content) := t.filesBelow []

/-- What is found after an entry has been put. -/
theorem find?_put (name other : Text) (e : Entry) (t : Tree) :
    find? other (put name e t) = if other = name then some e else find? other t := by
  have pushed : ∀ rest, find? other (push name e rest) =
      if other = name then some e else find? other rest := by
    intro rest
    cases e <;> rfl
  induction t with
  | empty => exact pushed empty
  | file n content rest ih =>
      unfold put
      split
      · next h => subst h; simp only [pushed, find?]; split <;> rfl
      · next hne =>
        split
        · simp only [pushed]
        · simp only [find?, ih]
          by_cases h : other = n
          · rw [if_pos h, if_neg fun e => hne (e.symm.trans h)]
            exact (if_pos h).symm
          · simp [h]
  | directory n inner rest _ ih =>
      unfold put
      split
      · next h => subst h; simp only [pushed, find?]; split <;> rfl
      · next hne =>
        split
        · simp only [pushed]
        · simp only [find?, ih]
          by_cases h : other = n
          · rw [if_pos h, if_neg fun e => hne (e.symm.trans h)]
            exact (if_pos h).symm
          · simp [h]

end Tree

end NativeHints.Files
