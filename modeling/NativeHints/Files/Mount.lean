import NativeHints.Files.Disk

/-!
# Mounting

A disk can be built from parts.  An entry is mounted at a path together with the
directories that the path passes through, so the path leads to it afterwards.
-/

namespace NativeHints.Files.Disk

/-- The tree with an entry at a location.  At the top a directory takes the place of the
whole. -/
def settle (top : Tree) (e : Entry) : Location → Tree
  | [] =>
      match e with
      | .directory inside => inside
      | .file _ => top
  | place => top.putAt e place

/-- The tree with an entry mounted where parts of a path lead from a location. -/
def mountFrom (e : Entry) (top : Tree) (place : Location) : List Text → Tree
  | [] => settle top e place
  | part :: parts =>
      if part = [] ∨ part = ['.'] then mountFrom e top place parts
      else if part = ['.', '.'] then mountFrom e (top.makeAt place) place.dropLast parts
      else mountFrom e (top.makeAt place) (place ++ [part]) parts

/-- The disk with an entry mounted at a path. -/
def mount (d : Disk) (e : Entry) : Text → Disk
  | '/' :: path => { d with top := mountFrom e d.top [] (Text.splitOn '/' path) }
  | path => { d with top := mountFrom e d.top d.here (Text.splitOn '/' path) }

/-- The files that differ from those of another disk, with their locations. -/
def changes (before after : Disk) : List (Location × Content) :=
  after.top.files.filter fun (place, content) => before.top.at? place ≠ some (.file content)

end NativeHints.Files.Disk
