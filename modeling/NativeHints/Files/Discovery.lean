import NativeHints.Files.Disk
import NativeHints.Glob.Reader

/-!
# Finding PHP files

All files below the given roots whose names end in `.php`, in any case, are found,
root by root and in the order of their names, with the content of a directory in
its place.  Left out are those whose path below the root matches a pattern.
-/

namespace NativeHints.Files

/-- A file below a root. -/
structure Found where
  /-- The path through the root. -/
  path : Text
  /-- The names below the root. -/
  below : Location
  /-- The name of the file. -/
  name : Text
deriving DecidableEq, Repr

/-- A name added to a path. -/
def join (path name : Text) : Text :=
  if path.getLast? = some '/' then path ++ name else path ++ '/' :: name

namespace Tree

/-- The directory with its entries in the order of their names, and all directories in it as
well. -/
def sorted : Tree → Tree
  | empty => empty
  | file name content rest => rest.sorted.put name (.file content)
  | directory name inside rest => rest.sorted.put name (.directory inside.sorted)

/-- All files of a directory, given its path and the names below the root. -/
def walk (path : Text) (below : Location) : Tree → List Found
  | empty => []
  | file name _ rest => ⟨join path name, below ++ [name], name⟩ :: walk path below rest
  | directory name inside rest =>
      walk (join path name) (below ++ [name]) inside ++ walk path below rest

end Tree

/-- What follows the last point of a name, unless the name starts with that point. -/
def extension? (name : Text) : Option Text :=
  let last := Text.afterLast '.' name
  if last.length + 1 < name.length then some last else none

namespace Found

/-- Whether the name is that of a PHP file. -/
def isPhp (f : Found) : Bool :=
  match extension? f.name with
  | some e => Text.Same e "php".toList
  | none => false

/-- The path below the root. -/
def relative (f : Found) : Text := ['/'].intercalate f.below

/-- Whether the file counts. -/
def isWanted (exclude : List Glob.Pattern) (f : Found) : Bool :=
  f.isPhp && !exclude.any fun p => p.isMatch f.relative

end Found

/-- The patterns that texts denote, or the error for the first that denotes none. -/
def readPatterns (texts : List Text) : Except Error (List Glob.Pattern) :=
  texts.mapM fun t =>
    match Glob.read t with
    | .ok p => .ok p
    | .error f => .error (.configuration (.pattern t f.position f.cause))

/-- Whether a path is a lone dash, which names no file. -/
def isDash (path : Text) : Bool :=
  match Text.splitOn '/' path with
  | ['-'] :: rest => rest.all fun part => part = [] ∨ part = ['.']
  | _ => false

namespace Disk

/-- All files at and below a root. -/
def filesUnder (d : Disk) (root : Text) : Except Error (List Found) :=
  if isDash root then .ok []
  else match d.entry root with
    | .ok (.directory inside) => .ok (inside.sorted.walk root [])
    | .ok (.file _) => .ok [⟨root, [], Text.afterLast '/' root⟩]
    | .error f =>
        .error (.io root (root ++ ": IO error for operation on ".toList ++ root
          ++ ": ".toList ++ f.message))

/-- The PHP files under one root. -/
def phpFilesUnder (d : Disk) (exclude : List Text) (root : Text) : Except Error (List Text) := do
  let patterns ← readPatterns exclude
  let found ← d.filesUnder root
  return (found.filter (Found.isWanted patterns)).map Found.path

/-- The PHP files under all roots. -/
def phpFiles (d : Disk) (roots exclude : List Text) : Except Error (List Text) :=
  (roots.mapM (d.phpFilesUnder exclude)).map List.flatten

end Disk

end NativeHints.Files
