import NativeHints.Files.Tree

/-!
# Disks

A disk is a directory tree with a current directory.  Paths are followed from the
current directory, or from the top if they start with a slash.  Each name on the
way must stand in a directory.
-/

namespace NativeHints.Files

/-- Why a path does not give what is wanted. -/
inductive Fault where
  /-- Nothing stands there. -/
  | missing
  /-- The path leads through a file. -/
  | notDirectory
  /-- A directory stands where a file should. -/
  | isDirectory
  /-- The file holds no text. -/
  | notText
deriving DecidableEq, Repr

namespace Fault

/-- The words for a fault. -/
def message : Fault → Text
  | missing => "No such file or directory (os error 2)".toList
  | notDirectory => "Not a directory (os error 20)".toList
  | isDirectory => "Is a directory (os error 21)".toList
  | notText => "stream did not contain valid UTF-8".toList

end Fault

/-- A directory tree and where one is in it. -/
structure Disk where
  /-- The whole tree. -/
  top : Tree
  /-- The current directory. -/
  here : Location
deriving DecidableEq, Repr

namespace Disk

/-- Where parts of a path lead from a directory.  Nothing and a point stay, and two
points go up. -/
def follow (top : Tree) (place : Location) : List Text → Except Fault Location
  | [] => .ok place
  | part :: parts =>
      match top.at? place with
      | some (.directory inside) =>
          if part = [] ∨ part = ['.'] then follow top place parts
          else if part = ['.', '.'] then follow top place.dropLast parts
          else if (inside.find? part).isSome then follow top (place ++ [part]) parts
          else .error .missing
      | _ => .error .notDirectory

/-- Where a path leads.  The empty path leads nowhere. -/
def locate (d : Disk) : Text → Except Fault Location
  | [] => .error .missing
  | '/' :: path => follow d.top [] (Text.splitOn '/' path)
  | path => follow d.top d.here (Text.splitOn '/' path)

/-- The entry at a path. -/
def entry (d : Disk) (path : Text) : Except Fault Entry :=
  (d.locate path).bind fun place =>
    match d.top.at? place with
    | some e => .ok e
    | none => .error .missing

/-- Whether a path leads to a directory. -/
def isDirectory (d : Disk) (path : Text) : Bool :=
  match d.entry path with
  | .ok (.directory _) => true
  | _ => false

/-- The text of the file at a path. -/
def read (d : Disk) (path : Text) : Except Fault Text :=
  (d.entry path).bind fun
    | .directory _ => .error .isDirectory
    | .file (.binary _) => .error .notText
    | .file (.text t) => .ok t

/-- The disk with a text written to the file that a path leads to. -/
def write (d : Disk) (path : Text) (t : Text) : Disk :=
  match d.locate path with
  | .ok place => { d with top := d.top.putAt (.file (.text t)) place }
  | .error _ => d

end Disk

end NativeHints.Files
