import NativeHints.Scope.Basic
import NativeHints.Hint.Basic

/-!
# The shortest name of a class

A class can be named in several ways at a place: in full behind a backslash,
relative to the namespace, or through an import.  `shortest` takes, of those
spellings that really mean the class there, the one with the fewest bytes.
-/

namespace NativeHints

namespace Scope

/-- The spelling through one import, if the class is its target or lies below
it. -/
def throughAlias (name : Text) (a : Alias) : Option Text :=
  if name.Same a.target then some a.name
  else if name.lower.startsWith (a.target.lower ++ ['\\']) then
    some (a.name ++ name.drop a.target.length)
  else none

/-- The spelling relative to the namespace, if the class lies in it. -/
def throughSpace (s : Scope) (name : Text) : Option Text :=
  match s.space with
  | none => some name
  | some space =>
      if name.lower.startsWith (space.lower ++ ['\\']) then some (name.drop (space.length + 1))
      else none

/-- The spellings to choose from.  The first always means the class. -/
def candidates (s : Scope) (name : Text) : List Text :=
  ('\\' :: name) :: ((s.throughSpace name).toList ++ s.aliases.filterMap (throughAlias name))

/-- Whether a spelling means a class here. -/
def means (s : Scope) (name spelling : Text) : Bool :=
  spelling.startsWith ['\\'] || decide ((s.resolve spelling).Same name)

/-- The first of the shortest texts, given one to begin with. -/
def leastSize (best : Text) : List Text → Text
  | [] => best
  | t :: ts => leastSize (if t.size < best.size then t else best) ts

/-- The shortest spelling that means a class here. -/
def shortest (s : Scope) (name : Text) : Text :=
  let name := name.dropLeading '\\'
  leastSize ('\\' :: name) ((s.candidates name).filter (s.means name))

/-- A hint type as it is written here. -/
def display (s : Scope) (t : HintType) : Text :=
  let name := if t.isClass && !t.isRelative then s.shortest t.declared else t.declared
  if t.nullable then '?' :: name else name

end Scope

end NativeHints
