import NativeHints.Text.Blank
import NativeHints.Hint.Basic
import NativeHints.Scope.Basic

/-!
# Written types

The type of a doc tag is a union: alternatives between bars.  PHP has a native
hint for it only if, `null` aside, it has one alternative, or two that are an
array and `Traversable`.  `readType?` gives that hint, and nothing for any text
that it does not understand in full.
-/

namespace NativeHints

namespace Doc

/-- The class that a doc comment belongs to. -/
structure Enclosing where
  /-- What `self` means. -/
  name : Text
  /-- What `parent` means. -/
  parent : Option Text
deriving DecidableEq, Repr

/-! ## Names -/

/-- Whether a character may begin a segment of a name. -/
def isNameStart (c : Char) : Bool := c.isAlpha || c == '_' || 0x80 ≤ c.toNat

/-- Whether a character may stand inside a segment of a name. -/
def isNamePart (c : Char) : Bool := isNameStart c || c.isDigit

/-- Whether a text is one segment of a name. -/
def isSegment : Text → Bool
  | [] => false
  | c :: t => isNameStart c && t.all isNamePart

/-- Whether a text is a name: segments between backslashes, after one at the start
perhaps. -/
def isName (t : Text) : Bool :=
  match t with
  | '\\' :: rest => (Text.splitOn '\\' rest).all isSegment
  | t => (Text.splitOn '\\' t).all isSegment

/-- Names that no hint can express. -/
def rejectedNames : List Text :=
  ["mixed".toList, "void".toList, "static".toList, "resource".toList, "true".toList,
    "false".toList, "never".toList, "scalar".toList, "numeric".toList, "number".toList,
    "callback".toList]

/-- The names that a hint spells in its own way, each with that spelling. -/
def spellings : List (Text × Text) :=
  [("bool".toList, "bool".toList), ("boolean".toList, "bool".toList),
    ("int".toList, "int".toList), ("integer".toList, "int".toList),
    ("float".toList, "float".toList), ("double".toList, "float".toList),
    ("string".toList, "string".toList), ("array".toList, "array".toList),
    ("iterable".toList, "iterable".toList), ("object".toList, "object".toList),
    ("callable".toList, "callable".toList), ("self".toList, "self".toList),
    ("parent".toList, "parent".toList)]

/-! ## Unions -/

/-- Whether an alternative is written as a list of something. -/
def endsInBrackets (t : Text) : Bool :=
  match t.reverse with
  | ']' :: '[' :: _ => true
  | _ => false

/-- The hint name of a single alternative. -/
def nameOf? (s : Scope) (alternative : Text) : Option Text :=
  if endsInBrackets alternative then some "array".toList
  else if !isName alternative then none
  else if rejectedNames.contains alternative.lower then none
  else match spellings.lookup alternative.lower with
    | some spelling => some spelling
    | none => some (s.resolve alternative)

/-- Whether an alternative is an array. -/
def isArray (t : Text) : Bool := decide (t.Same "array".toList) || endsInBrackets t

/-- Whether an alternative is `Traversable`. -/
def isTraversable (t : Text) : Bool :=
  decide ((t.dropLeading '\\').Same "Traversable".toList)

/-- The hint name of a union without `null`. -/
def unionName? (s : Scope) : List Text → Option Text
  | [single] => nameOf? s single
  | [first, second] =>
      if (isArray first && isTraversable second) || (isTraversable first && isArray second) then
        some "iterable".toList
      else none
  | _ => none

/-- What a hint name means in a class. -/
def meaning (enclosing : Option Enclosing) (name : Text) : Text :=
  match enclosing with
  | none => name
  | some c =>
      if name = "self".toList then c.name
      else if name = "parent".toList then c.parent.getD name
      else name

/-- Whether an alternative is `null`. -/
def isNull (alternative : Text) : Bool := decide (alternative.Same "null".toList)

/-- The hint type of a written type, if it has one. -/
def readType? (s : Scope) (enclosing : Option Enclosing) (written : Text) : Option HintType :=
  let alternatives := Text.splitOn '|' (Text.trim written)
  (unionName? s (alternatives.filter (!isNull ·))).map fun name =>
    ⟨name, meaning enclosing name, alternatives.any isNull⟩

end Doc

end NativeHints
