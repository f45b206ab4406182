import NativeHints.Text.Basic

/-!
# Patterns of paths

A pattern is a list of pieces.  A piece stands for one character, for any text, or
for any number of whole directories.  The slash is a character like others, also
for a single star.
-/

namespace NativeHints.Glob

/-- All characters from one to another. -/
structure CharRange where
  /-- The first one. -/
  first : Char
  /-- The last one. -/
  last : Char
deriving DecidableEq, Repr

/-- Whether some range has a character. -/
def anyHas (ranges : List CharRange) (c : Char) : Bool :=
  ranges.any fun r => r.first ≤ c && c ≤ r.last

/-- A piece of a pattern. -/
inductive Piece where
  /-- One given character. -/
  | char (c : Char)
  /-- Any one character. -/
  | any
  /-- One character of some ranges. -/
  | within (ranges : List CharRange)
  /-- One character outside all ranges. -/
  | outside (ranges : List CharRange)
  /-- Any text. -/
  | star
  /-- Any number of directories, or all the rest. -/
  | directories
deriving DecidableEq, Repr

/-- A pattern. -/
abbrev Pattern := List Piece

/-- All ends of a text, the longest first. -/
def ends : Text → List Text
  | [] => [[]]
  | c :: t => (c :: t) :: ends t

/-- The ends of a text that follow a slash, the longest first. -/
def endsAfterSlash : Text → List Text
  | [] => []
  | c :: t => if c = '/' then t :: endsAfterSlash t else endsAfterSlash t

namespace Piece

/-- Whether a piece for one character accepts it. -/
def accepts : Piece → Char → Bool
  | char c, d => c = d
  | any, _ => true
  | within ranges, c => anyHas ranges c
  | outside ranges, c => !anyHas ranges c
  | star, _ => false
  | directories, _ => false

end Piece

namespace Pattern

/-- Whether a pattern matches a whole text. -/
def isMatch : Pattern → Text → Bool
  | [], t => t.isEmpty
  | .star :: ps, t => (ends t).any (isMatch ps)
  | .directories :: ps, t =>
      isMatch ps t || (endsAfterSlash t).any (isMatch ps) || isMatch ps []
  | _ :: _, [] => false
  | p :: ps, c :: t => p.accepts c && isMatch ps t

end Pattern

end NativeHints.Glob
