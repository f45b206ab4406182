import NativeHints.Text.Blank
import NativeHints.Text.Number

/-!
# PHP versions

A version is a major and a minor number of 32 bits each.  It is read from a text
such as `7`, `7.1` or `8.0.3`: white space around it is dropped, and so is
everything after a second point.
-/

namespace NativeHints

/-- A release of PHP. -/
structure Version where
  /-- The number before the point. -/
  major : Nat
  /-- The number after it. -/
  minor : Nat
deriving DecidableEq, Repr

namespace Version

/-- The version that is meant when none is given. -/
def standard : Version := ⟨7, 2⟩

/-- Versions are ordered by their major number first. -/
def compare (a b : Version) : Ordering :=
  (Ord.compare a.major b.major).then (Ord.compare a.minor b.minor)

/-- Whether a version comes no earlier than another. -/
def atLeast (v w : Version) : Bool := v.compare w != .lt

/-- A version as text. -/
def toText (v : Version) : Text := Text.ofNat v.major ++ '.' :: Text.ofNat v.minor

/-- The numbers of 32 bits are those below this one. -/
def partBound : Nat := 4294967296

/-- A number of 32 bits. -/
def part? (t : Text) : Option Nat := Text.number? partBound t

/-- The version that a text denotes. -/
def ofText? (t : Text) : Option Version :=
  match Text.splitOn '.' (Text.trim t) with
  | [] => none
  | [major] => (part? major).map fun m => ⟨m, 0⟩
  | major :: minor :: _ =>
      (part? major).bind fun m => (part? minor).map fun n => ⟨m, n⟩

end Version

end NativeHints
