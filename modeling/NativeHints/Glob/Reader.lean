import NativeHints.Error
import NativeHints.Glob.Basic

/-!
# Reading patterns

`?` is any character and `*` any text.  `**` is any number of directories, and
stands alone between slashes.  `[a-z_]` is one character of those given and
`[!a-z_]` one of the others.  There are no escapes.
-/

namespace NativeHints.Glob

/-- What is wrong with a pattern, and at which of its characters. -/
structure Fault where
  /-- The character, counted from zero. -/
  position : Nat
  /-- What is wrong. -/
  cause : PatternFault
deriving DecidableEq, Repr

/-- The ranges that stand between brackets.  A character alone is a range. -/
def ranges : Text → List CharRange
  | a :: '-' :: b :: t => ⟨a, b⟩ :: ranges t
  | a :: t => ⟨a, a⟩ :: ranges t
  | [] => []

/-- The text between brackets and the rest, from after the opening bracket and the sign of
negation.  The first character belongs to it even if it is a bracket. -/
def bracketed? : Text → Option (Text × Text)
  | [] => none
  | c :: t => (Text.splitAtFirst? ']' t).map fun (inner, rest) => (c :: inner, rest)

/-- The piece for brackets and the rest, from after the opening bracket. -/
def brackets? : Text → Option (Piece × Text)
  | '!' :: t => (bracketed? t).map fun (inner, rest) => (.outside (ranges inner), rest)
  | t => (bracketed? t).map fun (inner, rest) => (.within (ranges inner), rest)

/-- Reads a pattern from a character on.  `free` says that a directory may begin there:
it is the first character or follows a slash. -/
def readFrom : Nat → Nat → Bool → Text → Except Fault Pattern
  | _, _, _, [] => .ok []
  | 0, position, _, _ :: _ => .error ⟨position, .range⟩
  | _ + 1, position, _, '*' :: '*' :: '*' :: _ => .error ⟨position + 2, .wildcards⟩
  | _ + 1, position, false, '*' :: '*' :: _ => .error ⟨position - 1, .recursive⟩
  | n + 1, position, true, '*' :: '*' :: '/' :: t =>
      (readFrom n (position + 3) true t).map (.directories :: ·)
  | _ + 1, _, true, ['*', '*'] => .ok [.directories]
  | _ + 1, position, true, '*' :: '*' :: _ :: _ => .error ⟨position + 2, .recursive⟩
  | n + 1, position, _, '*' :: t => (readFrom n (position + 1) false t).map (.star :: ·)
  | n + 1, position, _, '?' :: t => (readFrom n (position + 1) false t).map (.any :: ·)
  | n + 1, position, _, '[' :: t =>
      match brackets? t with
      | none => .error ⟨position, .range⟩
      | some (piece, rest) =>
          (readFrom n (position + 1 + (t.length - rest.length)) false rest).map (piece :: ·)
  | n + 1, position, _, c :: t =>
      (readFrom n (position + 1) (c = '/') t).map (.char c :: ·)

/-- The pattern that a text denotes, or what is wrong with it. -/
def read (t : Text) : Except Fault Pattern := readFrom t.length 0 true t

end NativeHints.Glob
