import NativeHints.Text.Blank
import NativeHints.Text.Word

/-!
# Tags of doc comments

A doc comment is free text with tags in it.  A *parameter tag* is `@param`, a
type and a variable, separated by white space; the variable may stand behind
`&` and `...`.  A *value tag* is a word such as `@return` and a type.  A type is
any run of characters other than white space.

Tags are found from left to right.  A reader is tried at every character, and
after a tag the search goes on behind it.
-/

namespace NativeHints

namespace Doc

/-- A parameter tag. -/
structure ParamTag where
  /-- The type as written. -/
  type : Text
  /-- The name of the variable, without the dollar sign. -/
  name : Text
deriving DecidableEq, Repr

/-- The text after one or more white space characters. -/
def afterBlanks? (t : Text) : Option Text :=
  match t with
  | [] => none
  | c :: rest => if Text.isBlank c then some (rest.dropWhile Text.isBlank) else none

/-- The longest non-empty beginning of characters in a class, and what follows. -/
def run? (p : Char → Bool) (t : Text) : Option (Text × Text) :=
  match t.takeWhile p with
  | [] => none
  | part => some (part, t.dropWhile p)

/-- A written type and what follows. -/
def typeRun? (t : Text) : Option (Text × Text) := run? (fun c => !Text.isBlank c) t

/-- A value tag at the start of a text: the type it gives and what follows. -/
def valueTag? (word t : Text) : Option (Text × Text) := do
  let t ← Text.strip? word t
  let t ← afterBlanks? t
  typeRun? t

/-- A text without the mark of a reference at its start. -/
def skipReference : Text → Text
  | '&' :: t => t.dropWhile Text.isBlank
  | t => t

/-- A text without the dots of a variadic parameter at its start. -/
def skipDots (t : Text) : Text := (Text.strip? "...".toList t).getD t

/-- The name of the variable at the start of a text, and what follows. -/
def dollarName? : Text → Option (Text × Text)
  | '$' :: t => run? Text.isWordChar t
  | _ => none

/-- A parameter tag at the start of a text, and what follows. -/
def paramTag? (t : Text) : Option (ParamTag × Text) := do
  let (type, t) ← valueTag? "@param".toList t
  let t ← afterBlanks? t
  let (name, t) ← dollarName? (skipDots (skipReference t))
  return (⟨type, name⟩, t)

/-- What a reader finds in a text, from left to right, for a number of steps. -/
def scan {α : Type} (read : Text → Option (α × Text)) : Nat → Text → List α
  | 0, _ => []
  | _ + 1, [] => []
  | n + 1, c :: t =>
      match read (c :: t) with
      | some (found, rest) => found :: scan read n rest
      | none => scan read n t

/-- All that a reader finds in a text. -/
def findAll {α : Type} (read : Text → Option (α × Text)) (t : Text) : List α :=
  scan read t.length t

/-- The parameter tags of a doc comment. -/
def paramTags (doc : Text) : List ParamTag := findAll paramTag? doc

/-- The types of the tags with the given word. -/
def valueTags (word doc : Text) : List Text := findAll (valueTag? word) doc

/-- Whether a doc comment defers to the one of the parent. -/
def isInherited (doc : Text) : Bool := Text.occursIn "\x7b@inheritdoc\x7d".toList doc.lower

end Doc

end NativeHints
