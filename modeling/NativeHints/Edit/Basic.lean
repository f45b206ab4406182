import NativeHints.Text.Basic

/-!
# Edits

An *edit* replaces a range of bytes of a text.  All edits of a list refer to the
positions of the text as it was, so they can be collected in any order.

`applyAll` puts them in order of position, those at one position in the order
in which they were given, and takes the text apart from left to right.  The
pieces between the edits are kept.  An edit must not begin before the end of
the one in front of it, must end inside the text, and must not cut a character
in two.

Positions and lengths are numbers of 64 bits, and sums and differences of them
wrap around.  This shows only in errors: the end of an edit that can be made is
a position of the text.
-/

namespace NativeHints

/-- The replacement of a range of bytes. -/
structure Edit where
  /-- Where the range begins. -/
  position : Nat
  /-- How many bytes it has. -/
  length : Nat
  /-- What takes its place. -/
  text : Text
deriving DecidableEq, Repr

/-- Why a list of edits cannot be applied. -/
inductive EditError where
  /-- An edit begins before the end of the one in front of it. -/
  | overlap (first second : Nat)
  /-- An edit ends after the text. -/
  | outOfBounds (position length sourceSize : Nat)
  /-- An edit begins or ends inside a character. -/
  | notBoundary (position : Nat)
deriving DecidableEq, Repr

namespace EditError

/-- The words for an edit error. -/
def message : EditError → Text
  | overlap first second =>
      "Edit at byte ".toList ++ Text.ofNat second ++ " overlaps the edit at byte ".toList ++
        Text.ofNat first
  | outOfBounds position length sourceSize =>
      "Edit at byte ".toList ++ Text.ofNat position ++ " (length ".toList ++ Text.ofNat length ++
        ") exceeds source length ".toList ++ Text.ofNat sourceSize
  | notBoundary position =>
      "Edit boundary at byte ".toList ++ Text.ofNat position ++
        " splits a UTF-8 character".toList

end EditError

namespace Edit

/-- The edit that puts a text at a position. -/
def insert (position : Nat) (text : Text) : Edit := ⟨position, 0, text⟩

/-- The edit that deletes a range. -/
def delete (position length : Nat) : Edit := ⟨position, length, []⟩

/-- The edit that deletes what lies between two positions.  If they are the wrong way round,
the length wraps around. -/
def deleteRange (start stop : Nat) : Edit :=
  .delete start (if start ≤ stop then stop - start else stop + UInt64.size - start)

/-- Where the replaced range ends. -/
def stop (e : Edit) : Nat := e.position + e.length

/-- The end of the replaced range as it is computed. -/
def computedStop (e : Edit) : Nat := (e.position + e.length) % UInt64.size

/-- An edit put in front of the first one that does not begin before it. -/
def insertSorted (e : Edit) : List Edit → List Edit
  | [] => [e]
  | f :: fs => if f.position < e.position then f :: insertSorted e fs else e :: f :: fs

/-- Edits in order of position, otherwise in the given order. -/
def sort : List Edit → List Edit
  | [] => []
  | e :: es => insertSorted e (sort es)

/-- What an edit leaves of a text whose first byte has the given position: the
piece in front of the replaced range, and the rest behind it. -/
def takeApart (e : Edit) (cursor : Nat) (t : Text) : Except EditError (Text × Text) :=
  match t.cut? (e.position - cursor) with
  | none => .error (.notBoundary e.position)
  | some (piece, t) =>
      match t.cut? e.length with
      | none => .error (.notBoundary e.computedStop)
      | some (_, rest) => .ok (piece, rest)

/-- The new text from a position on, by edits in order.  `last` is where the edit in
front begins. -/
def applyFrom (sourceSize last cursor : Nat) (t : Text) : List Edit → Except EditError Text
  | [] => .ok t
  | e :: es =>
      if e.position < cursor then .error (.overlap last e.position)
      else if sourceSize < e.computedStop then
        .error (.outOfBounds e.position e.length sourceSize)
      else
        match e.takeApart cursor t with
        | .error problem => .error problem
        | .ok (piece, rest) =>
            -- The range has been cut out of the text, so its end has not wrapped around.
            match applyFrom sourceSize e.position e.stop rest es with
            | .error problem => .error problem
            | .ok done => .ok (piece ++ (e.text ++ done))

/-- The text after all edits. -/
def applyAll (source : Text) (edits : List Edit) : Except EditError Text :=
  applyFrom source.size 0 0 source (sort edits)

example :
    applyAll "f($a, $b)".toList [insert 6 "int ".toList, insert 2 "?A ".toList, delete 4 1] =
      .ok "f(?A $a int $b)".toList := by
  rfl

end Edit

end NativeHints
