import NativeHints.Text.Blank
import NativeHints.Hint.Basic
import NativeHints.Outline.Basic
import NativeHints.Error

/-!
# Removals

Removing goes back to what PHP 5 understands.  Result hints go, with the colon,
from the end of the parameters on.  Scalar hints of parameters go, up to the
next token.  Other hints of parameters stay, but `?` goes from one whose
parameter has the default `null`.
-/

namespace NativeHints

namespace WrittenHint

/-- Whether the hint begins with a question mark. -/
def isNullable (h : WrittenHint) : Bool := h.text.startsWith ['?']

/-- Whether the hint is a scalar one, nullable or not. -/
def isScalar (h : WrittenHint) : Bool :=
  (Text.trim (h.text.dropLeading '?')).isOneOf HintType.scalarKinds

end WrittenHint

namespace Removal

/-- The removal from a parameter. -/
def ofParam (p : Param) : List Edit :=
  match p.hint with
  | none => []
  | some h =>
      if h.isScalar then [.deleteRange h.span.start h.next]
      else if h.isNullable && p.nullDefault then [.delete h.span.start 1]
      else []

/-- The removal of the result hint. -/
def ofResult (path : Text) (f : FunctionHead) : Except Error (List Edit) :=
  match f.result, f.signatureEnd with
  | none, _ => .ok []
  | some h, some start => .ok [.deleteRange start h.span.stop]
  | some _, none => .error (.missingDelimiter path f.start)

/-- The removals from a function-like, without its body. -/
def ofFunction (path : Text) (f : FunctionHead) : Except Error (List Edit) := do
  let result ← ofResult path f
  return result ++ f.params.flatMap ofParam

/-- The removals from an outline. -/
def plan (path : Text) : Outline → Except Error (List Edit)
  | .empty => .ok []
  | .namespaceLine _ rest => plan path rest
  | .namespaceBlock _ body rest => do
      let inner ← plan path body
      let outer ← plan path rest
      return inner ++ outer
  | .imports _ rest => plan path rest
  | .classLike _ members rest => do
      let inner ← plan path members
      let outer ← plan path rest
      return inner ++ outer
  | .functionLike head body rest => do
      let own ← ofFunction path head
      let inner ← plan path body
      let outer ← plan path rest
      return own ++ inner ++ outer
  | .property _ rest => plan path rest
  | .traitUse _ rest => plan path rest

end Removal

/-- The source of a file with hints removed. -/
def stripHints (path source : Text) (f : FileOutline) : Except Error Text := do
  let removals ← Removal.plan path f.decls
  (Edit.applyAll source removals).mapError Error.edit

end NativeHints
