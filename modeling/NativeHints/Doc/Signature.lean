import NativeHints.Doc.Tag
import NativeHints.Doc.TypeText

/-!
# Types from doc comments

The signature that a doc comment gives to a function, and the type it gives to
a property.  Parameter tags are matched to parameters by name, and a tag whose
type has no hint counts as absent.
-/

namespace NativeHints

namespace Doc

/-- The parameter tags that have a hint, with it. -/
def typedParams (s : Scope) (enclosing : Option Enclosing) (doc : Text) :
    List (Text × HintType) :=
  (paramTags doc).filterMap fun tag =>
    (readType? s enclosing tag.type).map fun type => (tag.name, type)

/-- The type after the first `@return`. -/
def resultType? (s : Scope) (enclosing : Option Enclosing) (doc : Text) : Option HintType :=
  (valueTags "@return".toList doc).head?.bind (readType? s enclosing)

/-- The signature that a doc comment gives to a function with the named
parameters. -/
def signature (s : Scope) (enclosing : Option Enclosing) (params : List Text) (doc : Text) :
    Signature :=
  let typed := typedParams s enclosing doc
  ⟨params.map fun name => typed.lookup name, resultType? s enclosing doc⟩

/-- The type that a doc comment gives to a property.  Several `@var` tags leave it
open. -/
def propertyType? (s : Scope) (enclosing : Option Enclosing) (doc : Text) : Option HintType :=
  match valueTags "@var".toList doc with
  | [written] => readType? s enclosing written
  | _ => none

end Doc

end NativeHints
