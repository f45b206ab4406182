import NativeHints.Insertion.Basic
import NativeHints.Hierarchy.Search
import NativeHints.Hierarchy.Collect
import NativeHints.Error

/-!
# The insertions of a file

Planning goes through the outline of a file with the scope in effect and the
classes around, innermost first.  Methods have the effective signature of the
hierarchy, and all other function-likes what their own doc comment says.  The
plan is a list of insertions in the order of the outline.

A plan fails if a result hint is due for a function-like whose parameters do
not end anywhere.
-/

namespace NativeHints

namespace Insertion

/-- What a plan depends on besides the outline. -/
structure Context where
  /-- The hierarchy of the code base. -/
  graph : Graph
  /-- What may be inserted. -/
  options : Options
  /-- The file. -/
  path : Text

/-- The signature of a function-like with the given classes around. -/
def signatureFor (c : Context) (s : Scope) (classes : List Text) (f : FunctionHead) :
    Option Signature :=
  match f.kind with
  | .method => do
      let around ← classes.head?
      let name ← f.name
      c.graph.signature? around name
  | _ => do
      let doc ← f.doc
      if Doc.isInherited doc then none
      else some (Doc.signature s none (f.params.map Param.name) doc)

/-- The insertion for the result of a function-like. -/
def ofResult (c : Context) (s : Scope) (classes : List Text) (f : FunctionHead)
    (type : Option HintType) : Except Error (List Insertion) :=
  match f.result, type with
  | none, some t =>
      match resultType? c.options (!classes.isEmpty) t, f.signatureEnd with
      | none, _ => .ok []
      | some t, some position => .ok [.result position t (s.display t)]
      | some _, none => .error (.missingDelimiter c.path f.start)
  | _, _ => .ok []

/-- The insertions for a function-like, without its body. -/
def ofFunction (c : Context) (s : Scope) (classes : List Text) (f : FunctionHead) :
    Except Error (List Insertion) :=
  match signatureFor c s classes f with
  | none => .ok []
  | some signature => do
      let result ← ofResult c s classes f signature.result
      return ofParams c.options (!classes.isEmpty) s f.params signature.params ++ result

/-- The insertion for a property declaration. -/
def ofProperty (c : Context) (s : Scope) (classes : List Text) (p : Property) :
    List Insertion :=
  match p.hint, p.elements, classes with
  | none, [element], around :: _ =>
      match (c.graph.property? around element.name).bind (propertyType? c.options true) with
      | some t => [.property element.start t (s.display t)]
      | none => []
  | _, _, _ => []

/-- The insertions for an outline, and the scope after it. -/
def plan (c : Context) : Outline → Scope → List Text → Except Error (List Insertion × Scope)
  | .empty, s, _ => .ok ([], s)
  | .namespaceLine name rest, s, classes => plan c rest (s.enter name) classes
  | .namespaceBlock name body rest, s, classes => do
      let (inner, s) ← plan c body (s.enter name) classes
      let (outer, s) ← plan c rest (s.enter none) classes
      return (inner ++ outer, s)
  | .imports clauses rest, s, classes => plan c rest (s.importAll clauses) classes
  | .classLike head members rest, s, classes => do
      let (inner, s) ← plan c members s (head.key c.path s :: classes)
      let (outer, s) ← plan c rest s classes
      return (inner ++ outer, s)
  | .functionLike head body rest, s, classes => do
      let own ← ofFunction c s classes head
      let (inner, s) ← plan c body s classes
      let (outer, s) ← plan c rest s classes
      return (own ++ inner ++ outer, s)
  | .property decl rest, s, classes => do
      let (outer, after) ← plan c rest s classes
      return (ofProperty c s classes decl ++ outer, after)
  | .traitUse _ rest, s, classes => plan c rest s classes

/-- The declaration of `strict_types`, if it is wanted and has a place. -/
def ofFile (options : Options) (f : FileOutline) : List Insertion :=
  if options .strictTypes && !f.hasStrictTypes then
    (f.strictTypesAt.map Insertion.strictTypes).toList
  else []

/-- All insertions for a file. -/
def planFile (c : Context) (f : FileOutline) : Except Error (List Insertion) := do
  let (hints, _) ← plan c f.decls .start []
  return ofFile c.options f ++ hints

end Insertion

/-- The source of a file with hints added. -/
def addHints (c : Insertion.Context) (source : Text) (f : FileOutline) : Except Error Text := do
  let insertions ← Insertion.planFile c f
  (Edit.applyAll source (insertions.map Insertion.edit)).mapError Error.edit

end NativeHints
