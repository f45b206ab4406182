import NativeHints.Php.Grammar.Statement
import NativeHints.Outline.Basic
import NativeHints.Text.Blank

/-!
# Outlines of PHP files

The outline of a file is read off its forest.  Function-likes and class-likes
become declarations, and so do properties, imports, namespaces and the uses of
traits.  Everything else is searched for declarations inside it.  Not searched
are the heads of function-likes and class-likes, properties, imports and the
uses of traits.

A comment in front of a construct belongs to the largest construct that begins
there.  So a function-like or a property has the doc comment in front of it if
it is not the first thing in the construct around it.
-/

namespace NativeHints

namespace Php

namespace Forest

/-! ## Heads -/

/-- The text of the first node of a kind. -/
def textOf? (k : NodeKind) (f : Forest) : Option Text := (f.child? k).map text

/-- The texts of all names in the first node of a kind. -/
def namesIn (k : NodeKind) (f : Forest) : List Text :=
  ((f.child? k).map fun g => (g.childrenOf .name).map text).getD []

/-- The hint among children.  The next token is that of whatever follows it. -/
def hint? : Forest → Option WrittenHint
  | nil => none
  | leaf _ rest => hint? rest
  | node k children rest =>
      if k = .hint then
        some ⟨⟨children.start, children.stop⟩, children.text,
          (rest.first?.map Token.outerStart).getD children.stop⟩
      else hint? rest

/-- The name of the variable among children, without the dollar sign. -/
def variableName (f : Forest) : Text := ((f.textOf? .variable).getD []).dropLeading '$'

/-- Where the variable begins, or a mark in front of it. -/
def hintPosition : Forest → Nat
  | nil => 0
  | leaf t rest => if t.text = "&".toList ∨ t.text = "...".toList then t.start else hintPosition rest
  | node k children rest => if k = .variable then children.start else hintPosition rest

/-- Whether a default value is `null`, in any case and with backslashes in front
perhaps. -/
def isNull (f : Forest) : Bool :=
  decide (((Text.trim f.text).dropLeading '\\').Same "null".toList)

/-- A parameter. -/
def param (f : Forest) : Param :=
  ⟨f.variableName, ⟨f.start, f.stop⟩, f.hintPosition, f.hint?,
    ((f.child? .default).map isNull).getD false⟩

/-- The parameters of a function-like. -/
def params (f : Forest) : List Param :=
  ((f.child? .params).map fun g => (g.childrenOf .param).map param).getD []

/-- The head of a function-like with the given doc comment. -/
def functionHead (f : Forest) (kind : FunctionKind) (doc : Option Text) : FunctionHead :=
  ⟨kind, f.textOf? .name, f.start, doc, f.params,
    ((f.child? .captures).or (f.child? .params)).map stop, f.hint?⟩

/-- The head of a class-like. -/
def classHead (f : Forest) (kind : ClassKind) : ClassHead :=
  ⟨kind, f.textOf? .name, f.start, f.namesIn .bases, f.namesIn .interfaces⟩

/-- A property declaration with the given doc comment. -/
def property (f : Forest) (doc : Option Text) : Property :=
  ⟨doc, f.hint?, (f.childrenOf .element).map fun e =>
    ⟨e.variableName, ((e.child? .variable).map start).getD 0⟩⟩

/-! ## Imports -/

/-- What a word says to be imported. -/
def importKindOf? (t : Text) : Option ImportKind :=
  if t.Same "function".toList then some .functions
  else if t.Same "const".toList then some .constants
  else none

/-- What the first child that is such a word says to be imported. -/
def importKind? : Forest → Option ImportKind
  | nil => none
  | leaf t rest => (importKindOf? t.text).or (importKind? rest)
  | node _ children rest => (importKindOf? children.text).or (importKind? rest)

/-- One clause of an import.  Without an alias the last segment of the name is it. -/
def importClause (kind : ImportKind) (start : Option Text) (f : Forest) : Import :=
  let last := ((f.textOf? .name).getD []).dropLeading '\\'
  let name := match start with
    | some start => start ++ '\\' :: last
    | none => last
  ⟨(f.importKind?).getD kind, name, (f.textOf? .aliasName).getD (name.afterLast '\\')⟩

/-- The clauses of a `use` statement. -/
def imports (f : Forest) : List Import :=
  let start := (f.textOf? .start).map fun t => (t.dropLeading '\\').dropTrailing '\\'
  (f.childrenOf .clause).map (importClause (f.importKind?.getD .classes) start)

/-! ## Outlines -/

/-- Where to look for declarations among the children of a construct. -/
inductive Search where
  /-- Everywhere. -/
  | everywhere
  /-- Inside the nodes of a kind. -/
  | inside (kind : NodeKind)
  /-- Behind the arrow of an arrow function. -/
  | behindArrow
deriving DecidableEq, Repr

/-- The doc comment in front of a construct that is not the first one. -/
def doc? (isFirst : Bool) (f : Forest) : Option Text :=
  if isFirst then none else f.first?.bind Token.doc?

/-- The declarations of a forest.  The flag says whether it is the beginning of the
construct around it. -/
def outline (isFirst : Bool) : Search → Forest → Outline
  | _, nil => .empty
  | .behindArrow, leaf t rest =>
      outline false (if t.text = "=>".toList then .everywhere else .behindArrow) rest
  | search, leaf _ rest => outline false search rest
  | .behindArrow, node _ _ rest => outline false .behindArrow rest
  | .inside kind, node k children rest =>
      if k = kind then outline true .everywhere children ++ outline false (.inside kind) rest
      else outline false (.inside kind) rest
  | .everywhere, node k children rest =>
      let here : Outline :=
        match k with
        | .namespaceLine =>
            .namespaceLine ((children.textOf? .name).map (Text.dropLeading '\\')) .empty
        | .namespaceBlock =>
            .namespaceBlock ((children.textOf? .name).map (Text.dropLeading '\\'))
              (outline true (.inside .block) children) .empty
        | .imports => .imports children.imports .empty
        | .ordinaryClass =>
            .classLike (children.classHead .ordinary) (outline true (.inside .members) children)
              .empty
        | .interface =>
            .classLike (children.classHead .interface) (outline true (.inside .members) children)
              .empty
        | .trait =>
            .classLike (children.classHead .trait) (outline true (.inside .members) children)
              .empty
        | .enumeration =>
            .classLike (children.classHead .enumeration)
              (outline true (.inside .members) children) .empty
        | .anonymousClass =>
            .classLike (children.classHead .anonymous) (outline true (.inside .members) children)
              .empty
        | .function =>
            .functionLike (children.functionHead .function (children.doc? isFirst))
              (outline true (.inside .block) children) .empty
        | .method =>
            .functionLike (children.functionHead .method (children.doc? isFirst))
              (outline true (.inside .block) children) .empty
        | .closure =>
            .functionLike (children.functionHead .closure (children.doc? isFirst))
              (outline true (.inside .block) children) .empty
        | .arrow =>
            .functionLike (children.functionHead .arrow (children.doc? isFirst))
              (outline true .behindArrow children) .empty
        | .property => .property (children.property (children.doc? isFirst)) .empty
        | .traitUse => .traitUse ((children.childrenOf .name).map text) .empty
        | _ => outline true .everywhere children
      here ++ outline false .everywhere rest

/-- Whether a forest has a `declare` statement with `strict_types` in its text. -/
def hasStrictTypes (f : Forest) : Bool :=
  (f.childrenOf .declare).any fun g => Text.occursIn "strict_types".toList g.text.lower

/-- The open tag at the start of a forest. -/
def openTag? (f : Forest) : Option Span :=
  match f.first? with
  | some t => if t.piece.kind = .openTag then some ⟨t.start, t.stop⟩ else none
  | none => none

end Forest

/-- The end of the first line, if it begins with `#!` and is not the last. -/
def shebangEnd? (source : Text) : Option Nat :=
  if source.startsWith "#!".toList then
    (source.splitAtFirst? '\n').map fun (line, _) => line.size + 1
  else none

/-- The outline of a file, read off its forest. -/
def Forest.fileOutline (source : Text) (f : Forest) : FileOutline :=
  ⟨f.openTag?, shebangEnd? source, f.hasStrictTypes, f.outline true .everywhere⟩

/-- The outline of a PHP file, if it parses. -/
def outline? (source : Text) : Option FileOutline := (forest? source).map (·.fileOutline source)

end Php

end NativeHints
