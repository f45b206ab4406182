import NativeHints.Scope.Basic

/-!
# The outline of a file

The *outline* of a PHP file is what hints depend on: its namespaces, imports,
class-likes, function-likes, properties and trait uses, each with the byte
positions that an edit needs.  Everything else is left out.

An outline is a sequence of declarations.  Each constructor of `Outline` but
`empty` puts one declaration in front of the rest, and those with a body hold
an outline of it.  So functions on outlines are plain structural recursions.

Positions are taken as they are.  Nothing here requires them to lie in the
file or to be in order.
-/

namespace NativeHints

/-- A range of bytes. -/
structure Span where
  /-- Its first byte. -/
  start : Nat
  /-- The byte after its last. -/
  stop : Nat
deriving DecidableEq, Repr

/-- A hint that stands in the file. -/
structure WrittenHint where
  /-- Where it stands. -/
  span : Span
  /-- How it is written. -/
  text : Text
  /-- Where the next token or comment begins. -/
  next : Nat
deriving DecidableEq, Repr

/-- A parameter of a function-like. -/
structure Param where
  /-- Its name, without the dollar sign. -/
  name : Text
  /-- Where it stands, attributes and modifiers included. -/
  span : Span
  /-- Where a hint for it has to go. -/
  hintAt : Nat
  /-- The hint it has. -/
  hint : Option WrittenHint
  /-- Whether its default value is `null`. -/
  nullDefault : Bool
deriving DecidableEq, Repr

/-- The kinds of class-likes. -/
inductive ClassKind where
  | ordinary
  | interface
  | trait
  | enumeration
  | anonymous
deriving DecidableEq, Repr

/-- A class-like without its members. -/
structure ClassHead where
  /-- What it is. -/
  kind : ClassKind
  /-- Its name, as written. -/
  name : Option Text
  /-- Where it begins. -/
  start : Nat
  /-- The names after `extends`, as written. -/
  bases : List Text
  /-- The names after `implements`, as written. -/
  interfaces : List Text
deriving DecidableEq, Repr

/-- The kinds of function-likes. -/
inductive FunctionKind where
  | function
  | method
  | closure
  | arrow
deriving DecidableEq, Repr

/-- A function-like without its body. -/
structure FunctionHead where
  /-- What it is. -/
  kind : FunctionKind
  /-- Its name. -/
  name : Option Text
  /-- Where it begins. -/
  start : Nat
  /-- Its doc comment. -/
  doc : Option Text
  /-- Its parameters. -/
  params : List Param
  /-- Where the parameters, and the captured variables, end. -/
  signatureEnd : Option Nat
  /-- The result hint it has. -/
  result : Option WrittenHint
deriving DecidableEq, Repr

/-- One variable of a property declaration. -/
structure PropertyElement where
  /-- Its name, without the dollar sign. -/
  name : Text
  /-- Where it begins. -/
  start : Nat
deriving DecidableEq, Repr

/-- A property declaration. -/
structure Property where
  /-- Its doc comment. -/
  doc : Option Text
  /-- The hint it has. -/
  hint : Option WrittenHint
  /-- The variables it declares. -/
  elements : List PropertyElement
deriving DecidableEq, Repr

/-- A sequence of declarations. -/
inductive Outline where
  /-- No declaration. -/
  | empty
  /-- `namespace A;` -/
  | namespaceLine (name : Option Text) (rest : Outline)
  /-- `namespace A { … }` -/
  | namespaceBlock (name : Option Text) (body rest : Outline)
  /-- A `use` statement. -/
  | imports (clauses : List Import) (rest : Outline)
  /-- A class-like and its members. -/
  | classLike (head : ClassHead) (members rest : Outline)
  /-- A function-like and what its body declares. -/
  | functionLike (head : FunctionHead) (body rest : Outline)
  /-- A property declaration. -/
  | property (decl : Property) (rest : Outline)
  /-- The use of traits in a class. -/
  | traitUse (names : List Text) (rest : Outline)
deriving DecidableEq, Repr

namespace Outline

instance : Inhabited Outline := ⟨empty⟩

/-- One outline after another. -/
def append : Outline → Outline → Outline
  | empty, o => o
  | namespaceLine name rest, o => namespaceLine name (append rest o)
  | namespaceBlock name body rest, o => namespaceBlock name body (append rest o)
  | imports clauses rest, o => imports clauses (append rest o)
  | classLike head members rest, o => classLike head members (append rest o)
  | functionLike head body rest, o => functionLike head body (append rest o)
  | property decl rest, o => property decl (append rest o)
  | traitUse names rest, o => traitUse names (append rest o)

instance : Append Outline := ⟨append⟩

end Outline

/-- A file's outline, with what the place of `declare(strict_types=1)` depends
on. -/
structure FileOutline where
  /-- The first open tag. -/
  openTag : Option Span
  /-- The end of the line `#!…`, if the file begins with one. -/
  shebangEnd : Option Nat
  /-- Whether the file declares `strict_types` already. -/
  hasStrictTypes : Bool
  /-- The declarations. -/
  decls : Outline
deriving DecidableEq, Repr

namespace FileOutline

/-- Where a `strict_types` declaration may go: after a full open tag at the start of
the file or of its second line. -/
def strictTypesAt (f : FileOutline) : Option Nat :=
  match f.openTag with
  | none => none
  | some tag =>
      if tag.stop = tag.start + 5 ∧ (tag.start = 0 ∨ f.shebangEnd = some tag.start) then
        some tag.stop
      else none

end FileOutline

end NativeHints
