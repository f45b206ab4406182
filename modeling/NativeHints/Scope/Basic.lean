import NativeHints.Text.Basic

/-!
# Name scopes

A *scope* is what decides the meaning of a class name at a place in a file: the
namespace in effect and the class imports made since it was entered.  A class
name is fully qualified when it stands without its leading backslash.

`resolve` reads a name as it is written, in this order.

* A leading backslash is dropped and the rest is the answer.
* `self`, `parent` and `static` stand for themselves.
* `namespace\rest` is `rest` in the current namespace.
* A first segment that is an alias is replaced by what it imports.
* Any other name is put into the current namespace.
-/

namespace NativeHints

/-- What a `use` statement imports. -/
inductive ImportKind where
  | classes
  | functions
  | constants
deriving DecidableEq, Repr

/-- One clause of a `use` statement. -/
structure Import where
  /-- What is imported. -/
  kind : ImportKind
  /-- The full name of it. -/
  name : Text
  /-- The name it has in this file. -/
  shortName : Text
deriving DecidableEq, Repr

/-- A class import: the alias, and the fully qualified name it stands for. -/
structure Alias where
  /-- The name in this file. -/
  name : Text
  /-- What it stands for. -/
  target : Text
deriving DecidableEq, Repr

/-- The names in effect at a place of a file. -/
structure Scope where
  /-- The current namespace. -/
  space : Option Text
  /-- The class imports, oldest first.  No two have the same alias. -/
  aliases : List Alias
deriving DecidableEq, Repr

namespace Scope

/-- The scope at the start of a file. -/
def start : Scope := ⟨none, []⟩

/-- The scope after a namespace is entered.  Imports do not carry over. -/
def enter (_ : Scope) (name : Option Text) : Scope :=
  ⟨(name.map (Text.dropLeading '\\')).filter (!·.isEmpty), []⟩

/-- The scope after one import.  Only classes matter, and a later import replaces
an earlier one of the same alias. -/
def withImport (s : Scope) (i : Import) : Scope :=
  match i.kind with
  | .classes =>
      { s with
        aliases := s.aliases.filter (fun a => decide (¬ a.name.Same i.shortName)) ++
          [⟨i.shortName, i.name.dropLeading '\\'⟩] }
  | _ => s

/-- The scope after all clauses of a `use` statement. -/
def importAll (s : Scope) (is : List Import) : Scope := is.foldl Scope.withImport s

/-- A name put into the current namespace. -/
def qualify (s : Scope) (name : Text) : Text :=
  match s.space with
  | some space => space ++ '\\' :: name
  | none => name

/-- The words that stand for a class in relation to the place. -/
def specialNames : List Text := ["self".toList, "parent".toList, "static".toList]

/-- The target of an alias. -/
def target? (s : Scope) (first : Text) : Option Text :=
  (s.aliases.find? fun a => decide (a.name.Same first)).map Alias.target

/-- The meaning of a name of at least one segment, none of them before a
backslash at the start. -/
def resolveSegments (s : Scope) (name first : Text) (rest : Option Text) : Text :=
  match s.target? first, rest with
  | some target, some rest => target ++ '\\' :: rest
  | some target, none => target
  | none, _ => s.qualify name

/-- The fully qualified name of a class name as written. -/
def resolve (s : Scope) : Text → Text
  | '\\' :: name => name
  | name =>
      if name.isOneOf specialNames then name
      else match name.splitAtFirst? '\\' with
        | none => s.resolveSegments name name none
        | some (first, rest) =>
            if first.Same "namespace".toList then s.qualify rest
            else s.resolveSegments name first (some rest)

end Scope

end NativeHints
