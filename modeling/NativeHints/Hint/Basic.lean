import NativeHints.Text.Basic

/-!
# Hint types

A *hint type* is one type as a native PHP hint can state it: a name, nullable
or not.  It carries two names.  The *declared* one is what is written out, and
keeps `self` and `parent` as they stand.  The *resolved* one is the class these
words mean where they were written, and all comparisons look at it.

A *signature* gives the types of a function, parameter by parameter and for
its result.  A missing type says nothing about its place.
-/

namespace NativeHints

/-- One type as a native hint can state it. -/
structure HintType where
  /-- The name to write. -/
  declared : Text
  /-- The name that is meant. -/
  resolved : Text
  /-- Whether `null` is allowed as well. -/
  nullable : Bool
deriving DecidableEq, Repr

namespace HintType

/-- The type names that never denote a class. -/
def builtinKinds : List Text :=
  ["bool".toList, "int".toList, "float".toList, "string".toList, "array".toList,
    "iterable".toList, "object".toList, "callable".toList]

/-- The scalar kinds. -/
def scalarKinds : List Text := ["bool".toList, "int".toList, "float".toList, "string".toList]

/-- Whether a name is one of the words for the enclosing class or its parent. -/
def isRelativeName (name : Text) : Bool := name.isOneOf ["self".toList, "parent".toList]

/-- A type whose two names coincide. -/
def named (name : Text) (nullable : Bool) : HintType := ⟨name, name, nullable⟩

/-- Whether the type denotes a class. -/
def isClass (t : HintType) : Bool := !t.resolved.isOneOf builtinKinds

/-- Whether the type is written `self` or `parent`. -/
def isRelative (t : HintType) : Bool := isRelativeName t.declared

/-- Whether the type means the given name. -/
def is (t : HintType) (name : Text) : Bool := decide (t.resolved.Same name)

/-- The type without `null`. -/
def notNullable (t : HintType) : HintType := { t with nullable := false }

/-- The type with `self` and `parent` replaced by what they mean, so that it can
be handed to another class. -/
def asResolved (t : HintType) : HintType := { t with declared := t.resolved }

end HintType

/-- The types of a function's parameters and of its result. -/
structure Signature where
  /-- The parameter types, by position. -/
  params : List (Option HintType)
  /-- The result type. -/
  result : Option HintType
deriving DecidableEq, Repr

namespace Signature

/-- The type of a parameter, if there is such a parameter and it has one. -/
def param (s : Signature) (index : Nat) : Option HintType := s.params[index]?.join

/-- The signature as another class sees it. -/
def asResolved (s : Signature) : Signature :=
  ⟨s.params.map (·.map HintType.asResolved), s.result.map HintType.asResolved⟩

end Signature

end NativeHints
