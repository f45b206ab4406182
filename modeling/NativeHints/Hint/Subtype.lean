import NativeHints.Hint.Basic

/-!
# Subtypes and overriding

`Subtype a b` says that a value hinted `a` may stand where `b` is expected.
Classes are compared by name alone and a missing hint admits everything.

A method that overrides another one may widen its parameters and narrow its
result.  `Signature.merge` keeps the types of the overriding method where they
do so, and takes those of the overridden one everywhere else.
-/

namespace NativeHints

namespace HintType

/-- Whether the first hint may stand where the second is expected. -/
def isSubtype : Option HintType → Option HintType → Bool
  | _, none => true
  | none, some _ => false
  | some a, some b =>
      (!a.nullable || b.nullable) &&
        (decide (a.resolved.Same b.resolved) ||
          (if b.is "iterable".toList then a.is "array".toList
           else b.is "object".toList && a.isClass))

end HintType

namespace Signature

/-- The parameter of an overriding method next to the one it overrides. -/
def mergeParam (own inherited : Option HintType) : Option HintType :=
  if own.isNone || !HintType.isSubtype inherited own then inherited else own

/-- The parameters of an overriding method.  Those beyond the inherited ones are
its own. -/
def mergeParams : List (Option HintType) → List (Option HintType) → List (Option HintType)
  | [], _ => []
  | own, [] => own
  | own :: owns, inherited :: rest => mergeParam own inherited :: mergeParams owns rest

/-- The result of an overriding method. -/
def mergeResult (own inherited : Option HintType) : Option HintType :=
  if HintType.isSubtype own inherited then own else inherited

/-- The signature of a method that overrides one with the inherited signature. -/
def merge (own inherited : Signature) : Signature :=
  ⟨mergeParams own.params inherited.params, mergeResult own.result inherited.result⟩

end Signature

end NativeHints
