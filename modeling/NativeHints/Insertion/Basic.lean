import NativeHints.Hint.Basic
import NativeHints.Scope.Shortest
import NativeHints.Options.Feature
import NativeHints.Outline.Basic
import NativeHints.Edit.Basic

/-!
# Insertions

An *insertion* is a hint to be added, with the place it goes to, or the
declaration of `strict_types`.  Whether a place gets one depends on the type
found for it, on the options and on whether there is a class around.

* A place that has a hint is left alone.
* `iterable` and `object` need their features.
* `self` and `parent` need a class.
* A nullable parameter or result needs the feature for it.  But a parameter with
  the default `null` admits it anyway, so its hint goes without.
* A property needs the feature for properties and cannot be `callable`.
-/

namespace NativeHints

/-- A text to be added to a file. -/
inductive Insertion where
  /-- The declaration of `strict_types`. -/
  | strictTypes (position : Nat)
  /-- The hint of a parameter. -/
  | parameter (position : Nat) (type : HintType) (written : Text)
  /-- The hint of a result. -/
  | result (position : Nat) (type : HintType) (written : Text)
  /-- The hint of a property. -/
  | property (position : Nat) (type : HintType) (written : Text)
deriving DecidableEq, Repr

namespace Insertion

/-- Where the text goes. -/
def position : Insertion → Nat
  | strictTypes p | parameter p _ _ | result p _ _ | property p _ _ => p

/-- The text. -/
def text : Insertion → Text
  | strictTypes _ => " declare(strict_types=1);".toList
  | parameter _ _ written | property _ _ written => written ++ [' ']
  | result _ _ written => " : ".toList ++ written

/-- The insertion as an edit. -/
def edit (i : Insertion) : Edit := .insert i.position i.text

/-! ## Whether to insert -/

/-- Whether a type may be written at all. -/
def isSupported (options : Options) (inClass : Bool) (t : HintType) : Bool :=
  (!t.isRelative || inClass) &&
    (if t.is "iterable".toList then options .iterable
     else if t.is "object".toList then options .object
     else true)

/-- The type that a parameter is hinted with. -/
def parameterType? (options : Options) (inClass : Bool) (p : Param) (t : HintType) :
    Option HintType :=
  let narrowed := if t.nullable && p.nullDefault then t.notNullable else t
  if (!narrowed.nullable || options .nullableTypes) && isSupported options inClass narrowed then
    some narrowed
  else none

/-- The type that a result is hinted with. -/
def resultType? (options : Options) (inClass : Bool) (t : HintType) : Option HintType :=
  if (!t.nullable || options .nullableTypes) && isSupported options inClass t then some t
  else none

/-- The type that a property is hinted with. -/
def propertyType? (options : Options) (inClass : Bool) (t : HintType) : Option HintType :=
  if options .propertyTypes && !t.is "callable".toList && isSupported options inClass t then
    some t
  else none

/-! ## What to insert -/

/-- The insertion for a parameter of the given type. -/
def ofParam? (options : Options) (inClass : Bool) (s : Scope) (p : Param)
    (type : Option HintType) : Option Insertion :=
  match p.hint, type with
  | none, some t =>
      (parameterType? options inClass p t).map fun t => .parameter p.hintAt t (s.display t)
  | _, _ => none

/-- The insertions for parameters, whose types are given by position. -/
def ofParams (options : Options) (inClass : Bool) (s : Scope) :
    List Param → List (Option HintType) → List Insertion
  | [], _ => []
  | _, [] => []
  | p :: ps, t :: ts =>
      (ofParam? options inClass s p t).toList ++ ofParams options inClass s ps ts

end Insertion

end NativeHints
