import NativeHints.Hierarchy.Graph
import NativeHints.Hierarchy.Builtin
import NativeHints.Hint.Subtype

/-!
# Inherited types

The *effective* signature of a method combines what its class documents with
what it inherits.  It inherits from the first parent, in recorded order, that
gives anything at all.  A parent outside the code base is looked up among the
built-in classes.  Constructors are free of what the parents say.

A property has the same type all the way down.  So the first ancestor in
depth-first order that documents it decides, and the class itself only if
there is none.

Parents may form cycles.  The search for a signature carries the classes on the
way to where it is and does not enter one of them twice.  The search for a
property carries all classes it has ever seen.  Either way it cannot go deeper
than there are known classes, and that number bounds the recursion.
-/

namespace NativeHints

namespace Graph

/-- Whether a method is the constructor. -/
def isConstructor (method : Text) : Bool := decide (method.Same "__construct".toList)

/-- The signature that a class documents itself. -/
def ownSignature? (g : Graph) (name method : Text) : Option Signature :=
  (g.class? name).bind (·.method? method)

/-- The type that a class documents itself. -/
def ownProperty? (g : Graph) (name property : Text) : Option HintType :=
  (g.class? name).bind (·.property? property)

/-- A documented signature and an inherited one, as far as they exist. -/
def combine : Option Signature → Option Signature → Option Signature
  | some own, some inherited => some (own.merge inherited)
  | some own, none => some own
  | none, inherited => inherited

/-- The search for a signature, for a number of steps up and with the classes on
the way. -/
def searchSignature (g : Graph) (method : Text) :
    Nat → List Text → Text → Option Signature
  | 0, _, _ => none
  | n + 1, visiting, name =>
      if !g.isKnown name || visiting.contains (lookupKey name) then none
      else if isConstructor method then g.ownSignature? name method
      else
        combine (g.ownSignature? name method) <|
          (g.parentsOf name).findSome? fun parent =>
            if g.isKnown parent then
              (searchSignature g method n (lookupKey name :: visiting) parent).map
                Signature.asResolved
            else Builtin.signature? parent method

/-- The effective signature of a method.  An unknown class has none. -/
def signature? (g : Graph) (name method : Text) : Option Signature :=
  searchSignature g method (g.parents.length + 1) [] name

/-- The search among parents, given the search above one of them.  It also gives the
classes seen in the end. -/
def searchParents (g : Graph) (property : Text)
    (above : List Text → Text → Option HintType × List Text) :
    List Text → List Text → Option HintType × List Text
  | seen, [] => (none, seen)
  | seen, parent :: rest =>
      if seen.contains (lookupKey parent) then searchParents g property above seen rest
      else
        match g.ownProperty? parent property with
        | some type => (some type.asResolved, lookupKey parent :: seen)
        | none =>
            match above (lookupKey parent :: seen) parent with
            | (some type, seen) => (some type, seen)
            | (none, seen) => searchParents g property above seen rest

/-- The search for a property above a class, for a number of steps up and with the
classes seen so far. -/
def searchProperty (g : Graph) (property : Text) :
    Nat → List Text → Text → Option HintType × List Text
  | 0, seen, _ => (none, seen)
  | n + 1, seen, name =>
      searchParents g property (searchProperty g property n) seen (g.parentsOf name)

/-- The effective type of a property. -/
def property? (g : Graph) (name property : Text) : Option HintType :=
  (searchProperty g property (g.parents.length + 1) [lookupKey name] name).1.or
    (g.ownProperty? name property)

end Graph

end NativeHints
