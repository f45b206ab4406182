import NativeHints.Hint.Basic

/-!
# Built-in classes

Classes and interfaces of PHP itself also bind the methods that override
theirs.  This is a table of those that code commonly extends, with the number
of parameters of each method and the hints these have, and of the relation
among them.  What is not in the table does not bind anything.
-/

namespace NativeHints

namespace Builtin

/-- A method and the hints of its parameters. -/
structure Method where
  /-- The name. -/
  name : Text
  /-- A hint or none, for each parameter. -/
  params : List (Option Text)

/-- The method with a number of parameters without hints. -/
def free (name : String) (params : Nat) : Method := ⟨name.toList, List.replicate params none⟩

/-- The method with the given hints. -/
def hinted (name : String) (params : List (Option String)) : Method :=
  ⟨name.toList, params.map (·.map String.toList)⟩

/-- A class and the methods it declares. -/
structure Class where
  /-- The name. -/
  name : Text
  /-- The methods. -/
  methods : List Method

/-- The classes that declare methods. -/
def classes : List Class :=
  [⟨"ArrayAccess".toList,
      [free "offsetExists" 1, free "offsetGet" 1, free "offsetSet" 2, free "offsetUnset" 1]⟩,
    ⟨"Countable".toList, [free "count" 0]⟩,
    ⟨"IteratorAggregate".toList, [free "getIterator" 0]⟩,
    ⟨"Iterator".toList,
      [free "current" 0, free "key" 0, free "next" 0, free "rewind" 0, free "valid" 0]⟩,
    ⟨"SeekableIterator".toList, [free "seek" 1]⟩,
    ⟨"RecursiveIterator".toList, [free "hasChildren" 0, free "getChildren" 0]⟩,
    ⟨"OuterIterator".toList, [free "getInnerIterator" 0]⟩,
    ⟨"FilterIterator".toList, [free "accept" 0]⟩,
    ⟨"ArrayObject".toList,
      [free "append" 1, free "exchangeArray" 1, free "getArrayCopy" 0, free "getFlags" 0,
        free "setFlags" 1, free "asort" 1, free "ksort" 1, free "uasort" 1, free "uksort" 1]⟩,
    ⟨"JsonSerializable".toList, [free "jsonSerialize" 0]⟩,
    ⟨"Serializable".toList, [free "serialize" 0, free "unserialize" 1]⟩,
    ⟨"Stringable".toList, [free "__toString" 0]⟩,
    ⟨"SplObserver".toList, [hinted "update" [some "SplSubject"]]⟩,
    ⟨"SplSubject".toList,
      [hinted "attach" [some "SplObserver"], hinted "detach" [some "SplObserver"],
        free "notify" 0]⟩,
    ⟨"DateTimeInterface".toList,
      [free "format" 1, free "getTimezone" 0, free "getOffset" 0, free "getTimestamp" 0,
        hinted "diff" [some "DateTimeInterface", none]]⟩,
    ⟨"SessionHandlerInterface".toList,
      [free "open" 2, free "close" 0, free "read" 1, free "write" 2, free "destroy" 1,
        free "gc" 1]⟩,
    ⟨"php_user_filter".toList, [free "filter" 4, free "onCreate" 0, free "onClose" 0]⟩]

/-- The parents of the classes that have any. -/
def parents : List (Text × List Text) :=
  [("SeekableIterator".toList, ["Iterator".toList]),
    ("RecursiveIterator".toList, ["Iterator".toList]),
    ("OuterIterator".toList, ["Iterator".toList]),
    ("IteratorIterator".toList, ["OuterIterator".toList]),
    ("FilterIterator".toList, ["IteratorIterator".toList]),
    ("ArrayIterator".toList,
      ["SeekableIterator".toList, "ArrayAccess".toList, "Serializable".toList,
        "Countable".toList]),
    ("ArrayObject".toList,
      ["IteratorAggregate".toList, "ArrayAccess".toList, "Serializable".toList,
        "Countable".toList]),
    ("DateTime".toList, ["DateTimeInterface".toList]),
    ("DateTimeImmutable".toList, ["DateTimeInterface".toList])]

/-- The signature of a method.  Results are free. -/
def Method.signature (m : Method) : Signature :=
  ⟨m.params.map (·.map fun name => HintType.named name false), none⟩

/-- The signature of a method that a class declares itself. -/
def own? (name method : Text) : Option Signature := do
  let c ← classes.find? fun c => decide (c.name.Same name)
  let m ← c.methods.find? fun m => decide (m.name.Same method)
  return m.signature

/-- The parents of a class. -/
def parentsOf (name : Text) : List Text :=
  ((parents.find? fun p => decide (p.1.Same name)).map Prod.snd).getD []

/-- The signature of a method in a class or its ancestors, up to a number of steps
away. -/
def search (method : Text) : Nat → Text → Option Signature
  | 0, name => own? name method
  | n + 1, name => (own? name method).or ((parentsOf name).findSome? (search method n))

/-- The depth from which on a search does not go to the parents. -/
def maxDepth : Nat := 9

/-- The signature of a method in a class or its ancestors, the first in depth-first
order. -/
def signature? (name method : Text) : Option Signature :=
  search method maxDepth (name.dropLeading '\\')

end Builtin

end NativeHints
