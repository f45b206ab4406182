import NativeHints.Hierarchy.Table
import NativeHints.Hint.Basic

/-!
# The class hierarchy

The hierarchy of a code base is a record of two kinds of facts.  A *class entry*
gives the types that the doc comments of a class state.  A *parent list* gives
the names that a class extends, implements or, as a trait, must agree with.

Names are looked up without their leading backslashes and in lower case.  A
class counts as *known* once a parent list was recorded for it, even an empty
one.  No order among parents is lost: lists for one class are joined, and of
two names that differ in case only the first stays.
-/

namespace NativeHints

/-- What is known of one class-like declaration. -/
structure ClassEntry where
  /-- Its fully qualified name, or the made-up name of an anonymous class. -/
  key : Text
  /-- What `parent` means in it. -/
  parent : Option Text
  /-- The documented signatures, by method name in lower case. -/
  methods : Table Signature
  /-- The documented property types, by property name. -/
  properties : Table HintType
deriving DecidableEq, Repr

namespace ClassEntry

/-- An entry that documents nothing. -/
def bare (key : Text) (parent : Option Text) : ClassEntry := ⟨key, parent, [], []⟩

/-- The entry with the signature of a method. -/
def withMethod (e : ClassEntry) (name : Text) (s : Signature) : ClassEntry :=
  { e with methods := e.methods.put name.lower s }

/-- The entry with the type of a property. -/
def withProperty (e : ClassEntry) (name : Text) (t : HintType) : ClassEntry :=
  { e with properties := e.properties.put name t }

/-- The signature of a method. -/
def method? (e : ClassEntry) (name : Text) : Option Signature := e.methods.find? name.lower

/-- The type of a property. -/
def property? (e : ClassEntry) (name : Text) : Option HintType := e.properties.find? name

end ClassEntry

/-- The classes and parent lists of a code base. -/
structure Graph where
  /-- The entries, by lookup key. -/
  classes : Table ClassEntry
  /-- The parent lists, by lookup key. -/
  parents : Table (List Text)
deriving DecidableEq, Repr

/-- The facts of one file, in the order in which they were found. -/
structure Facts where
  /-- The class entries. -/
  classes : List ClassEntry
  /-- The parent lists, each with the class it belongs to. -/
  edges : List (Text × List Text)
deriving DecidableEq, Repr

namespace Graph

/-- The form in which names are looked up. -/
def lookupKey (name : Text) : Text := (name.dropLeading '\\').lower

/-- The hierarchy of no files. -/
def empty : Graph := ⟨[], []⟩

/-- The entry of a class. -/
def class? (g : Graph) (name : Text) : Option ClassEntry := g.classes.find? (lookupKey name)

/-- The parents of a class. -/
def parentsOf (g : Graph) (name : Text) : List Text :=
  (g.parents.find? (lookupKey name)).getD []

/-- Whether a parent list was recorded for a class. -/
def isKnown (g : Graph) (name : Text) : Bool := (g.parents.find? (lookupKey name)).isSome

/-- The number of class entries. -/
def classCount (g : Graph) : Nat := g.classes.length

/-- The graph with a class entry, in place of the one of the same name. -/
def addClass (g : Graph) (e : ClassEntry) : Graph :=
  { g with classes := g.classes.put (lookupKey e.key) e }

/-- A list of names with one more at the end, unless it is there. -/
def addName (names : List Text) (name : Text) : List Text :=
  if names.any fun n => decide (n.Same name) then names else names ++ [name]

/-- The graph with more parents of a class. -/
def addParents (g : Graph) (name : Text) (parents : List Text) : Graph :=
  { g with parents := g.parents.put (lookupKey name) (parents.foldl addName (g.parentsOf name)) }

/-- The graph with the facts of one more file. -/
def addFacts (g : Graph) (f : Facts) : Graph :=
  f.edges.foldl (fun g (name, parents) => g.addParents name parents) (f.classes.foldl addClass g)

/-- The graph of the facts of several files, in order. -/
def ofFacts (fs : List Facts) : Graph := fs.foldl addFacts empty

/-- An entry put in front of the first one whose key does not come before its own. -/
def insertByKey (e : ClassEntry) : List ClassEntry → List ClassEntry
  | [] => [e]
  | f :: fs => if f.key < e.key then f :: insertByKey e fs else e :: f :: fs

/-- All entries with the parents of each, in order of the keys as written. -/
def entries (g : Graph) : List (ClassEntry × List Text) :=
  ((g.classes.map Prod.snd).foldr insertByKey []).map fun e => (e, g.parentsOf e.key)

end Graph

end NativeHints
