import NativeHints.Hierarchy.Graph
import NativeHints.Outline.Basic
import NativeHints.Doc.Signature

/-!
# Facts of a file

Collecting goes through the outline of a file with the scope in effect and the
class it is in.  Every class-like gives one entry and one parent list.  Methods
and single properties with doc comments go to the innermost class around them.

A trait has to agree with whatever the classes that use it must agree with.  So
each use of a trait records the parents of the using class as parents of the
trait.
-/

namespace NativeHints

namespace ClassHead

/-- The key of a class-like: its name in the namespace, or one made of the file and
the position if it has no name. -/
def key (c : ClassHead) (path : Text) (s : Scope) : Text :=
  match c.name with
  | some name => s.qualify name
  | none => "class@anonymous/".toList ++ path ++ ':' :: Text.ofNat c.start

/-- What `parent` means in a class-like. -/
def parent (c : ClassHead) (s : Scope) : Option Text :=
  match c.kind with
  | .ordinary | .anonymous => c.bases.head?.map s.resolve
  | .interface | .trait | .enumeration => none

/-- The parents of a class-like. -/
def parents (c : ClassHead) (s : Scope) : List Text :=
  match c.kind with
  | .ordinary | .anonymous => ((c.bases.take 1) ++ c.interfaces).map s.resolve
  | .interface => c.bases.map s.resolve
  | .enumeration => c.interfaces.map s.resolve
  | .trait => []

end ClassHead

namespace Collect

/-- The class that is being read. -/
structure Frame where
  /-- Its entry so far. -/
  entry : ClassEntry
  /-- Its parents. -/
  parents : List Text
deriving DecidableEq, Repr

/-- The state between two declarations. -/
structure State where
  /-- The names in effect. -/
  scope : Scope
  /-- The innermost class. -/
  frame : Option Frame
  /-- The facts so far. -/
  facts : Facts
deriving DecidableEq, Repr

/-- The class around, as a doc comment sees it. -/
def Frame.enclosing (f : Frame) : Doc.Enclosing := ⟨f.entry.key, f.entry.parent⟩

/-- The frame of a class-like before its members. -/
def openFrame (path : Text) (s : Scope) (c : ClassHead) : Frame :=
  ⟨.bare (c.key path s) (c.parent s), c.parents s⟩

/-- The facts with those of a finished class. -/
def addFrame (facts : Facts) (f : Frame) : Facts :=
  ⟨facts.classes ++ [f.entry], facts.edges ++ [(f.entry.key, f.parents)]⟩

/-- The frame with what the doc comment of a method says. -/
def Frame.withMethod (f : Frame) (s : Scope) (m : FunctionHead) : Frame :=
  match m.kind, m.name, m.doc with
  | .method, some name, some doc =>
      if Doc.isInherited doc then f
      else
        { f with
          entry := f.entry.withMethod name
            (Doc.signature s (some f.enclosing) (m.params.map Param.name) doc) }
  | _, _, _ => f

/-- The frame with what the doc comment of a property says. -/
def Frame.withProperty (f : Frame) (s : Scope) (p : Property) : Frame :=
  match p.elements, p.doc with
  | [element], some doc =>
      match Doc.propertyType? s (some f.enclosing) doc with
      | some type => { f with entry := f.entry.withProperty element.name type }
      | none => f
  | _, _ => f

/-- The facts with the parents that a class gives to the traits it uses. -/
def addTraitUses (facts : Facts) (s : Scope) (frame : Option Frame) (names : List Text) :
    Facts :=
  match frame with
  | none => facts
  | some f => { facts with edges := facts.edges ++ names.map fun n => (s.resolve n, f.parents) }

/-- The state after an outline. -/
def collect (path : Text) : Outline → State → State
  | .empty, st => st
  | .namespaceLine name rest, st =>
      collect path rest { st with scope := st.scope.enter name }
  | .namespaceBlock name body rest, st =>
      let inner := collect path body { st with scope := st.scope.enter name }
      collect path rest { inner with scope := inner.scope.enter none }
  | .imports clauses rest, st =>
      collect path rest { st with scope := st.scope.importAll clauses }
  | .classLike head members rest, st =>
      let inner := collect path members { st with frame := some (openFrame path st.scope head) }
      let facts := inner.frame.elim inner.facts (addFrame inner.facts)
      collect path rest ⟨inner.scope, st.frame, facts⟩
  | .functionLike head body rest, st =>
      collect path rest
        (collect path body { st with frame := st.frame.map (·.withMethod st.scope head) })
  | .property decl rest, st =>
      collect path rest { st with frame := st.frame.map (·.withProperty st.scope decl) }
  | .traitUse names rest, st =>
      collect path rest { st with facts := addTraitUses st.facts st.scope st.frame names }

end Collect

/-- The facts of a file. -/
def Outline.facts (o : Outline) (path : Text) : Facts :=
  (Collect.collect path o ⟨.start, none, ⟨[], []⟩⟩).facts

/-- The hierarchy of several files, each given by its path and outline. -/
def Graph.ofOutlines (files : List (Text × Outline)) : Graph :=
  Graph.ofFacts (files.map fun (path, o) => o.facts path)

end NativeHints
