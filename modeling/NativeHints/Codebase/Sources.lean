import NativeHints.Insertion.Plan
import NativeHints.Removal.Plan
import NativeHints.Php.Reading

/-!
# Code bases in memory

A code base is a list of sources with their paths.  Its hierarchy is that of the
sources that parse.  Hints are added to every source with that one hierarchy, so
classes of one file count in all.  A source that does not parse stays as it is.
-/

namespace NativeHints

/-- A source and where it comes from. -/
structure Source where
  /-- The path. -/
  path : Text
  /-- The text. -/
  text : Text
deriving DecidableEq, Repr

/-- A source with its outline, if it parses. -/
structure ParsedSource extends Source where
  /-- The outline. -/
  outline : Option FileOutline

namespace Source

/-- The source with its outline. -/
def parse (s : Source) : ParsedSource := ⟨s, Php.outline? s.text⟩

/-- The facts of a source. -/
def facts? (s : Source) : Option Facts :=
  (Php.outline? s.text).map fun f => f.decls.facts s.path

end Source

namespace ParsedSource

/-- The facts of a parsed source. -/
def facts? (s : ParsedSource) : Option Facts := s.outline.map fun f => f.decls.facts s.path

/-- The text with hints added. -/
def addHints (graph : Graph) (options : Options) (s : ParsedSource) : Except Error Text :=
  match s.outline with
  | none => .ok s.text
  | some f => NativeHints.addHints ⟨graph, options, s.path⟩ s.text f

/-- The text with hints removed. -/
def stripHints (s : ParsedSource) : Except Error Text :=
  match s.outline with
  | none => .ok s.text
  | some f => NativeHints.stripHints s.path s.text f

end ParsedSource

namespace Codebase

/-- The hierarchy of parsed sources. -/
def graphOf (sources : List ParsedSource) : Graph :=
  Graph.ofFacts (sources.filterMap ParsedSource.facts?)

/-- The texts of all sources with hints added. -/
def add (options : Options) (sources : List Source) : Except Error (List Text) :=
  let parsed := sources.map Source.parse
  parsed.mapM (ParsedSource.addHints (graphOf parsed) options)

/-- The text of a source with hints removed. -/
def remove (s : Source) : Except Error Text := s.parse.stripHints

end Codebase

end NativeHints
