import NativeHints.Codebase.Sources
import NativeHints.Files.Disk

/-!
# Code bases on a disk

A run over a list of paths reads each file, and writes it back if its text has
changed.  Hints are added in two phases.  The first one reads all files for the
hierarchy and writes nothing, so a file that cannot be read ends the run there.
The second one goes through the files in order.  A file that stands twice in the
list is read the second time as the first time has left it.  Every file is visited,
and the first failure in the order of the list is the answer.
-/

namespace NativeHints.Codebase

open Files (Disk)

/-- What happened to a file. -/
inductive Outcome where
  /-- Its text is as it was. -/
  | unchanged
  /-- It has a new text. -/
  | changed
  /-- It does not parse. -/
  | skipped
deriving DecidableEq, Repr

/-- How many files there were, and of which kind. -/
structure Summary where
  /-- All files. -/
  scanned : Nat
  /-- Those with a new text. -/
  changed : Nat
  /-- Those that do not parse. -/
  skipped : Nat
deriving DecidableEq, Repr

namespace Summary

/-- The counts of outcomes. -/
def ofOutcomes (outcomes : List Outcome) : Summary :=
  ⟨outcomes.length, outcomes.count .changed, outcomes.count .skipped⟩

end Summary

/-- The source at a path. -/
def readSource (d : Disk) (path : Text) : Except Error Source :=
  match d.read path with
  | .ok t => .ok ⟨path, t⟩
  | .error f => .error (.io path f.message)

/-- The hierarchy of the files at some paths. -/
def readGraph (d : Disk) (paths : List Text) : Except Error Graph :=
  (paths.mapM (readSource d)).map fun sources => graphOf (sources.map Source.parse)

/-- What becomes of a source: its outcome, and the text to write if there is one. -/
def outcomeOf (revise : ParsedSource → Except Error Text) (s : Source) :
    Except Error (Outcome × Option Text) :=
  let parsed := s.parse
  if parsed.outline.isNone then .ok (.skipped, none)
  else (revise parsed).map fun t =>
    if t = s.text then (.unchanged, none) else (.changed, some t)

/-- Visits one file. -/
def visit (revise : ParsedSource → Except Error Text) (d : Disk) (path : Text) :
    Except Error Outcome × Disk :=
  match (readSource d path).bind (outcomeOf revise) with
  | .error e => (.error e, d)
  | .ok (outcome, none) => (.ok outcome, d)
  | .ok (outcome, some t) => (.ok outcome, d.write path t)

/-- Visits files in order. -/
def visitAll (revise : ParsedSource → Except Error Text) (d : Disk) :
    List Text → List (Except Error Outcome) × Disk
  | [] => ([], d)
  | path :: paths =>
      let (outcome, d) := visit revise d path
      let (outcomes, d) := visitAll revise d paths
      (outcome :: outcomes, d)

/-- The summary of a run over files, or its first failure, and the disk after it. -/
def reviseAll (revise : ParsedSource → Except Error Text) (d : Disk) (paths : List Text) :
    Except Error Summary × Disk :=
  let (outcomes, d) := visitAll revise d paths
  ((outcomes.mapM id).map Summary.ofOutcomes, d)

/-- Adds hints to the files at some paths. -/
def addOn (options : Options) (d : Disk) (paths : List Text) : Except Error Summary × Disk :=
  match readGraph d paths with
  | .error e => (.error e, d)
  | .ok graph => reviseAll (ParsedSource.addHints graph options) d paths

/-- Removes hints from the files at some paths. -/
def removeOn (d : Disk) (paths : List Text) : Except Error Summary × Disk :=
  reviseAll ParsedSource.stripHints d paths

end NativeHints.Codebase
