import NativeHints.CommandLine.Reader
import NativeHints.Codebase.Run
import NativeHints.Files.Discovery
import NativeHints.Options.File

/-!
# Running a command

A command finds its files and goes through them.  To add hints it first reads its
configuration file.  A failure says at which stage it happened.
-/

namespace NativeHints

open Files (Disk)

/-- The configuration of the file at a path. -/
def Config.load (d : Disk) (path : Text) : Except Error Config :=
  match d.read path with
  | .ok t => Config.read t
  | .error f => .error (.io path f.message)

namespace CommandLine

/-- A stage of a run. -/
inductive Stage where
  /-- Reading the configuration file. -/
  | configuration
  /-- Finding the options that apply. -/
  | options
  /-- Finding the files. -/
  | discovery
  /-- Adding hints. -/
  | adding
  /-- Removing hints. -/
  | removing
deriving DecidableEq, Repr

namespace Stage

/-- The words for a failure at a stage. -/
def message : Stage → Text
  | configuration => "Failed to load config file".toList
  | options => "Invalid hint options".toList
  | discovery => "Failed to discover PHP files".toList
  | adding => "Failed to add type hints".toList
  | removing => "Failed to remove type hints".toList

end Stage

/-- An error at a stage. -/
structure Failure where
  /-- The stage. -/
  stage : Stage
  /-- The error. -/
  cause : Error
deriving DecidableEq, Repr

namespace Failure

/-- What an error was caused by, in words. -/
def sources : Error → List Text
  | .io _ words => [words]
  | _ => []

/-- The words for a failure, from the stage down to the first cause. -/
def message (f : Failure) : Text :=
  ": ".toList.intercalate ([f.stage.message, f.cause.message] ++ sources f.cause)

/-- A result with its stage in case of an error. -/
def during {α : Type} (stage : Stage) : Except Error α → Except Failure α
  | .ok a => .ok a
  | .error e => .error ⟨stage, e⟩

end Failure

namespace AddCommand

/-- The configuration, if a file is given. -/
def load (c : AddCommand) (d : Disk) : Except Error (Option Config) :=
  match c.config with
  | none => .ok none
  | some path => (Config.load d path).map some

/-- The options that apply. -/
def options (c : AddCommand) (file : Option Config) : Except Error Options :=
  Options.resolve file c.php c.features

/-- All patterns of files to leave alone, those of the command line first. -/
def patterns (c : AddCommand) (file : Option Config) : List Text :=
  c.exclude ++ (file.map Config.exclude).getD []

/-- The options that apply and the files to go through. -/
def prepare (c : AddCommand) (d : Disk) : Except Failure (Options × List Text) := do
  let file ← Failure.during .configuration (c.load d)
  let options ← Failure.during .options (c.options file)
  let files ← Failure.during .discovery (d.phpFiles c.dirs (c.patterns file))
  return (options, files)

/-- Adds hints. -/
def run (c : AddCommand) (d : Disk) : Except Failure Codebase.Summary × Disk :=
  match c.prepare d with
  | .error f => (.error f, d)
  | .ok (options, files) =>
      let (result, d) := Codebase.addOn options d files
      (Failure.during .adding result, d)

end AddCommand

namespace RemoveCommand

/-- Removes hints. -/
def run (c : RemoveCommand) (d : Disk) : Except Failure Codebase.Summary × Disk :=
  match Failure.during .discovery (d.phpFiles c.dirs c.exclude) with
  | .error f => (.error f, d)
  | .ok files =>
      let (result, d) := Codebase.removeOn d files
      (Failure.during .removing result, d)

end RemoveCommand

namespace Command

/-- Runs a command. -/
def run : Command → Disk → Except Failure Codebase.Summary × Disk
  | add c, d => c.run d
  | remove c, d => c.run d

end Command

end CommandLine

end NativeHints
