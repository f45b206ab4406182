import NativeHints.CommandLine.Run
import NativeHints.Files.Mount

/-!
# The program

The directories and the configuration file that a command line names are read into
a disk.  The command runs on it, and the files that have changed are written back.
-/

namespace NativeHints.Main

open Files

/-- The content of a file. -/
def readContent (path : String) : IO Content := do
  return .ofBytes (← IO.FS.readBinFile path).toList

/-- The content of a directory.  Links are not followed. -/
partial def readTree (path : String) : IO Tree := do
  let entries ← ((← IO.currentDir) / path).readDir
  let mut tree := Tree.empty
  for entry in entries do
    let name := entry.fileName.toList
    match (← entry.path.symlinkMetadata).type with
    | .dir => tree := tree.put name (.directory (← readTree entry.path.toString))
    | .file => tree := tree.put name (.file (← readContent entry.path.toString))
    | _ => pure ()
  return tree

/-- Mounts what stands at a path of this machine. -/
def mountReal (d : Disk) (path : Text) : IO Disk := do
  let name := String.ofList path
  let real := (← IO.currentDir) / name
  if ← real.isDir then return d.mount (.directory (← readTree name)) path
  else if ← real.pathExists then return d.mount (.file (← readContent name)) path
  else return d

/-- The disk with all that a command needs. -/
def readDisk (c : CommandLine.Command) : IO Disk := do
  let here := (Text.splitOn '/' (← IO.currentDir).toString.toList).filter (· ≠ [])
  let start : Disk := ⟨Tree.makeAt .empty here, here⟩
  let paths := match c with
    | .add a => a.dirs ++ a.config.toList
    | .remove r => r.dirs
  paths.foldlM mountReal start

/-- Writes back the files that have changed. -/
def writeChanges (before after : Disk) : IO Unit := do
  for (place, content) in before.changes after do
    match content with
    | .text t =>
        IO.FS.writeFile (String.ofList ('/' :: ['/'].intercalate place)) (String.ofList t)
    | .binary _ => pure ()

/-- The arguments that are directories. -/
def directoriesAmong (arguments : List String) : IO (List Text) := do
  let here ← IO.currentDir
  let found ← arguments.filterM fun (a : String) => (here / a).isDir
  return (found.filter (· ≠ "")).map String.toList

/-- A time in seconds, with three decimal places. -/
def secondsText (milliseconds : Nat) : String :=
  let rest := toString (milliseconds % 1000)
  s!"{milliseconds / 1000}." ++ "".pushn '0' (3 - rest.length) ++ rest

/-- Runs a command and reports. -/
def runCommand (c : CommandLine.Command) : IO UInt32 := do
  let start ← IO.monoMsNow
  let before ← readDisk c
  let (result, after) := c.run before
  writeChanges before after
  match result with
  | .error f =>
      IO.eprintln ("Error: " ++ String.ofList f.message)
      return 1
  | .ok s =>
      let took := secondsText ((← IO.monoMsNow) - start)
      let counts := s!"{s.scanned} files scanned, {s.changed} changed, {s.skipped} skipped"
      IO.println ("Took: " ++ took ++ "s (" ++ counts ++ ")")
      return 0

end NativeHints.Main

/-- The command line. -/
def main (arguments : List String) : IO UInt32 := do
  let directories ← NativeHints.Main.directoriesAmong arguments
  match NativeHints.CommandLine.read directories.contains (arguments.map String.toList) with
  | .ok i => NativeHints.Main.runCommand i.command
  | .error e =>
      if e.isAnswer then
        IO.println (String.ofList e.message)
        return 0
      else
        IO.eprintln (String.ofList e.message)
        return 2
