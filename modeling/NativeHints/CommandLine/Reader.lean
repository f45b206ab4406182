import NativeHints.CommandLine.Basic

/-!
# Reading a command line

Arguments are read from left to right.  The last option or the directories read last
stay open until the next option comes, and their values are looked at only when they
are closed.  So an option that does not exist is reported before a bad value right in
front of it.

Whether a path is a directory is a question to the disk.  The reader takes the answer
as a function.
-/

namespace NativeHints.CommandLine

/-- What has been said at one level. -/
structure Choices where
  /-- How much to report. -/
  verbosity : Option Nat
  /-- The number of files to work on at once. -/
  jobs : Option Nat
  /-- Whether to take one file after the other. -/
  sequential : Bool
  /-- The directories to scan. -/
  dirs : List Text
  /-- The version of PHP. -/
  php : Option Version
  /-- The path of a configuration file. -/
  config : Option Text
  /-- Patterns of files to leave alone. -/
  exclude : List Text
  /-- The options about features. -/
  features : FeatureFlags

/-- What is still open. -/
inductive Pending where
  /-- Nothing. -/
  | nothing
  /-- An option whose value is to come. -/
  | awaiting (f : Flag)
  /-- An option with its value. -/
  | given (f : Flag) (value : Text)
  /-- Directories. -/
  | places (dirs : List Text)

/-- How far a level has been read. -/
structure Progress where
  /-- What is closed. -/
  choices : Choices
  /-- What is open. -/
  pending : Pending
  /-- Whether options have ended. -/
  escaped : Bool

namespace Choices

/-- The numbers of 64 bits are those below this one. -/
def jobsBound : Nat := 18446744073709551616

/-- Nothing has been said. -/
def none : Choices := ⟨.none, .none, false, [], .none, .none, [], .none⟩

/-- Whether anything has been said before the command. -/
def isEmpty (c : Choices) : Bool := c.verbosity.isNone && c.jobs.isNone && !c.sequential

/-- An option without a value.  The verbosity stops at the largest byte. -/
def flag (level : Level) (c : Choices) : Flag → Except UsageError Choices
  | .help => .error .help
  | .version => .error .version
  | .verbose => .ok { c with verbosity := some (min 255 (c.verbosity.getD 0 + 1)) }
  | .sequential =>
      if c.sequential && !level.allowsRepetition then .error .repeated
      else .ok { c with sequential := true }
  | .feature f on => .ok { c with features := c.features.give f on }
  | _ => .ok c

/-- An option with its value. -/
def assign (level : Level) (c : Choices) (f : Flag) (value : Text) : Except UsageError Choices :=
  match f with
  | .jobs =>
      if c.jobs.isSome && !level.allowsRepetition then .error .repeated
      else match Text.number? jobsBound value with
        | some n => .ok { c with jobs := some n }
        | .none => .error .badValue
  | .php =>
      match Version.ofText? value with
      | some v => .ok { c with php := some v }
      | .none => .error .badValue
  | .config => if value = [] then .error .noValue else .ok { c with config := some value }
  | .exclude => .ok { c with exclude := c.exclude ++ [value] }
  | _ => .ok c

end Choices

section

variable (isDirectory : Text → Bool) (level : Level)

namespace Progress

/-- Nothing has been read. -/
def start : Progress := ⟨.none, .nothing, false⟩

/-- Closes what is open. -/
def settle (p : Progress) : Except UsageError Progress :=
  match p.pending with
  | .nothing => .ok p
  | .awaiting _ => .error .noValue
  | .given f value =>
      (p.choices.assign level f value).map fun c => { p with choices := c, pending := .nothing }
  | .places dirs =>
      if dirs.all isDirectory then
        .ok { p with
          choices := { p.choices with dirs := p.choices.dirs ++ dirs }, pending := .nothing }
      else .error .badValue

/-- Reads an option without a value. -/
def flag (p : Progress) (f : Flag) : Except UsageError Progress := do
  let p ← p.settle isDirectory level
  return { p with choices := ← p.choices.flag level f }

/-- Reads an option with a value right after it, if there is one. -/
def option (p : Progress) (f : Flag) (value : Option Text) : Except UsageError Progress := do
  let p ← p.settle isDirectory level
  match value with
  | some v => return { p with choices := ← p.choices.assign level f v }
  | none => return { p with pending := .awaiting f }

/-- Reads a long option from after its dashes.  A value may follow an equals sign. -/
def long (p : Progress) (written : Text) : Except UsageError Progress :=
  let (name, value) := match Text.splitAtFirst? '=' written with
    | some (name, value) => (name, some value)
    | none => (written, none)
  match Flag.long? level name with
  | none => .error .unknownOption
  | some f =>
      if f.takesValue then p.option isDirectory level f value
      else if value.isSome then .error .unwantedValue
      else p.flag isDirectory level f

/-- The value right after a letter, perhaps behind an equals sign. -/
def attached? : Text → Option Text
  | [] => none
  | '=' :: value => some value
  | value => some value

/-- Reads letters from after a dash. -/
def short (p : Progress) : Text → Except UsageError Progress
  | [] => .ok p
  | letter :: rest =>
      match Flag.short? level letter with
      | none => .error .unknownOption
      | some f =>
          if f.takesValue then p.option isDirectory level f (attached? rest)
          else (p.flag isDirectory level f).bind fun p => p.short rest

/-- Reads an argument that is no option.  Before the command it should have been one. -/
def place (p : Progress) (written : Text) : Except UsageError Progress :=
  if level = .top then
    if p.escaped && (written = "help".toList || (Level.ofName? written).isSome) then
      .error .unknownOption
    else .error .unknownCommand
  else match p.pending with
    | .places dirs => .ok { p with pending := .places (dirs ++ [written]) }
    | _ => (p.settle isDirectory level).map fun p => { p with pending := .places [written] }

/-- Reads one argument that names no command. -/
def argument (p : Progress) (written : Text) : Except UsageError Progress :=
  if p.escaped then p.place isDirectory level written
  else match written with
    | ['-', '-'] => .ok { p with escaped := true }
    | '-' :: '-' :: name => p.long isDirectory level name
    | '-' :: c :: letters => p.short isDirectory level (c :: letters)
    | _ =>
        match p.pending with
        | .awaiting f => .ok { p with pending := .given f written }
        | _ => p.place isDirectory level written

/-- Reads all arguments after a command. -/
def arguments (p : Progress) : List Text → Except UsageError Progress
  | [] => p.settle isDirectory level
  | a :: rest => (p.argument isDirectory level a).bind fun p => p.arguments rest

/-- Whether the next argument may name a command. -/
def expectsCommand (p : Progress) : Bool :=
  !p.escaped && match p.pending with
    | .awaiting _ => false
    | _ => true

end Progress

/-- What the arguments after a command say. -/
def readLevel (arguments : List Text) : Except UsageError Choices := do
  let p ← Progress.start.arguments isDirectory level arguments
  if p.choices.dirs = [] then .error .noDirectory else return p.choices

end

/-- What asks for help about a command gets.  Only the three commands have help. -/
def helpOn : List Text → UsageError
  | [] => .help
  | [name] =>
      if name = "help".toList || (Level.ofName? name).isSome then .help else .unknownCommand
  | _ => .unknownCommand

/-- The command of a level. -/
def Choices.command (c : Choices) : Level → Command
  | .add => .add ⟨c.dirs, c.php, c.config, c.exclude, c.features.toggles⟩
  | _ => .remove ⟨c.dirs, c.exclude⟩

/-- What the options before and after the command say together.  Those after it count. -/
def Choices.invocation (before after : Choices) (level : Level) : Invocation :=
  { command := after.command level
    verbosity := (after.verbosity.or before.verbosity).getD 0
    jobs := (after.jobs.or before.jobs).getD 0
    sequential := after.sequential || before.sequential }

/-- Reads arguments up to a command and the rest after it.  What is open in front of the
command is closed last. -/
def readTop (isDirectory : Text → Bool) (p : Progress) : List Text → Except UsageError Invocation
  | [] => do
      let p ← p.settle isDirectory .top
      .error (if p.choices.isEmpty then .nothing else .noCommand)
  | a :: rest =>
      match if p.expectsCommand then Level.ofName? a else none with
      | some level => do
          let after ← readLevel isDirectory level rest
          let before ← p.settle isDirectory .top
          return before.choices.invocation after level
      | none =>
          if p.expectsCommand && a = "help".toList then .error (helpOn rest)
          else (p.argument isDirectory .top a).bind fun p => readTop isDirectory p rest

/-- What a command line says, without the name of the program. -/
def read (isDirectory : Text → Bool) (arguments : List Text) : Except UsageError Invocation :=
  readTop isDirectory .start arguments

end NativeHints.CommandLine
