import NativeHints.Options.Config

/-!
# Commands

There are two commands: one adds hints to the PHP files below some directories, the
other removes them.  The options of a command line differ by where they stand.
-/

namespace NativeHints.CommandLine

/-- Which options about features stand.  Every feature has two. -/
structure FeatureFlags where
  /-- Those that turn a feature on. -/
  on : Feature → Bool
  /-- Those that turn it off. -/
  off : Feature → Bool

namespace FeatureFlags

/-- No option stands. -/
def none : FeatureFlags := ⟨fun _ => false, fun _ => false⟩

/-- One more option.  It stands from then on, and the other one of its feature does not. -/
def give (flags : FeatureFlags) (f : Feature) (on : Bool) : FeatureFlags where
  on g := if g = f then on else flags.on g
  off g := if g = f then !on else flags.off g

/-- What the options say about features. -/
def toggles (flags : FeatureFlags) : Toggles := fun f =>
  match flags.on f, flags.off f with
  | true, _ => some true
  | _, true => some false
  | _, _ => .none

end FeatureFlags

/-- What the command to add hints is told. -/
structure AddCommand where
  /-- The directories to scan. -/
  dirs : List Text
  /-- The version of PHP. -/
  php : Option Version
  /-- The path of a configuration file. -/
  config : Option Text
  /-- Patterns of files to leave alone. -/
  exclude : List Text
  /-- What is said about features. -/
  features : Toggles

/-- What the command to remove hints is told. -/
structure RemoveCommand where
  /-- The directories to scan. -/
  dirs : List Text
  /-- Patterns of files to leave alone. -/
  exclude : List Text

/-- A command. -/
inductive Command where
  /-- Adds hints. -/
  | add (c : AddCommand)
  /-- Removes hints. -/
  | remove (c : RemoveCommand)

/-- All that a command line says. -/
structure Invocation where
  /-- The command. -/
  command : Command
  /-- How much to report. -/
  verbosity : Nat
  /-- The number of files to work on at once.  Zero leaves it open. -/
  jobs : Nat
  /-- Whether to work on one file after the other. -/
  sequential : Bool

namespace Invocation

/-- The number of files to work on at once, if it is given. -/
def workers? (i : Invocation) : Option Nat := if i.jobs = 0 then none else some i.jobs

end Invocation

/-- Why a command line is not followed. -/
inductive UsageError where
  /-- Help is asked for. -/
  | help
  /-- The version of the program is asked for. -/
  | version
  /-- There are no arguments. -/
  | nothing
  /-- There are options but no command. -/
  | noCommand
  /-- A command that does not exist. -/
  | unknownCommand
  /-- An option that does not exist there. -/
  | unknownOption
  /-- No directory is given. -/
  | noDirectory
  /-- A value that is not of its kind. -/
  | badValue
  /-- An option without its value. -/
  | noValue
  /-- An option with a value that takes none. -/
  | unwantedValue
  /-- An option that stands twice and may not. -/
  | repeated
deriving DecidableEq, Repr

namespace UsageError

/-- The words for a command line that is not followed. -/
def message : UsageError → Text
  | help | nothing => "Usage: native-hints [OPTIONS] <add|remove> [OPTIONS] <DIRS>...".toList
  | version => "native-hints 0.1.0".toList
  | noCommand => "a command is required: add or remove".toList
  | unknownCommand => "there is no such command".toList
  | unknownOption => "there is no such option here".toList
  | noDirectory => "a directory is required".toList
  | badValue => "a value is not of its kind".toList
  | noValue => "an option lacks its value".toList
  | unwantedValue => "an option takes no value".toList
  | repeated => "an option is given twice".toList

/-- Whether the words are what was asked for. -/
def isAnswer : UsageError → Bool
  | help | version => true
  | _ => false

end UsageError

/-! ## Options -/

/-- What an option is for. -/
inductive Flag where
  /-- Asks for help. -/
  | help
  /-- Asks for the version of the program. -/
  | version
  /-- Makes reports longer. -/
  | verbose
  /-- Gives the number of files to work on at once. -/
  | jobs
  /-- Takes one file after the other. -/
  | sequential
  /-- Gives the version of PHP. -/
  | php
  /-- Names a configuration file. -/
  | config
  /-- Gives a pattern of files to leave alone. -/
  | exclude
  /-- Turns a feature on or off. -/
  | feature (f : Feature) (on : Bool)
deriving DecidableEq, Repr

/-- Where an option stands: before the command or after one of the two. -/
inductive Level where
  /-- Before the command. -/
  | top
  /-- After the command to add hints. -/
  | add
  /-- After the command to remove hints. -/
  | remove
deriving DecidableEq, Repr

namespace Flag

/-- Whether a value follows. -/
def takesValue : Flag → Bool
  | jobs | php | config | exclude => true
  | _ => false

/-- The option of a feature by its long name.  A name after `no-` turns it off. -/
def ofFeature? (name : Text) : Option Flag :=
  match Feature.ofName? name with
  | some f => some (.feature f true)
  | none =>
      (Text.strip? "no-".toList name).bind fun rest =>
        (Feature.ofName? rest).map (.feature · false)

/-- The options with a long name that stand everywhere. -/
def common? (name : Text) : Option Flag :=
  if name = "help".toList then some .help
  else if name = "verbose".toList then some .verbose
  else if name = "jobs".toList then some .jobs
  else if name = "no-parallel".toList then some .sequential
  else none

/-- The other options of a level by their long names. -/
def special? (level : Level) (name : Text) : Option Flag :=
  match level with
  | .top => if name = "version".toList then some .version else none
  | .add =>
      if name = "php".toList then some .php
      else if name = "config".toList then some .config
      else if name = "exclude".toList then some .exclude
      else ofFeature? name
  | .remove => if name = "exclude".toList then some .exclude else none

/-- The option of a long name. -/
def long? (level : Level) (name : Text) : Option Flag :=
  (common? name).or (special? level name)

/-- The option of a letter. -/
def short? (level : Level) (letter : Char) : Option Flag :=
  if letter = 'h' then some .help
  else if letter = 'v' then some .verbose
  else if letter = 'j' then some .jobs
  else if letter = 'V' ∧ level = .top then some .version
  else none

end Flag

namespace Level

/-- Whether an option may stand more than once, the last time counting. -/
def allowsRepetition : Level → Bool
  | add => true
  | _ => false

/-- The level after a command. -/
def ofName? (name : Text) : Option Level :=
  if name = "add".toList then some .add
  else if name = "remove".toList then some .remove
  else none

end Level

end NativeHints.CommandLine
