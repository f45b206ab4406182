import NativeHints.Options.Feature
import NativeHints.Error

/-!
# Effective options

Options come from three places.  The version on the command line, else the one
of the configuration file, else the standard one gives a preset.  The file's
toggles apply to it, and the toggles of the command line after them.
-/

namespace NativeHints

/-- What a configuration file says. -/
structure Config where
  /-- The version, as written. -/
  php : Option Text
  /-- Patterns of files to leave alone. -/
  exclude : List Text
  /-- What it says about features. -/
  features : Toggles

namespace Config

/-- The configuration that says nothing. -/
def empty : Config := ⟨none, [], .none⟩

end Config

/-- The version that a text denotes, or the error that it denotes none. -/
def Version.read (written : Text) : Except Error Version :=
  match Version.ofText? written with
  | some v => .ok v
  | none => .error (.configuration (.version written))

namespace Options

/-- The version of a configuration file, if it gives one. -/
def fileVersion (file : Option Config) : Except Error (Option Version) :=
  match file.bind Config.php with
  | none => .ok none
  | some written => (Version.read written).map some

/-- The options that a configuration file and a command line give together.  A bad
version in the file is an error even if it is not used. -/
def resolve (file : Option Config) (version : Option Version) (toggles : Toggles) :
    Except Error Options :=
  (fileVersion file).map fun fromFile =>
    ((ofVersion ((version.or fromFile).getD .standard)).withToggles
      ((file.map Config.features).getD .none)).withToggles toggles

end Options

end NativeHints
