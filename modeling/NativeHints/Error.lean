import NativeHints.Edit.Basic

/-!
# Errors

What can go wrong with a run, by cause.  A file that does not parse is skipped
and the run goes on.  Everything else ends it.
-/

namespace NativeHints

/-- Why an exclude pattern is none. -/
inductive PatternFault where
  /-- More than two stars stand together. -/
  | wildcards
  /-- Two stars stand together with something else. -/
  | recursive
  /-- A range of characters does not end. -/
  | range
deriving DecidableEq, Repr

namespace PatternFault

/-- The words for a fault of a pattern. -/
def message : PatternFault → Text
  | wildcards => "wildcards are either regular `*` or recursive `**`".toList
  | recursive => "recursive wildcards must form a single path component".toList
  | range => "invalid range pattern".toList

end PatternFault

/-- What is wrong with a configuration. -/
inductive ConfigError where
  /-- A text that is no version. -/
  | version (written : Text)
  /-- A text that is no pattern, with the place of its fault. -/
  | pattern (written : Text) (position : Nat) (fault : PatternFault)
  /-- A configuration file that cannot be understood. -/
  | file
  /-- Anything else, in words. -/
  | stated (words : Text)
deriving DecidableEq, Repr

namespace ConfigError

/-- The words for a configuration error. -/
def message : ConfigError → Text
  | version written => "Invalid PHP version '".toList ++ written ++ "'".toList
  | pattern written position fault =>
      "Invalid exclude pattern '".toList ++ written ++ "': Pattern syntax error near position ".toList
        ++ Text.ofNat position ++ ": ".toList ++ fault.message
  | file => "Failed to parse config".toList
  | stated words => words

end ConfigError

/-- What can go wrong. -/
inductive Error where
  /-- A source that does not parse. -/
  | parse (path words : Text)
  /-- A failure of the file system. -/
  | io (path words : Text)
  /-- A wrong configuration. -/
  | configuration (cause : ConfigError)
  /-- Edits that cannot be applied. -/
  | edit (cause : EditError)
  /-- A function-like without the end of its parameters. -/
  | missingDelimiter (path : Text) (offset : Nat)
deriving DecidableEq, Repr

namespace Error

/-- The error of a source that does not parse from a line on. -/
def parseFailure (path words : Text) (line : Nat) : Error :=
  .parse path (words ++ " on line ".toList ++ Text.ofNat line)

/-- The words for an error. -/
def message : Error → Text
  | parse path words => "Parse error in ".toList ++ path ++ ": ".toList ++ words
  | io path words => "File system error for ".toList ++ path ++ ": ".toList ++ words
  | configuration cause => "Configuration error: ".toList ++ cause.message
  | edit cause => cause.message
  | missingDelimiter path offset =>
      "No closing ')' after byte ".toList ++ Text.ofNat offset ++ " in ".toList ++ path

/-- Whether a run goes on after the error. -/
def isRecoverable : Error → Bool
  | parse _ _ => true
  | _ => false

end Error

end NativeHints
