import NativeHints.Options.Config
import NativeHints.Toml.Document

/-!
# Configuration files

A configuration file is a TOML document with a version `php`, a list `exclude` of
patterns and a table `features` of switches.  All three may be missing.  Anything
else in it is an error.
-/

namespace NativeHints.Config

open Toml

/-- The texts of a list of texts. -/
def texts? : List Value → Option (List Text)
  | [] => some []
  | .text t :: rest => (texts? rest).map (t :: ·)
  | _ :: _ => none

/-- Toggles with one more feature set. -/
def switch? (toggles : Toggles) (name : Text) : Value → Option Toggles
  | .switch on => (Feature.ofName? name).map fun f => toggles.set f on
  | _ => none

/-- Toggles with the entries of a table set. -/
def switchAll? (toggles : Toggles) : List (Path × Value) → Option Toggles
  | [] => some toggles
  | ([name], v) :: rest => (switch? toggles name v).bind fun t => switchAll? t rest
  | _ :: _ => none

/-- Toggles with the given features set from a list that has a switch for each, in their
order.  What follows in the list does not count. -/
def switchEach? (toggles : Toggles) : List Feature → List Value → Option Toggles
  | [], _ => some toggles
  | f :: features, .switch on :: rest => switchEach? (toggles.set f on) features rest
  | _ :: _, _ => none

/-- A configuration with one more path set. -/
def set? (c : Config) : Path → Value → Option Config
  | [key], v =>
      if key = "php".toList then
        match v with
        | .text t => some { c with php := some t }
        | _ => none
      else if key = "exclude".toList then
        match v with
        | .list items => (texts? items).map fun exclude => { c with exclude }
        | _ => none
      else if key = "features".toList then
        match v with
        | .table entries => (switchAll? c.features entries).map fun features => { c with features }
        | .list items =>
            (switchEach? c.features Feature.all items).map fun features => { c with features }
        | _ => none
      else none
  | [table, name], v =>
      if table = "features".toList then
        (switch? c.features name v).map fun features => { c with features }
      else none
  | _, _ => none

/-- A configuration with all definitions of a document set. -/
def setAll? (c : Config) : List Definition → Option Config
  | [] => some c
  | d :: rest => (c.set? d.path d.value).bind fun c' => setAll? c' rest

/-- The configuration of a document.  The only table with a header is that of features. -/
def ofDocument? (d : Document) : Option Config :=
  if d.headers.all (· = ["features".toList]) then setAll? .empty d.definitions else none

/-- The configuration that a text denotes, or the error that it denotes none. -/
def read (t : Text) : Except Error Config :=
  match (Document.ofText? t).bind ofDocument? with
  | some c => .ok c
  | none => .error (.configuration .file)

end NativeHints.Config
