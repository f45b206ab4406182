import NativeHints.Options.Version

/-!
# Features

The forms of hints that may be added.  Each came with a release of PHP, so a
version is a preset of them.  Toggles say otherwise for single features.
-/

namespace NativeHints

/-- A form of hint that can be allowed or not. -/
inductive Feature where
  /-- `declare(strict_types=1)` -/
  | strictTypes
  /-- `?T` -/
  | nullableTypes
  /-- `iterable` -/
  | iterable
  /-- `object` -/
  | object
  /-- Hints of properties. -/
  | propertyTypes
deriving DecidableEq, Repr

namespace Feature

/-- The release that a feature came with. -/
def since : Feature → Version
  | strictTypes => ⟨7, 0⟩
  | nullableTypes => ⟨7, 1⟩
  | iterable => ⟨7, 1⟩
  | object => ⟨7, 2⟩
  | propertyTypes => ⟨7, 4⟩

/-- All features. -/
def all : List Feature := [strictTypes, nullableTypes, iterable, object, propertyTypes]

/-- The name of a feature where users write it. -/
def name : Feature → Text
  | strictTypes => "strict-types".toList
  | nullableTypes => "nullable-types".toList
  | iterable => "iterable".toList
  | object => "object".toList
  | propertyTypes => "property-types".toList

/-- The feature of a name. -/
def ofName? (name : Text) : Option Feature := all.find? fun f => f.name = name

end Feature

/-- Which features are allowed. -/
abbrev Options := Feature → Bool

/-- What is said about features.  Nothing keeps the preset. -/
abbrev Toggles := Feature → Option Bool

namespace Toggles

/-- Nothing is said. -/
def none : Toggles := fun _ => .none

/-- What is said about one feature put in front of the rest. -/
def set (t : Toggles) (f : Feature) (value : Bool) : Toggles :=
  fun g => if g = f then some value else t g

end Toggles

namespace Options

/-- The features of a version. -/
def ofVersion (v : Version) : Options := fun f => v.atLeast f.since

/-- Options after toggles. -/
def withToggles (o : Options) (t : Toggles) : Options := fun f => (t f).getD (o f)

end Options

end NativeHints
