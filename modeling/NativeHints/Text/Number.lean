import NativeHints.Text.Basic

/-!
# Numbers

A number is written with decimal digits, at least one, after a plus sign perhaps.
-/

namespace NativeHints.Text

/-- The value of a digit. -/
def digit? (c : Char) : Option Nat := if c.isDigit then some (c.toNat - '0'.toNat) else none

/-- The number that decimal digits denote, after a number for those in front. -/
def digits? (value : Nat) : Text → Option Nat
  | [] => some value
  | c :: t => (digit? c).bind fun d => digits? (10 * value + d) t

/-- A text without the plus sign in front. -/
def dropPlus : Text → Text
  | '+' :: t => t
  | t => t

/-- The number below a bound that a text denotes. -/
def number? (bound : Nat) (t : Text) : Option Nat :=
  match dropPlus t with
  | [] => none
  | digits => (digits? 0 digits).filter (· < bound)

end NativeHints.Text
