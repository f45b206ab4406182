import NativeHints.Text.Basic

/-!
# Quoted texts

TOML has four kinds of quoted text.  Double quotes admit escapes, single quotes
admit none.  Three quotes of either kind admit line breaks, drop the one right
after them, and may be followed by two more quotes that belong to the text.

A reader takes a text and gives what it has read with the rest, or nothing.
-/

namespace NativeHints.Toml

/-- What has been read, with the text after it. -/
abbrev Read (α : Type) := Option (α × Text)

/-- Control characters other than the tabulator stand nowhere but in line ends. -/
def isForbidden (c : Char) : Bool := (c.toNat < 0x20 && c != '\t') || c.toNat = 0x7F

/-- A text without the line end in front. -/
def dropLineEnd : Text → Text
  | '\n' :: t => t
  | '\r' :: '\n' :: t => t
  | t => t

/-! ## Escapes -/

/-- The value of a hexadecimal digit. -/
def hexDigit? (c : Char) : Option Nat :=
  if c.isDigit then some (c.toNat - '0'.toNat)
  else if 'a' ≤ c ∧ c ≤ 'f' then some (c.toNat - 'a'.toNat + 10)
  else if 'A' ≤ c ∧ c ≤ 'F' then some (c.toNat - 'A'.toNat + 10)
  else none

/-- The number of exactly `n` hexadecimal digits, after a number for those in front. -/
def hex? : Nat → Nat → Text → Read Nat
  | 0, value, t => some (value, t)
  | _ + 1, _, [] => none
  | n + 1, value, c :: t => (hexDigit? c).bind fun d => hex? n (16 * value + d) t

/-- The character of exactly `n` hexadecimal digits. -/
def coded? (n : Nat) (t : Text) : Read Char :=
  (hex? n 0 t).bind fun (code, rest) =>
    if code.isValidChar then some (Char.ofNat code, rest) else none

/-- The character that an escape denotes, from the text after the backslash. -/
def escape? : Text → Read Char
  | 'b' :: t => some ('\x08', t)
  | 't' :: t => some ('\t', t)
  | 'n' :: t => some ('\n', t)
  | 'f' :: t => some ('\x0c', t)
  | 'r' :: t => some ('\r', t)
  | 'e' :: t => some ('\x1b', t)
  | '"' :: t => some ('"', t)
  | '\\' :: t => some ('\\', t)
  | 'x' :: t => coded? 2 t
  | 'u' :: t => coded? 4 t
  | 'U' :: t => coded? 8 t
  | _ => none

/-- Blanks and line ends. -/
def isGap (c : Char) : Bool := c == ' ' || c == '\t' || c == '\n' || c == '\r'

/-- The rest after a break that a backslash hides: blanks, a line end, and then all
blanks and line ends. -/
def hiddenBreak? (t : Text) : Option Text :=
  match t.dropWhile (fun c => c == ' ' || c == '\t') with
  | '\n' :: r => some (r.dropWhile isGap)
  | '\r' :: '\n' :: r => some (r.dropWhile isGap)
  | _ => none

/-! ## The four kinds -/

/-- Puts a character in front of what is read next. -/
def push (c : Char) : Read Text → Read Text
  | some (read, rest) => some (c :: read, rest)
  | none => none

/-- A text in double quotes, from after the first one. -/
def basic? : Nat → Text → Read Text
  | 0, _ => none
  | _, [] => none
  | _ + 1, '"' :: t => some ([], t)
  | n + 1, '\\' :: t => (escape? t).bind fun (c, rest) => push c (basic? n rest)
  | n + 1, c :: t => if isForbidden c then none else push c (basic? n t)

/-- A text in single quotes, from after the first one. -/
def literal? : Text → Read Text
  | [] => none
  | '\'' :: t => some ([], t)
  | c :: t => if isForbidden c then none else push c (literal? t)

/-- The end of a text in three quotes.  Of the quotes that stand there all but the last
three belong to the text, and these are at most two. -/
def closing? (quote : Char) (t : Text) : Read Text :=
  let count := min 5 (t.takeWhile (· == quote)).length
  if count < 3 then none else some (t.take (count - 3), t.drop count)

/-- A text in three double quotes, from after the line end that may follow them. -/
def longBasic? : Nat → Text → Read Text
  | 0, _ => none
  | _, [] => none
  | n + 1, '"' :: t =>
      match closing? '"' ('"' :: t) with
      | some found => some found
      | none => push '"' (longBasic? n t)
  | n + 1, '\\' :: t =>
      match hiddenBreak? t with
      | some rest => longBasic? n rest
      | none => (escape? t).bind fun (c, rest) => push c (longBasic? n rest)
  | n + 1, '\n' :: t => push '\n' (longBasic? n t)
  | n + 1, '\r' :: '\n' :: t => push '\n' (longBasic? n t)
  | n + 1, c :: t => if isForbidden c then none else push c (longBasic? n t)

/-- A text in three single quotes, from after the line end that may follow them. -/
def longLiteral? : Text → Read Text
  | [] => none
  | '\'' :: t =>
      match closing? '\'' ('\'' :: t) with
      | some found => some found
      | none => push '\'' (longLiteral? t)
  | '\n' :: t => push '\n' (longLiteral? t)
  | '\r' :: '\n' :: t => push '\n' (longLiteral? t)
  | c :: t => if isForbidden c then none else push c (longLiteral? t)

/-- A text in quotes on one line, such as a key may be. -/
def shortQuoted? : Text → Read Text
  | '"' :: t => basic? (t.length + 1) t
  | '\'' :: t => literal? t
  | _ => none

/-- A text in quotes of any kind. -/
def quoted? : Text → Read Text
  | '"' :: '"' :: '"' :: t => longBasic? (t.length + 1) (dropLineEnd t)
  | '\'' :: '\'' :: '\'' :: t => longLiteral? (dropLineEnd t)
  | t => shortQuoted? t

end NativeHints.Toml
