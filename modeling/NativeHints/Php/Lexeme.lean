import NativeHints.Text.Basic

/-!
# Lexemes of PHP

A PHP file is cut into *lexemes*: white space, comments, text outside of the
code, and the words, numbers, strings and marks of the code.  Each class of
lexemes has a measure here, which says how many characters a lexeme has at the
start of a text.  A lexeme is then that many characters, so nothing is lost
when a text is cut.

Text outside of the code reaches from `?>` to the next open tag and includes
both.  Strings in double quotes, in backticks and after `<<<` can hold code.
They are cut into an opening, parts, the code between braces, and a closing.
-/

namespace NativeHints

namespace Php

/-- The classes of lexemes. -/
inductive LexemeKind where
  /-- White space. -/
  | blank
  /-- A comment. -/
  | comment
  /-- Text outside of the code. -/
  | html
  /-- The first open tag. -/
  | openTag
  /-- A name or a keyword. -/
  | word
  /-- A number. -/
  | number
  /-- A string without code in it. -/
  | string
  /-- An operator or a bracket. -/
  | mark
  /-- The beginning of a string with code in it. -/
  | templateOpen
  /-- Characters of such a string. -/
  | templatePart
  /-- Its end. -/
  | templateClose
  /-- The end of the file. -/
  | ending
deriving DecidableEq, Repr

/-- A piece of a file. -/
structure Lexeme where
  /-- Its class. -/
  kind : LexemeKind
  /-- Its characters. -/
  text : Text
deriving DecidableEq, Repr

/-! ## Characters -/

/-- The white space beyond ASCII. -/
def isWideSpace (c : Char) : Bool :=
  c.toNat == 0xa0 || c.toNat == 0x200b || c.toNat == 0x2060 || c.toNat == 0xfeff

/-- Whether a character is white space in code. -/
def isSpace (c : Char) : Bool :=
  (9 ≤ c.toNat && c.toNat ≤ 13) || c == ' ' || isWideSpace c

/-- Whether a word may begin with a character. -/
def isWordStart (c : Char) : Bool :=
  c.isAlpha || c == '_' || (0x80 ≤ c.toNat && c.toNat ≤ 0xffff && !isWideSpace c)

/-- Whether a word may go on with a character. -/
def isWordPart (c : Char) : Bool := isWordStart c || c.isDigit

/-- The number of characters of a class at the start of a text. -/
def runLength (p : Char → Bool) (t : Text) : Nat := (t.takeWhile p).length

/-! ## Comments and text outside of the code -/

/-- The length of a line comment after its mark, which ends before the end of the
line or a closing tag.  A question mark at the end of the line takes the line
break with it. -/
def lineLength (n : Nat) : Text → Nat
  | [] => n
  | '\n' :: _ => n
  | '\r' :: _ => n
  | ['?'] => n
  | '?' :: '>' :: _ => n
  | '?' :: '\n' :: _ => n + 2
  | '?' :: '\r' :: '\n' :: _ => n + 3
  | '?' :: '\r' :: _ => n
  | '?' :: _ :: t => lineLength (n + 2) t
  | _ :: t => lineLength (n + 1) t

/-- The length of a comment after its opening, up to the first closing. -/
def blockLength? (n : Nat) : Text → Option Nat
  | [] => none
  | '*' :: '/' :: _ => some (n + 2)
  | _ :: t => blockLength? (n + 1) t

/-- The length of a comment. -/
def commentLength? : Text → Option Nat
  | '/' :: '/' :: t => some (lineLength 2 t)
  | '/' :: '*' :: t => blockLength? 2 t
  | '#' :: '[' :: _ => none
  | '#' :: '?' :: _ => some 1
  | '#' :: t => some (lineLength 1 t)
  | _ => none

/-- The length of the text in front of an open tag. -/
def htmlLength (n : Nat) : Text → Nat
  | [] => n
  | '<' :: '?' :: _ => n
  | _ :: t => htmlLength (n + 1) t

/-- The length of an open tag. -/
def tagLength : Text → Nat
  | '<' :: '?' :: '=' :: _ => 3
  | '<' :: '?' :: t => if Text.Same (t.take 3) "php".toList then 5 else 2
  | _ => 0

/-- The length of the text from a closing tag to the next open tag. -/
def islandLength? : Text → Option Nat
  | '?' :: '>' :: t =>
      let html := htmlLength 0 t
      some (2 + html + tagLength (t.drop html))
  | _ => none

/-! ## Words, numbers and strings -/

/-- The length of a word. -/
def wordLength? : Text → Option Nat
  | [] => none
  | c :: t => if isWordStart c then some (1 + runLength isWordPart t) else none

/-- The length of further groups of digits, each behind an underscore. -/
def groupsLength (digit : Char → Bool) : Nat → Text → Nat
  | n + 1, '_' :: t =>
      match runLength digit t with
      | 0 => 0
      | k => 1 + k + groupsLength digit n (t.drop k)
  | _, _ => 0

/-- The length of digits in groups with underscores between. -/
def digitsLength (digit : Char → Bool) (t : Text) : Nat :=
  let first := runLength digit t
  first + groupsLength digit t.length (t.drop first)

/-- Whether a character is a hexadecimal digit. -/
def isHexDigit (c : Char) : Bool :=
  c.isDigit || ('a' ≤ c && c ≤ 'f') || ('A' ≤ c && c ≤ 'F')

/-- The length of the exponent of a number. -/
def exponentLength : Text → Nat
  | e :: t =>
      if e == 'e' || e == 'E' then
        let signs := match t with
          | '+' :: _ | '-' :: _ => 1
          | _ => 0
        match t.drop signs with
        | c :: t => if c.isDigit then 1 + signs + digitsLength Char.isDigit (c :: t) else 0
        | [] => 0
      else 0
  | [] => 0

/-- The length of the fraction of a number, point included. -/
def fractionLength : Text → Nat
  | '.' :: t => 1 + digitsLength Char.isDigit t
  | _ => 0

/-- The length of a decimal number.  One that begins with a zero and is whole is
octal and has no digit beyond seven. -/
def decimalLength? (t : Text) : Option Nat :=
  let whole := digitsLength Char.isDigit t
  let fraction := fractionLength (t.drop whole)
  let exponent := exponentLength (t.drop (whole + fraction))
  if fraction + exponent = 0 && t.head? == some '0' && (t.take whole).any ('8' ≤ ·) then none
  else some (whole + fraction + exponent)

/-- The length of a number. -/
def numberLength? : Text → Option Nat
  | '0' :: x :: c :: t =>
      if (x == 'x' || x == 'X') && isHexDigit c then
        some (2 + digitsLength isHexDigit (c :: t))
      else if (x == 'b' || x == 'B') && (c == '0' || c == '1') then
        some (2 + digitsLength (fun d => d == '0' || d == '1') (c :: t))
      else if (x == 'o' || x == 'O') && ('0' ≤ c && c ≤ '7') then
        some (2 + digitsLength (fun d => '0' ≤ d && d ≤ '7') (c :: t))
      else decimalLength? ('0' :: x :: c :: t)
  | '.' :: c :: t => if c.isDigit then decimalLength? ('.' :: c :: t) else none
  | c :: t => if c.isDigit then decimalLength? (c :: t) else none
  | [] => none

/-- The length of a string after its opening quote. -/
def quotedLength? (n : Nat) : Text → Option Nat
  | [] => none
  | '\'' :: _ => some (n + 1)
  | ['\\'] => none
  | '\\' :: _ :: t => quotedLength? (n + 2) t
  | _ :: t => quotedLength? (n + 1) t

/-- The length of a string in single quotes. -/
def stringLength? : Text → Option Nat
  | '\'' :: t => quotedLength? 1 t
  | 'b' :: '\'' :: t | 'B' :: '\'' :: t => quotedLength? 2 t
  | _ => none

/-! ## Documents in the code -/

/-- The length of the line that closes a document with a label, without what comes
after the label. -/
def closingLength? (label t : Text) : Option Nat :=
  let indent := runLength (fun c => c == ' ' || c == '\t') t
  match Text.strip? label (t.drop indent) with
  | none => none
  | some rest =>
      match rest with
      | c :: _ => if isWordPart c then none else some (indent + label.length)
      | [] => some (indent + label.length)

/-- The opening of a document: its label, whether it holds code, and its length.  It
stands alone at the end of a line. -/
structure DocumentOpening where
  /-- The label that closes the document. -/
  label : Text
  /-- Whether the document holds code. -/
  holdsCode : Bool
  /-- The length of the opening. -/
  length : Nat

/-- Whether a text begins with the end of a line. -/
def atLineEnd : Text → Bool
  | '\n' :: _ => true
  | '\r' :: '\n' :: _ => true
  | _ => false

/-- The quote in front of a label, if there is one, and the rest. -/
def labelQuote : Text → Option Char × Text
  | '\'' :: t => (some '\'', t)
  | '"' :: t => (some '"', t)
  | t => (none, t)

/-- The opening of a document after a number of marks. -/
def documentAfter? (marks : Nat) (t : Text) : Option DocumentOpening :=
  let gap := runLength (fun c => c == ' ' || c == '\t') t
  let (mark, t) := labelQuote (t.drop gap)
  (wordLength? t).bind fun n =>
    let quoted := if mark.isSome then 1 else 0
    let closed := match mark with
      | none => true
      | some q => (t.drop n).head? == some q
    if closed && atLineEnd (t.drop (n + quoted)) then
      some ⟨t.take n, mark != some '\'', marks + gap + n + 2 * quoted⟩
    else none

/-- The opening of a document. -/
def documentOpening? : Text → Option DocumentOpening
  | '<' :: '<' :: '<' :: t => documentAfter? 3 t
  | 'b' :: '<' :: '<' :: '<' :: t | 'B' :: '<' :: '<' :: '<' :: t => documentAfter? 4 t
  | _ => none

/-- The length of a document without code, after its opening. -/
def plainDocumentLength? (label : Text) (n : Nat) : Text → Option Nat
  | [] => none
  | '\n' :: t =>
      match closingLength? label t with
      | some k => some (n + 1 + k)
      | none => plainDocumentLength? label (n + 1) t
  | _ :: t => plainDocumentLength? label (n + 1) t

/-- What closes a string that holds code. -/
inductive Closer where
  /-- A quote. -/
  | quote (mark : Char)
  /-- A label on a line of its own. -/
  | label (name : Text)
deriving DecidableEq, Repr

/-- The length of the closing at the start of a text. -/
def Closer.length? : Closer → Text → Option Nat
  | quote mark, c :: _ => if c = mark then some 1 else none
  | label name, '\n' :: t => (closingLength? name t).map (1 + ·)
  | _, _ => none

/-- The length of the characters up to code or the closing.  A backslash keeps the
character after it, but not the end of a line in a document. -/
def partLength (closer : Closer) (n : Nat) : Text → Nat
  | [] => n
  | '{' :: '$' :: _ => n
  | '$' :: '{' :: _ => n
  | '\\' :: '\n' :: t =>
      match closer with
      | .quote _ => partLength closer (n + 2) t
      | .label _ => partLength closer (n + 1) ('\n' :: t)
  | '\\' :: _ :: t => partLength closer (n + 2) t
  | c :: t => if (closer.length? (c :: t)).isSome then n else partLength closer (n + 1) t

/-! ## Marks -/

/-- The marks of the code, longer ones in front of shorter ones. -/
def marks : List Text :=
  ["<=>".toList, "**=".toList, "...".toList, "<<=".toList, ">>=".toList, "===".toList,
    "!==".toList, "??=".toList, "?->".toList, "::".toList, "->".toList, "=>".toList,
    "==".toList, "!=".toList, "<>".toList, "<=".toList, ">=".toList, "&&".toList,
    "||".toList, "++".toList, "--".toList, "+=".toList, "-=".toList, "*=".toList,
    "/=".toList, ".=".toList, "%=".toList, "&=".toList, "|=".toList, "^=".toList,
    "<<".toList, ">>".toList, "??".toList, "**".toList, "#[".toList, "(".toList,
    ")".toList, "[".toList, "]".toList, ['{'], ['}'], ";".toList, ",".toList,
    ".".toList, "=".toList, "<".toList, ">".toList, "+".toList, "-".toList, "*".toList,
    "/".toList, "%".toList, "!".toList, "~".toList, "^".toList, "&".toList, "|".toList,
    "?".toList, ":".toList, "@".toList, "$".toList, "\\".toList]

/-- The length of the longest mark at the start of a text. -/
def markLength? (t : Text) : Option Nat := (marks.find? t.startsWith).map List.length

end Php

end NativeHints
