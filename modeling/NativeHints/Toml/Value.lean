import NativeHints.Toml.Quoted

/-!
# Values

Settings are texts, switches, lists and tables.  Numbers and dates are not read,
since no setting is one.
-/

namespace NativeHints.Toml

/-- The keys that lead to a value, outermost first. -/
abbrev Path := List Text

/-- What a key may be set to. -/
inductive Value where
  /-- A text. -/
  | text (t : Text)
  /-- On or off. -/
  | switch (on : Bool)
  /-- A list. -/
  | list (items : List Value)
  /-- A table in braces. -/
  | table (entries : List (Path × Value))

/-! ## Gaps -/

/-- A text without the blanks in front. -/
def dropBlanks (t : Text) : Text := t.dropWhile fun c => c == ' ' || c == '\t'

/-- The rest after a comment, from its line end on. -/
def afterComment? : Text → Option Text
  | [] => some []
  | '\n' :: t => some ('\n' :: t)
  | '\r' :: '\n' :: t => some ('\r' :: '\n' :: t)
  | c :: t => if isForbidden c then none else afterComment? t

/-- The rest after blanks, comments and line ends. -/
def afterGaps? : Nat → Text → Option Text
  | 0, _ => none
  | n + 1, t =>
      match dropBlanks t with
      | '#' :: r => (afterComment? r).bind (afterGaps? n)
      | '\n' :: r => afterGaps? n r
      | '\r' :: '\n' :: r => afterGaps? n r
      | r => some r

/-- The rest after all gaps in front. -/
def skipGaps? (t : Text) : Option Text := afterGaps? (t.length + 1) t

/-! ## Keys -/

/-- The characters of a key without quotes. -/
def isBare (c : Char) : Bool := c.isAlphanum || c == '_' || c == '-'

/-- One key. -/
def key? (t : Text) : Read Text :=
  match t.takeWhile isBare with
  | [] => shortQuoted? t
  | bare => some (bare, t.dropWhile isBare)

/-- Keys with points between them, and the rest after the blanks that follow. -/
def path? : Nat → Text → Read Path
  | 0, _ => none
  | n + 1, t =>
      (key? t).bind fun (key, rest) =>
        match dropBlanks rest with
        | '.' :: more => (path? n (dropBlanks more)).map fun (keys, r) => (key :: keys, r)
        | r => some ([key], r)

/-- Keys up to an equals sign, and the rest after the blanks that follow. -/
def assigned? (t : Text) : Read Path :=
  (path? t.length t).bind fun (path, rest) =>
    match rest with
    | '=' :: r => some (path, dropBlanks r)
    | _ => none

/-! ## Values -/

/-- Whether one of two paths leads to or through the end of the other, so that not both
can have a value. -/
def clash (p q : Path) : Bool := p.isPrefixOf q || q.isPrefixOf p

mutual

/-- A value. -/
def value? : Nat → Text → Read Value
  | 0, _ => none
  | n + 1, '[' :: t => (items? n t).map fun (items, rest) => (.list items, rest)
  | n + 1, '\x7b' :: t => (entries? n t []).map fun (entries, rest) => (.table entries, rest)
  | _ + 1, '"' :: t => (quoted? ('"' :: t)).map fun (read, rest) => (.text read, rest)
  | _ + 1, '\'' :: t => (quoted? ('\'' :: t)).map fun (read, rest) => (.text read, rest)
  | _ + 1, t =>
      let word := t.takeWhile isBare
      if word = "true".toList then some (.switch true, t.dropWhile isBare)
      else if word = "false".toList then some (.switch false, t.dropWhile isBare)
      else none

/-- The items of a list, up to its end.  A comma may follow the last one. -/
def items? : Nat → Text → Read (List Value)
  | 0, _ => none
  | n + 1, t =>
      (skipGaps? t).bind fun
        | ']' :: rest => some ([], rest)
        | inner => (value? n inner).bind fun (item, after) =>
            (skipGaps? after).bind fun
              | ',' :: rest => (items? n rest).map fun (items, r) => (item :: items, r)
              | ']' :: rest => some ([item], rest)
              | _ => none

/-- The entries of a table in braces, up to its end, after the entries in front.  No two
of them clash, and a comma may follow the last one. -/
def entries? : Nat → Text → List (Path × Value) → Read (List (Path × Value))
  | 0, _, _ => none
  | n + 1, t, before =>
      (skipGaps? t).bind fun
        | '\x7d' :: rest => some (before, rest)
        | inner => (assigned? inner).bind fun (path, start) =>
            (value? n start).bind fun (value, after) =>
              if before.any (fun (other, _) => clash other path) then none
              else (skipGaps? after).bind fun
                | ',' :: rest => entries? n rest (before ++ [(path, value)])
                | '\x7d' :: rest => some (before ++ [(path, value)], rest)
                | _ => none

end

end NativeHints.Toml
