import NativeHints.Toml.Value

/-!
# Documents

A document is a sequence of lines.  A header opens a table, and an assignment
sets a path within the table that is open.  Every table is opened at most once
and every path is set at most once.
-/

namespace NativeHints.Toml

/-- A line that says something. -/
inductive Statement where
  /-- Opens a table. -/
  | header (path : Path)
  /-- Sets a path of the open table. -/
  | assign (path : Path) (value : Value)

/-! ## Lines -/

/-- The rest after the end of a line: blanks, a comment perhaps, and a line end or the
end of the text. -/
def afterLine? (t : Text) : Option Text :=
  (match dropBlanks t with
    | '#' :: r => afterComment? r
    | r => some r).bind fun
    | [] => some []
    | '\n' :: r => some r
    | '\r' :: '\n' :: r => some r
    | _ => none

/-- A statement, from its first character on. -/
def statement? : Text → Read Statement
  | '[' :: t =>
      (path? t.length (dropBlanks t)).bind fun (path, rest) =>
        match rest with
        | ']' :: r => some (.header path, r)
        | _ => none
  | t =>
      (assigned? t).bind fun (path, start) =>
        (value? (2 * start.length + 1) start).map fun (value, rest) => (.assign path value, rest)

/-- Whether a line has no statement: the text ends, or a comment or a line end comes. -/
def isIdle : Text → Bool
  | [] | '#' :: _ | '\n' :: _ | '\r' :: _ => true
  | _ => false

/-- The statements of a text, line by line. -/
def statements? : Nat → Text → Option (List Statement)
  | _, [] => some []
  | 0, _ :: _ => none
  | n + 1, t =>
      let line := dropBlanks t
      if isIdle line then (afterLine? line).bind (statements? n)
      else (statement? line).bind fun (s, rest) =>
        (afterLine? rest).bind fun next => (statements? n next).map (s :: ·)

/-! ## Tables -/

/-- A path that has been set. -/
structure Definition where
  /-- The table that was open. -/
  table : Path
  /-- The path within it. -/
  key : Path
  /-- What it was set to. -/
  value : Value

namespace Definition

/-- The whole path. -/
def path (d : Definition) : Path := d.table ++ d.key

/-- The beginnings of a path, without the empty one and the whole. -/
def beginnings : Path → List Path
  | [] | [_] => []
  | k :: ks => [k] :: (beginnings ks).map (k :: ·)

/-- The tables that the points of a key make. -/
def madeTables (d : Definition) : List Path := (beginnings d.key).map (d.table ++ ·)

end Definition

/-- What the lines of a document have said. -/
structure Document where
  /-- The tables that headers have opened. -/
  headers : List Path
  /-- The paths that have been set. -/
  definitions : List Definition

namespace Document

/-- The document without lines. -/
def empty : Document := ⟨[], []⟩

/-- Whether a header may still open a table.  It has not been opened before, it was not
made by the points of a key, and no value stands on the way to it. -/
def canOpen (d : Document) (path : Path) : Bool :=
  !d.headers.contains path &&
    d.definitions.all fun e => !e.madeTables.contains path && !e.path.isPrefixOf path

/-- Whether a path may still be set.  Its value clashes with no other value and takes the
place of no table, and its points do not lead into a table that a header has opened. -/
def canSet (d : Document) (e : Definition) : Bool :=
  (d.definitions.all fun other => !clash other.path e.path) &&
    (d.headers.all fun h => !e.path.isPrefixOf h && !e.madeTables.contains h)

/-- The document after more statements, the first of them for an open table. -/
def addAll? (d : Document) (table : Path) : List Statement → Option Document
  | [] => some d
  | .header path :: rest =>
      if d.canOpen path then addAll? { d with headers := d.headers ++ [path] } path rest else none
  | .assign key value :: rest =>
      let e : Definition := ⟨table, key, value⟩
      if d.canSet e then addAll? { d with definitions := d.definitions ++ [e] } table rest else none

/-- A text without the byte order mark in front. -/
def dropMark : Text → Text
  | '\ufeff' :: t => t
  | t => t

/-- The document that a text denotes. -/
def ofText? (t : Text) : Option Document :=
  (statements? (t.length + 1) (dropMark t)).bind (empty.addAll? [])

end Document

end NativeHints.Toml
