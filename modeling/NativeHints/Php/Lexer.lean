import NativeHints.Php.Lexeme

/-!
# Cutting a file into lexemes

The class of the next lexeme depends on where it stands.  A stack of *frames*
says so: an open brace, an open brace of code inside a string, or a string that
holds code.  On top of a string its parts are read, and everywhere else code.

`lex?` cuts a whole file, or fails if a string, a comment or a document does
not end or a character has no place in code.
-/

namespace NativeHints

namespace Php

/-- What is open. -/
inductive Frame where
  /-- A brace of the code. -/
  | brace
  /-- A brace in front of code inside a string. -/
  | embed
  /-- A string that holds code. -/
  | template (closer : Closer)
deriving DecidableEq, Repr

/-- The class of a lexeme, its length, and what is open after it. -/
structure Cut where
  /-- The class. -/
  kind : LexemeKind
  /-- The number of characters. -/
  length : Nat
  /-- What is open. -/
  stack : List Frame

/-! ## Code -/

/-- White space. -/
def cutBlank? (stack : List Frame) (t : Text) : Option Cut :=
  match runLength isSpace t with
  | 0 => none
  | n => some ⟨.blank, n, stack⟩

/-- A mark.  Braces open and close frames. -/
def cutMark? (stack : List Frame) (t : Text) : Option Cut :=
  (markLength? t).map fun n =>
    match t with
    | '{' :: _ => ⟨.mark, n, .brace :: stack⟩
    | '}' :: _ => ⟨.mark, n, stack.tail⟩
    | _ => ⟨.mark, n, stack⟩

/-- The opening of a string that holds code. -/
def cutTemplate? (stack : List Frame) : Text → Option Cut
  | '"' :: _ => some ⟨.templateOpen, 1, .template (.quote '"') :: stack⟩
  | '\x60' :: _ => some ⟨.templateOpen, 1, .template (.quote '\x60') :: stack⟩
  | 'b' :: '"' :: _ | 'B' :: '"' :: _ =>
      some ⟨.templateOpen, 2, .template (.quote '"') :: stack⟩
  | _ => none

/-- A document, or the opening of one that holds code. -/
def cutDocument? (stack : List Frame) (t : Text) : Option Cut :=
  (documentOpening? t).bind fun d =>
    if d.holdsCode then some ⟨.templateOpen, d.length, .template (.label d.label) :: stack⟩
    else
      (plainDocumentLength? d.label d.length (t.drop d.length)).map fun n => ⟨.string, n, stack⟩

/-- The next lexeme of the code. -/
def cutCode? (stack : List Frame) (t : Text) : Option Cut :=
  cutBlank? stack t
    <|> (islandLength? t).map (⟨.html, ·, stack⟩)
    <|> (commentLength? t).map (⟨.comment, ·, stack⟩)
    <|> (stringLength? t).map (⟨.string, ·, stack⟩)
    <|> cutTemplate? stack t
    <|> cutDocument? stack t
    <|> (wordLength? t).map (⟨.word, ·, stack⟩)
    <|> (numberLength? t).map (⟨.number, ·, stack⟩)
    <|> cutMark? stack t

/-! ## Strings that hold code -/

/-- The next lexeme of a string that holds code. -/
def cutTemplatePart? (closer : Closer) (stack below : List Frame) (t : Text) : Option Cut :=
  match closer.length? t with
  | some n => some ⟨.templateClose, n, below⟩
  | none =>
      match t with
      | [] => none
      | '{' :: '$' :: _ => some ⟨.mark, 1, .embed :: stack⟩
      | '$' :: '{' :: _ => some ⟨.mark, 2, .embed :: stack⟩
      | t => some ⟨.templatePart, partLength closer 0 t, stack⟩

/-- The next lexeme. -/
def cut? (stack : List Frame) (t : Text) : Option Cut :=
  match stack with
  | .template closer :: below => cutTemplatePart? closer stack below t
  | _ => cutCode? stack t

/-! ## Files -/

/-- The lexemes of code, for a number of steps. -/
def lexCode? : Nat → List Frame → Text → Option (List Lexeme)
  | _, stack, [] => if stack.any (· matches .template _) then none else some []
  | 0, _, _ :: _ => none
  | n + 1, stack, t =>
      match cut? stack t with
      | none => none
      | some c => (lexCode? n c.stack (t.drop c.length)).map (⟨c.kind, t.take c.length⟩ :: ·)

/-- The lexemes of a file. -/
def lex? (source : Text) : Option (List Lexeme) :=
  let html := htmlLength 0 source
  let code := source.drop html
  let tag := tagLength code
  let opening : List Lexeme :=
    (if html = 0 then [] else [⟨.html, source.take html⟩]) ++
      (if tag = 0 then [] else [⟨.openTag, code.take tag⟩])
  (lexCode? code.length [] (code.drop tag)).map (opening ++ ·)

end Php

end NativeHints
