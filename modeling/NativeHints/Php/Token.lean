import NativeHints.Php.Lexer

/-!
# Tokens

The grammar of PHP speaks of tokens.  A *token* is a lexeme of the code, with
its position in the file and with the *trivia* in front of it: white space,
comments and text outside of the code.

Text outside of the code ends a statement, but only where a statement can end.
Inside parentheses and square brackets it is like white space.  A token that
comes after such text at the level of statements is marked as *fresh*.
-/

namespace NativeHints

namespace Php

/-- A lexeme with its position. -/
structure Piece where
  /-- The class of the lexeme. -/
  kind : LexemeKind
  /-- Its characters. -/
  text : Text
  /-- Where it begins. -/
  start : Nat
deriving DecidableEq, Repr

/-- Where a piece ends. -/
def Piece.stop (p : Piece) : Nat := p.start + p.text.size

/-- Whether a piece stands between tokens. -/
def Piece.isTrivia (p : Piece) : Bool :=
  match p.kind with
  | .blank | .comment | .html => true
  | _ => false

/-- A token with the trivia in front of it. -/
structure Token where
  /-- The trivia. -/
  lead : List Piece
  /-- The token itself. -/
  piece : Piece
  /-- Whether a statement may have ended in front of it without a semicolon. -/
  fresh : Bool
deriving DecidableEq, Repr

namespace Token

/-- Where the token begins. -/
def start (t : Token) : Nat := t.piece.start

/-- Where the token ends. -/
def stop (t : Token) : Nat := t.piece.stop

/-- The characters of the token. -/
def text (t : Token) : Text := t.piece.text

/-- The characters of the token and of the trivia in front of it. -/
def fullText (t : Token) : Text := t.lead.flatMap Piece.text ++ t.text

/-- Where the token begins, or the first comment or text outside of the code in front
of it. -/
def outerStart (t : Token) : Nat :=
  match t.lead.find? (·.kind != .blank) with
  | some p => p.start
  | none => t.start

/-- The nearest doc comment of trivia given from right to left, with only comments
and white space after it. -/
def docAmong : List Piece → Option Text
  | [] => none
  | p :: ps =>
      match p.kind with
      | .comment => if p.text.startsWith "/**".toList then some p.text else docAmong ps
      | .blank => docAmong ps
      | _ => none

/-- The doc comment in front of the token. -/
def doc? (t : Token) : Option Text := docAmong t.lead.reverse

end Token

/-! ## From lexemes to tokens -/

/-- Lexemes with their positions, the first one at a given position. -/
def place (start : Nat) : List Lexeme → List Piece
  | [] => []
  | l :: ls => ⟨l.kind, l.text, start⟩ :: place (start + l.text.size) ls

/-- An open bracket. -/
inductive Bracket where
  | round
  | square
  | brace
deriving DecidableEq, Repr

/-- The brackets that are open after a mark. -/
def Bracket.after (mark : Text) (brackets : List Bracket) : List Bracket :=
  match mark with
  | ['('] => .round :: brackets
  | ['['] | ['#', '['] => .square :: brackets
  | ['{'] | ['$', '{'] => .brace :: brackets
  | [')'] | [']'] | ['}'] => brackets.tail
  | _ => brackets

/-- Whether statements stand inside the innermost bracket. -/
def Bracket.holdStatements : List Bracket → Bool
  | [] => true
  | b :: _ => b == .brace

/-- The tokens of pieces, given the trivia in front, last first, and the open
brackets. -/
def tokensFrom (lead : List Piece) (brackets : List Bracket) : List Piece → List Token
  | [] => []
  | p :: ps =>
      if p.isTrivia then tokensFrom (p :: lead) brackets ps
      else
        ⟨lead.reverse, p, lead.any (·.kind == .html) && Bracket.holdStatements brackets⟩ ::
          tokensFrom [] (if p.kind = .mark then Bracket.after p.text brackets else brackets) ps

/-- The tokens of a file, with one for its end. -/
def tokens? (source : Text) : Option (List Token) :=
  (lex? source).map fun ls => tokensFrom [] [] (place 0 (ls ++ [⟨.ending, []⟩]))

end Php

end NativeHints
