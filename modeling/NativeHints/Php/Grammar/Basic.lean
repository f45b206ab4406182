import NativeHints.Php.Rule

/-!
# Grammar: names, types and arguments

The symbols of the PHP grammar are the constructs that can hold themselves.
All others are rules with names of their own.  This module has the parts that
expressions and declarations share.
-/

namespace NativeHints

namespace Php

/-- The symbols of the grammar. -/
inductive Symbol where
  /-- A whole file. -/
  | program
  /-- A statement. -/
  | statement
  /-- Any expression. -/
  | expression
  /-- An expression without `and`, `xor` and `or` at its top. -/
  | value
  /-- An expression without a condition at its top. -/
  | coalesce
  /-- Operands of `**`. -/
  | power
  /-- An operand with the operators in front of it. -/
  | unary
  /-- A variable, perhaps of a variable. -/
  | variable
  /-- Expressions between commas. -/
  | expressions
  /-- A list of variables to assign to. -/
  | listTarget
  /-- A variable, or an access that can stand for one. -/
  | place
deriving DecidableEq, Repr

namespace Grammar

open Rule

/-- A rule of the PHP grammar. -/
abbrev Rule := Php.Rule Symbol

/-- An expression. -/
def expression : Rule := symbol .expression

/-- The end of a statement: a semicolon, or a closing tag. -/
def semicolon : Rule := alt (mark ";") fresh

/-- Nothing, unless a closing tag has ended the statement. -/
def continued : Rule := .unless fresh

/-- A rule in braces. -/
def braced (r : Rule) : Rule := all [mark "\x7b", r, mark "\x7d"]

/-- An expression in parentheses. -/
def parenthesized : Rule := node .plain (all [mark "(", expression, mark ")"])

/-! ## Names -/

/-- The words that are no names where an expression is expected. -/
def reserved : List Text :=
  ["abstract".toList, "and".toList, "array".toList, "as".toList, "break".toList,
    "callable".toList, "case".toList, "catch".toList, "class".toList, "clone".toList,
    "const".toList, "continue".toList, "declare".toList, "default".toList, "do".toList,
    "echo".toList, "else".toList, "elseif".toList, "enddeclare".toList, "endfor".toList,
    "endforeach".toList, "endif".toList, "endswitch".toList, "endwhile".toList,
    "extends".toList, "final".toList, "finally".toList, "fn".toList, "for".toList,
    "foreach".toList, "function".toList, "global".toList, "goto".toList, "if".toList,
    "implements".toList, "include".toList, "include_once".toList, "instanceof".toList,
    "insteadof".toList, "interface".toList, "list".toList, "match".toList,
    "namespace".toList, "new".toList, "or".toList, "print".toList, "private".toList,
    "protected".toList, "public".toList, "require".toList, "require_once".toList,
    "return".toList, "static".toList, "switch".toList, "throw".toList, "trait".toList,
    "try".toList, "unset".toList, "use".toList, "var".toList, "while".toList,
    "xor".toList, "yield".toList]

/-- Any word as a name. -/
def anyName : Rule := token .name

/-- A word that is not reserved. -/
def freeName : Rule := token (.nameExcept reserved)

/-- Further segments of a name. -/
def segments : Rule := many (seq (mark "\\") anyName)

/-- A name with its namespace, in a place where no word is reserved. -/
def qualifiedName : Rule := all [opt (mark "\\"), anyName, segments]

/-- A name with its namespace, in an expression. -/
def freeQualifiedName : Rule :=
  any [all [mark "\\", anyName, segments], seq freeName segments,
    all [word "namespace", mark "\\", anyName, segments]]

/-- A name as a node. -/
def namePart : Rule := node .name qualifiedName

/-- The name of a declaration. -/
def declaredName : Rule := node .name anyName

/-- A variable that is declared. -/
def declaredVariable : Rule := node .variable (seq (mark "$") anyName)

/-- A variable: a dollar sign and a name, a variable or an expression in braces. -/
def dollarVariable : Rule :=
  seq (mark "$") (any [anyName, symbol .variable, braced expression])

/-! ## Types -/

/-- A rule once or more often, with a mark between. -/
def separated (between : String) (r : Rule) : Rule := seq r (many (seq (mark between) r))

/-- A part of a type. -/
def typePart : Rule := seq (opt (mark "?")) qualifiedName

/-- Parts between ampersands. -/
def intersection : Rule := separated "&" typePart

/-- A type: at least two parts between ampersands, or parts between bars, where parts
between ampersands stand in parentheses. -/
def type : Rule :=
  any [all [typePart, mark "&", intersection],
    separated "|" (any [all [mark "(", intersection, mark ")"], typePart])]

/-- A hint. -/
def hint : Rule := node .hint type

/-! ## Arguments and attributes -/

/-- One argument, perhaps with a name, by reference or unpacked. -/
def argument : Rule :=
  node .plain
    (all [opt (seq anyName (mark ":")), opt (mark "&"),
      any [node .plain (seq (mark "...") (opt expression)), expression]])

/-- Arguments in parentheses. -/
def arguments : Rule :=
  node .plain (all [mark "(", opt (commas argument), opt (mark ","), mark ")"])

/-- Attributes in front of a declaration. -/
def attributes : Rule :=
  node .plain <| many1 <| node .plain <|
    all [mark "#[", commas (node .plain (seq qualifiedName (opt arguments))), opt (mark ","),
      mark "]"]

end Grammar

end Php

end NativeHints
