import NativeHints.Php.Grammar.Class

/-!
# Grammar: expressions

Binary operators stand in levels, from those that bind least to those that bind
most.  An assignment is no level: its left side is a variable, so it begins at
an operand, and its right side reaches as far as a value does.

An operator cannot go on with an expression behind a closing tag that ends the
statement.
-/

namespace NativeHints

namespace Php

namespace Grammar

open Rule

/-! ## Strings and `match` -/

/-- A string that holds code. -/
def template : Rule :=
  node .plain
    (all [token (.kind .templateOpen),
      many (any [token (.kind .templatePart), braced expression,
        all [mark "$\x7b", expression, mark "\x7d"]]),
      token (.kind .templateClose)])

/-- One arm of a `match`. -/
def matchArm : Rule :=
  node .plain
    (any [all [word "default", mark "=>", expression],
      all [node .plain (seq (commas expression) (opt (mark ","))), mark "=>", expression]])

/-- A `match` expression. -/
def matchExpression : Rule :=
  node .plain
    (all [word "match", parenthesized,
      node .plain (braced (seq (opt (commas matchArm)) (opt (mark ","))))])

/-! ## Arrays -/

/-- A variable taken by reference. -/
def reference : Rule := node .plain (seq (mark "&") (symbol .place))

/-- An element of an array: a value, perhaps with a key, by reference or unpacked. -/
def arrayElement : Rule :=
  node .plain
    (any [seq (mark "...") expression, reference,
      seq expression (opt (seq (mark "=>") (any [reference, expression])))])

/-- Elements between commas, where some may be left out. -/
def slots (element : Rule) : Rule := seq (opt element) (many (seq (mark ",") (opt element)))

/-- An array in brackets, or variables to assign to. -/
def bracketArray : Rule := node .plain (all [mark "[", slots arrayElement, mark "]"])

/-- An array after its word. -/
def wordArray : Rule :=
  node .plain (all [word "array", mark "(", slots arrayElement, mark ")"])

/-- A list of variables to assign to. -/
def listTarget : Rule :=
  node .plain
    (all [word "list", mark "(",
      slots (any [reference, symbol .listTarget,
        seq expression (opt (seq (mark "=>") (any [reference, symbol .listTarget, expression])))]),
      mark ")"])

/-! ## Chains of accesses -/

/-- The operators that assign to a variable. -/
def assignmentMarks : List String :=
  ["=", "+=", "-=", "*=", "/=", ".=", "%=", "**=", "&=", "|=", "^=", "<<=", ">>=", "??="]

/-- The operators that change a variable, other than the plain assignment. -/
def changeMarks : List String := assignmentMarks.tail ++ ["++", "--"]

/-- Nothing, unless what comes next would change what stands in front. -/
def notChanged : Rule := .unless (any (changeMarks.map mark))

/-- Nothing, unless what comes next would assign to what stands in front. -/
def notAssigned : Rule := seq (.unless (mark "=")) notChanged

/-- Nothing, if an access to what stands in front comes next. -/
def accessed : Rule :=
  .unless (.unless (any (["[", "\x7b", "(", "->", "?->", "::"].map mark)))

/-- The name of a member of an object. -/
def memberName : Rule := any [anyName, symbol .variable, braced expression]

/-- An element of what stands in front. -/
def subscript : Rule := any [all [mark "[", opt expression, mark "]"], braced expression]

/-- A member of the object in front. -/
def objectMember : Rule := seq (any [mark "->", mark "?->"]) memberName

/-- A member of the class in front, given what must follow a constant. -/
def classMember (bare : Rule) : Rule :=
  seq (mark "::") (any [symbol .variable, braced expression, seq anyName bare])

/-- The class after `new` or `instanceof`. -/
def classReference : Rule :=
  any [parenthesized,
    seq (any [symbol .variable, word "static", freeQualifiedName])
      (many (any [subscript, objectMember, seq (mark "::") (symbol .variable)]))]

/-- The creation of an object. -/
def creation : Rule :=
  node .plain (seq (word "new") (any [anonymousClass, seq classReference (opt arguments)]))

/-- What an access can start from, given what must follow if it is no variable, and if
it is an array in brackets. -/
def chainStart (bare bareArray : Rule) : Rule :=
  any [symbol .variable, seq parenthesized bare, seq bracketArray bareArray, seq wordArray bare,
    seq (any [token (.kind .string), template]) bare, seq creation bare,
    seq (word "static") (.unless (.unless (mark "::"))), seq freeQualifiedName bare]

/-- A value and the accesses to it, given what must follow if it is no variable, and if
it is an array in brackets. -/
def chainOf (bare bareArray : Rule) : Rule :=
  group (seq (chainStart bare bareArray)
    (many (seq continued (any [subscript, arguments, objectMember, classMember bare]))))

/-- A value and the accesses to it.  Only variables are changed. -/
def chain : Rule := chainOf notAssigned notChanged

/-- A variable, or an access that can stand for one. -/
def place : Rule := chainOf accessed accessed

/-- What can follow a variable: an assignment, or one step up or down. -/
def update : Rule :=
  any [all [mark "=", opt (mark "&"), symbol .value],
    seq (any (assignmentMarks.tail.map mark)) (symbol .value), mark "++", mark "--"]

/-- A chain, perhaps with an assignment to it, or an assignment to a list. -/
def assignment : Rule :=
  group (any [all [symbol .listTarget, mark "=", opt (mark "&"), symbol .value],
    seq chain (opt (seq continued update))])

/-! ## Operators -/

/-- The words for types in a cast. -/
def castWords : List String :=
  ["array", "binary", "bool", "boolean", "double", "int", "integer", "float", "object", "real",
    "string", "unset"]

/-- The words that take the whole expression behind them. -/
def greedyWords : List String :=
  ["print", "throw", "include", "include_once", "require", "require_once"]

/-- A `yield` expression. -/
def yielding : Rule :=
  node .plain
    (seq (word "yield")
      (opt (seq continued (any [seq (word "from") expression, arrayElement]))))

/-- An operand, with the test of its class perhaps. -/
def instanceTest : Rule :=
  group (seq (any [closure, arrow, token (.kind .number), assignment])
    (many (all [continued, word "instanceof", classReference])))

/-- An operand with the operators in front of it. -/
def unary : Rule :=
  any [node .plain (seq (any (["+", "-", "!", "~", "@"].map mark)) (symbol .unary)),
    node .plain (seq (any [mark "++", mark "--"]) (symbol .place)),
    node .plain (all [mark "(", any (castWords.map word), mark ")", symbol .unary]),
    node .plain (seq (word "clone") (symbol .unary)),
    node .plain (seq (any (greedyWords.map word)) expression),
    yielding, matchExpression, instanceTest]

/-- Operands of one level, taken from left to right. -/
def level (operator operand : Rule) : Rule :=
  group (seq operand (many (all [continued, operator, operand])))

/-- Operands of one level, taken from right to left. -/
def rightLevel (operator operand whole : Rule) : Rule :=
  group (seq operand (opt (all [continued, operator, whole])))

/-- Operands of `**`. -/
def power : Rule := rightLevel (mark "**") (symbol .unary) (symbol .power)

/-- The operators between `??` and `**`, level by level. -/
def operatorLevels : List (List String) :=
  [["||"], ["&&"], ["|"], ["^"], ["&"], ["==", "!=", "<>", "===", "!==", "<=>"],
    ["<", ">", "<=", ">="], ["."], ["<<", ">>"], ["+", "-"], ["*", "/", "%"]]

/-- Operands of `??`. -/
def coalesce : Rule :=
  rightLevel (mark "??")
    (operatorLevels.foldr (fun marks operand => level (any (marks.map mark)) operand)
      (symbol .power))
    (symbol .coalesce)

/-- A condition with its two values, or an expression without one. -/
def value : Rule :=
  group (seq (symbol .coalesce)
    (many (all [continued, mark "?", opt expression, mark ":", symbol .coalesce])))

/-- Any expression. -/
def wholeExpression : Rule :=
  ["or", "xor", "and"].foldr (fun operator operand => level (word operator) operand)
    (symbol .value)

end Grammar

end Php

end NativeHints
